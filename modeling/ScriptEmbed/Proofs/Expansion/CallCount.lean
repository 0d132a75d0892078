import ScriptEmbed.Proofs.Expansion.ArgumentList
import ScriptEmbed.Proofs.Expansion.Boundary

/-!
# The calls in a text

A text is counted through from the left: at each place either one of some given names is called, or
none is.  The count is what a sweep over a macro brings down.

* `callCount` — the number of calls, given what stands before the text;
* `callCount_eq_zero_iff` — a text without calls, place by place;
* `callCount_append_of_closed` — **no call goes across the end of a closed text**, so calls on both
  sides add up;
* `callCount_lt_of_calledAt` — **an argument of a call holds fewer calls than the text**.
-/

namespace ScriptEmbed.Expansion

open Text

variable {names : List Text} {n : Text} {before : Option Char} {c : Char} {t : Text}

/-! ### Counting -/

/-- One of the names is called at a place. -/
def anyCalledAt (names : List Text) (before : Option Char) (t : Text) : Bool :=
  names.any fun n => calledAt n before t

/-- The number of places of a text, before which `before` stands, where one of the names is
called. -/
def callCount (names : List Text) : Option Char → Text → Nat
  | _, [] => 0
  | before, c :: t =>
    (anyCalledAt names before (c :: t)).toNat + callCount names (some c) t

theorem callCount_cons (names : List Text) (before : Option Char) (c : Char) (t : Text) :
    callCount names before (c :: t) =
      (anyCalledAt names before (c :: t)).toNat + callCount names (some c) t := rfl

theorem anyCalledAt_eq_true_iff :
    anyCalledAt names before t = true ↔ ∃ n ∈ names, calledAt n before t = true :=
  List.any_eq_true

/-- Where more names are called, there are more calls. -/
theorem toNat_anyCalledAt_le {others : List Text} {before' : Option Char} {t' : Text}
    (h : ∀ n ∈ names, calledAt n before t = true → ∃ k ∈ others, calledAt k before' t' = true) :
    (anyCalledAt names before t).toNat ≤ (anyCalledAt others before' t').toNat := by
  refine Bool.toNat_le_toNat (Bool.le_iff_imp.2 fun hany => ?_)
  obtain ⟨n, hn, hc⟩ := anyCalledAt_eq_true_iff.1 hany
  exact anyCalledAt_eq_true_iff.2 (h n hn hc)

theorem callCount_mono {others : List Text} (h : names ⊆ others) (before : Option Char)
    (t : Text) : callCount names before t ≤ callCount others before t := by
  induction t generalizing before with
  | nil => exact Nat.le_refl 0
  | cons c t ih =>
    have hhere : (anyCalledAt names before (c :: t)).toNat ≤
        (anyCalledAt others before (c :: t)).toNat :=
      toNat_anyCalledAt_le fun n hn hc => ⟨n, h hn, hc⟩
    exact Nat.add_le_add hhere (ih (some c))

theorem anyCalledAt_congr {before' : Option Char} {t' : Text}
    (h : ∀ n ∈ names, calledAt n before t = calledAt n before' t') :
    anyCalledAt names before t = anyCalledAt names before' t' := by
  rw [Bool.eq_iff_iff, anyCalledAt_eq_true_iff, anyCalledAt_eq_true_iff]
  refine exists_congr fun n => and_congr_right fun hn => ?_
  rw [h n hn]

/-- Of the character before a text, only its being a word character counts. -/
theorem callCount_congr {b b' : Option Char} (h : isWordSide b = isWordSide b') (t : Text) :
    callCount names b t = callCount names b' t := by
  cases t with
  | nil => rfl
  | cons c t =>
    have hhere : anyCalledAt names b (c :: t) = anyCalledAt names b' (c :: t) :=
      anyCalledAt_congr fun n _ => calledAt_congr h (c :: t)
    rw [callCount_cons, callCount_cons, hhere]

theorem callCount_cons_le (names : List Text) (before : Option Char) (c : Char) (t : Text) :
    callCount names (some c) t ≤ callCount names before (c :: t) :=
  Nat.le_add_left _ _

theorem callCount_of_calledAt (hn : n ∈ names) (hc : calledAt n before (c :: t) = true) :
    callCount names before (c :: t) = callCount names (some c) t + 1 := by
  have hany := anyCalledAt_eq_true_iff.2 ⟨n, hn, hc⟩
  rw [callCount_cons, hany, Nat.add_comm]
  rfl

/-- In a text without calls none of the names is called at any place. -/
theorem callCount_eq_zero_iff :
    callCount names before t = 0 ↔
      ∀ p s, t = p ++ s → ∀ n ∈ names, calledAt n (lastOr before p) s = false := by
  induction t generalizing before with
  | nil =>
    refine ⟨fun _ p s hps n _ => ?_, fun _ => rfl⟩
    obtain ⟨-, rfl⟩ := List.append_eq_nil_iff.1 hps.symm
    exact calledAt_nil n _
  | cons c t ih =>
    have hhere : (anyCalledAt names before (c :: t)).toNat = 0 ↔
        ∀ n ∈ names, calledAt n before (c :: t) = false := by
      rw [Bool.toNat_eq_zero, anyCalledAt, List.any_eq_false]
      simp only [Bool.not_eq_true]
    rw [callCount_cons, Nat.add_eq_zero_iff, ih, hhere]
    constructor
    · rintro ⟨hfirst, hrest⟩ p s hps n hn
      cases p with
      | nil =>
        rw [List.nil_append] at hps
        rw [← hps]
        exact hfirst n hn
      | cons b p =>
        obtain ⟨rfl, htail⟩ := List.cons_eq_cons.1 hps
        rw [lastOr_cons]
        exact hrest p s htail n hn
    · intro h
      refine ⟨fun n hn => h [] (c :: t) rfl n hn, fun p s hps n hn => ?_⟩
      rw [← lastOr_cons before c p]
      refine h (c :: p) s ?_ n hn
      rw [hps]
      rfl

theorem callCount_nil_names (before : Option Char) (t : Text) : callCount [] before t = 0 := by
  rw [callCount_eq_zero_iff]
  intro p s _ n hn
  cases hn

/-! ### Parts of a text -/

/-- The calls of two parts are calls of the whole. -/
theorem callCount_append_le (names : List Text) (before : Option Char) (t r : Text) :
    callCount names before t + callCount names (lastOr before t) r ≤
      callCount names before (t ++ r) := by
  induction t generalizing before with
  | nil =>
    rw [lastOr_nil]
    show 0 + _ ≤ _
    rw [Nat.zero_add]
    exact Nat.le_refl _
  | cons c t ih =>
    have hhere : (anyCalledAt names before (c :: t)).toNat ≤
        (anyCalledAt names before (c :: t ++ r)).toNat := by
      refine toNat_anyCalledAt_le fun n hn hc => ⟨n, hn, ?_⟩
      rw [calledAt, Bool.and_eq_true, List.isPrefixOf_iff_prefix] at hc ⊢
      exact ⟨hc.1.trans (List.prefix_append _ r), hc.2⟩
    have hrest := ih (some c)
    rw [lastOr_cons, List.cons_append, callCount_cons, callCount_cons]
    rw [List.cons_append] at hhere
    omega

/-- No call goes across the end of a closed text. -/
theorem calledAt_append_of_closed (hn : IsName n) (ht : Closed t) (before : Option Char)
    (r : Text) : calledAt n before (t ++ r) = calledAt n before t := by
  obtain ⟨s, c, rfl, hc⟩ := closed_iff.1 ht
  rw [List.append_assoc, List.singleton_append]
  by_cases hp : c = '('
  · rw [hp] at hc ⊢
    have hhead : (s ++ '(' :: r).head? = (s ++ ['(']).head? := by
      cases s <;> rfl
    rw [calledAt, calledAt, isPrefixOf_concat_append_cons (hn.not_mem hc), hhead]
  · rw [calledAt_append_cons hn hc hp, calledAt_append_cons hn hc hp]

/-- Calls before and after the end of a closed text add up. -/
theorem callCount_append_of_closed (hnames : ∀ n ∈ names, IsName n) (ht : Closed t)
    (before : Option Char) (r : Text) :
    callCount names before (t ++ r) =
      callCount names before t + callCount names (lastOr before t) r := by
  induction t generalizing before with
  | nil => exact absurd rfl ht.ne_nil
  | cons c t ih =>
    have hhere : anyCalledAt names before (c :: t ++ r) = anyCalledAt names before (c :: t) :=
      anyCalledAt_congr fun n hn => calledAt_append_of_closed (hnames n hn) ht before r
    have hrest : callCount names (some c) (t ++ r) =
        callCount names (some c) t + callCount names (lastOr (some c) t) r := by
      by_cases hempty : t = []
      · rw [hempty]
        show callCount names (some c) r = 0 + callCount names (some c) r
        rw [Nat.zero_add]
      · exact ih ((closed_append_of_ne_nil hempty [c]).1 ht) (some c)
    rw [List.cons_append] at hhere ⊢
    rw [callCount_cons, callCount_cons, hhere, hrest, lastOr_cons, Nat.add_assoc]

theorem isWordSide_lastOr_of_closed (ht : Closed t) (before : Option Char) :
    isWordSide (lastOr before t) = false := by
  rw [lastOr_of_ne_nil before ht.ne_nil]
  obtain ⟨c, hc, hw⟩ := ht
  rw [hc]
  exact hw

/-- A text that stands free in another one holds no more calls than it. -/
theorem callCount_le_of_standsFree {v : Text} (h : StandsFree v t) (names : List Text)
    (before : Option Char) : callCount names none v ≤ callCount names before t := by
  obtain ⟨l, r, hl, rfl⟩ := h
  have hside : isWordSide none = isWordSide (lastOr before l) :=
    (isWordSide_lastOr_of_closed hl before).symm
  have hleft := callCount_append_le names before (l ++ v) r
  have hright := callCount_append_le names before l v
  rw [callCount_congr hside v]
  omega

/-! ### Calls -/

/-- The arguments of a call, and the text after it, stand free behind the first character of the
call. -/
theorem standsFree_of_calledAt (hn : IsName n) (hc : calledAt n before (c :: t) = true)
    {call : Arguments} (hp : Arguments.parse? ((c :: t).drop (n.length + 1)) = some call) :
    (∀ v ∈ call.values, StandsFree v t) ∧ StandsFree call.rest t := by
  obtain ⟨tail, htail⟩ := prefix_of_calledAt hc
  rw [← htail, show n.length + 1 = (n ++ ['(']).length by simp, List.drop_left] at hp
  obtain ⟨hvalues, hrest⟩ := Arguments.standsFree_of_parse? hp
  obtain ⟨b, k, rfl⟩ := List.exists_cons_of_ne_nil hn.ne_nil
  have ht : t = k ++ '(' :: tail := by
    rw [List.append_assoc, List.cons_append, List.singleton_append] at htail
    exact (List.cons_eq_cons.1 htail).2.symm
  rw [ht]
  exact ⟨fun v hv => (hvalues v hv).append_left k, hrest.append_left k⟩

/-- The character before a call is no word character. -/
theorem isWordSide_of_calledAt (hn : IsName n) (hc : calledAt n before t = true) :
    isWordSide before = false := by
  obtain ⟨tail, rfl⟩ := prefix_of_calledAt hc
  obtain ⟨b, k, rfl⟩ := List.exists_cons_of_ne_nil hn.ne_nil
  have hb : isWord b = true := isWord_of_isNameChar (hn.isNameChar b List.mem_cons_self)
  rw [calledAt, Bool.and_eq_true, isBoundary] at hc
  have hside : (isWordSide before != isWord b) = true := hc.2
  rw [hb] at hside
  cases hw : isWordSide before with
  | false => rfl
  | true =>
    rw [hw] at hside
    cases hside

/-- An argument of a call holds fewer calls than the text that starts with the call. -/
theorem callCount_lt_of_calledAt (hmem : n ∈ names) (hn : IsName n)
    (hc : calledAt n before t = true) {call : Arguments}
    (hp : Arguments.parse? (t.drop (n.length + 1)) = some call) {v : Text}
    (hv : v ∈ call.values) : callCount names none v < callCount names before t := by
  cases t with
  | nil =>
    rw [calledAt_nil] at hc
    cases hc
  | cons c t =>
    have hle := callCount_le_of_standsFree ((standsFree_of_calledAt hn hc hp).1 v hv) names (some c)
    rw [callCount_of_calledAt hmem hc]
    omega

/-- The text after a call holds no more calls than the text that starts with the call. -/
theorem callCount_rest_le (hn : IsName n) (hc : calledAt n before t = true) {call : Arguments}
    (hp : Arguments.parse? (t.drop (n.length + 1)) = some call) (names : List Text) :
    callCount names none call.rest ≤ callCount names before t := by
  cases t with
  | nil =>
    rw [calledAt_nil] at hc
    cases hc
  | cons c t =>
    have hle := callCount_le_of_standsFree (standsFree_of_calledAt hn hc hp).2 names (some c)
    exact hle.trans (callCount_cons_le names before c t)

end ScriptEmbed.Expansion
