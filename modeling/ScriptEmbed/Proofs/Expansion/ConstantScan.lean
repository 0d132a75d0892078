import Mathlib.Tactic
import ScriptEmbed.Proofs.Expansion.Boundary

/-!
# Constants by a plain scan

`expandConstants` keeps, for every constant, the place of its next occurrence, and renews those that
fall behind.  This file shows that the places need not be kept: the result is that of a scan that
asks at each place which constant occurs there.

* `firstAt?` — the first declared constant that occurs at a place;
* `scanConstants` — replaces it and goes on after it, and otherwise copies a character;
* `slotsAt` — **the invariant**: every slot holds the next occurrence from the present place on;
* `expandConstants_eq_scan` — **the pass over a text is the scan**.
-/

namespace ScriptEmbed.Expansion

/-! ### The scan -/

/-- The first declared constant that occurs at the start of `rest`; an empty name never does. -/
def firstAt? (constants : List Constant) (before : Option Char) (rest : Text) : Option Constant :=
  constants.find? fun k => !k.name.isEmpty && occursAt k.name before rest

theorem firstAt?_some {constants : List Constant} {before : Option Char} {rest : Text}
    {k : Constant} (h : firstAt? constants before rest = some k) :
    k ∈ constants ∧ k.name ≠ [] ∧ occursAt k.name before rest = true := by
  have hk := List.find?_some h
  simp only [Bool.and_eq_true, Bool.not_eq_true', List.isEmpty_eq_false_iff] at hk
  exact ⟨List.mem_of_find?_eq_some h, hk⟩

theorem firstAt?_eq_none {constants : List Constant} {before : Option Char} {rest : Text} :
    firstAt? constants before rest = none ↔
      ∀ k ∈ constants, k.name ≠ [] → occursAt k.name before rest = false := by
  rw [firstAt?, List.find?_eq_none]
  simp only [Bool.and_eq_true, Bool.not_eq_true', List.isEmpty_eq_false_iff, not_and,
    Bool.not_eq_true]

/-- The text with the constants replaced that occur from the left. -/
def scanConstants (constants : List Constant) (before : Option Char) (t : Text) : Text :=
  match t with
  | [] => []
  | c :: rest =>
    match _h : firstAt? constants before (c :: rest) with
    | none => c :: scanConstants constants (some c) rest
    | some k =>
      k.replacement ++
        scanConstants constants k.name.getLast? ((c :: rest).drop k.name.length)
termination_by t.length
decreasing_by
  · simp
  · have := List.length_pos_iff.2 (firstAt?_some ‹_›).2.1
    simp only [List.length_drop, List.length_cons]
    omega

theorem scanConstants_nil (constants : List Constant) (before : Option Char) :
    scanConstants constants before [] = [] := by
  rw [scanConstants]

theorem scanConstants_copy {constants : List Constant} {before : Option Char} {c : Char}
    {rest : Text} (h : firstAt? constants before (c :: rest) = none) :
    scanConstants constants before (c :: rest) = c :: scanConstants constants (some c) rest := by
  rw [scanConstants]
  split
  · rfl
  · rename_i k hk
    rw [h] at hk
    cases hk

theorem scanConstants_replace {constants : List Constant} {before : Option Char} {t : Text}
    {k : Constant} (h : firstAt? constants before t = some k) :
    scanConstants constants before t =
      k.replacement ++ scanConstants constants k.name.getLast? (t.drop k.name.length) := by
  cases t with
  | nil =>
    obtain ⟨_, hne, hocc⟩ := firstAt?_some h
    cases hn : k.name with
    | nil => exact absurd hn hne
    | cons a n => simp [occursAt, hn] at hocc
  | cons c rest =>
    rw [scanConstants]
    split
    · rename_i hk
      rw [h] at hk
      cases hk
    · rename_i k' hk
      rw [h] at hk
      cases hk
      rfl

/-! ### Next occurrences -/

theorem le_of_nextOccurrence? {name : Text} {before : Option Char} {position p : Nat} {t : Text}
    (h : nextOccurrence? name before position t = some p) : position ≤ p := by
  induction t generalizing before position with
  | nil => cases h
  | cons c rest ih =>
    rw [nextOccurrence?] at h
    split at h
    · cases h
      exact Nat.le_refl _
    · have := ih h
      omega

/-- An occurrence that is still ahead, or the lack of one, is found again from a later place. -/
theorem nextOccurrence?_drop {name : Text} (k : Nat) :
    ∀ {before : Option Char} {position : Nat} {t : Text},
      (∀ p, nextOccurrence? name before position t = some p → position + k ≤ p) →
      nextOccurrence? name (lastOr before (t.take k)) (position + k) (t.drop k) =
        nextOccurrence? name before position t := by
  induction k with
  | zero => intro before position t _; rfl
  | succ k ih =>
    intro before position t h
    cases t with
    | nil => rfl
    | cons c rest =>
      rw [nextOccurrence?] at h ⊢
      split at h
      · have := h position rfl
        omega
      · rename_i hocc
        rw [if_neg hocc, List.take_succ_cons, List.drop_succ_cons, lastOr_cons,
          show position + (k + 1) = position + 1 + k by omega]
        exact ih fun p hp => by have := h p hp; omega

/-! ### Slots -/

/-- The slot of a constant with its next occurrence from the present place on. -/
def slotAt? (before : Option Char) (position : Nat) (t : Text) (c : Constant) : Option Slot :=
  if h : c.name = [] then none
  else some ⟨c.name, c.replacement, nextOccurrence? c.name before position t, h⟩

/-- The slots of all constants, every one with its next occurrence from the present place on. -/
def slotsAt (constants : List Constant) (before : Option Char) (position : Nat) (t : Text) :
    List Slot :=
  constants.filterMap (slotAt? before position t)

theorem mem_slotsAt {constants : List Constant} {before : Option Char} {position : Nat} {t : Text}
    {s : Slot} (h : s ∈ slotsAt constants before position t) :
    s.next = nextOccurrence? s.name before position t := by
  obtain ⟨c, _, hs⟩ := List.mem_filterMap.1 h
  rw [slotAt?] at hs
  split at hs
  · cases hs
  · cases hs
    rfl

theorem mem_of_earliest? {slots : List Slot} {p : Nat} {s : Slot}
    (h : Slot.earliest? slots = some (p, s)) : s ∈ slots ∧ s.next = some p := by
  induction slots with
  | nil => cases h
  | cons u slots ih =>
    rw [Slot.earliest?] at h
    split at h
    · obtain ⟨hs, hp⟩ := ih h
      exact ⟨List.mem_cons_of_mem u hs, hp⟩
    · cases h
      exact ⟨List.mem_cons_self, ‹_›⟩
    · split at h
      · cases h
        exact ⟨List.mem_cons_self, ‹_›⟩
      · cases h
        obtain ⟨hs, hp⟩ := ih ‹_›
        exact ⟨List.mem_cons_of_mem u hs, hp⟩

/-- Of the slots that are due at `p`, the first is taken. -/
theorem earliest?_append {pre post : List Slot} {s : Slot} {p : Nat} (hs : s.next = some p)
    (hpre : ∀ u ∈ pre, ∀ q, u.next = some q → p < q)
    (hpost : ∀ u ∈ post, ∀ q, u.next = some q → p ≤ q) :
    Slot.earliest? (pre ++ s :: post) = some (p, s) := by
  induction pre with
  | nil =>
    rw [List.nil_append, Slot.earliest?, hs]
    cases he : Slot.earliest? post with
    | none => rfl
    | some e =>
      obtain ⟨q, u⟩ := e
      obtain ⟨hu, hq⟩ := mem_of_earliest? he
      have := hpost u hu q hq
      simp [this]
  | cons u pre ih =>
    rw [List.cons_append, Slot.earliest?,
      ih fun v hv => hpre v (List.mem_cons_of_mem u hv)]
    cases hu : u.next with
    | none => rfl
    | some q =>
      have := hpre u List.mem_cons_self q hu
      simp [Nat.not_le.2 this]

/-! ### The sweep is the scan -/

theorem sweep_nil (slots : List Slot) (position : Nat) : sweep slots position [] = [] := by
  rw [sweep]

theorem sweep_of_earliest?_none {slots : List Slot} (h : Slot.earliest? slots = none)
    (position : Nat) (t : Text) : sweep slots position t = t := by
  cases t with
  | nil => exact sweep_nil _ _
  | cons c rest =>
    rw [sweep]
    split
    · rfl
    · rename_i p s hs
      rw [h] at hs
      cases hs

theorem sweep_of_earliest?_some {slots : List Slot} {start : Nat} {s : Slot}
    (h : Slot.earliest? slots = some (start, s)) {position : Nat} {t : Text} (ht : t ≠ []) :
    sweep slots position t =
      t.take (start - position) ++ s.replacement ++
        sweep (slots.map fun u => u.refresh s.name.getLast? (start + s.name.length)
            (t.drop (start - position + s.name.length)))
          (start + s.name.length) (t.drop (start - position + s.name.length)) := by
  cases t with
  | nil => exact absurd rfl ht
  | cons c rest =>
    rw [sweep]
    split
    · rename_i hs
      rw [h] at hs
      cases hs
    · rename_i start' s' hs
      rw [h] at hs
      cases hs
      rfl

/-- Where no slot is due, the sweep copies a character. -/
theorem sweep_copy {slots : List Slot} {position : Nat} {c : Char} {rest : Text}
    (h : ∀ s ∈ slots, ∀ p, s.next = some p → position < p)
    (hnil : rest = [] → ∀ s ∈ slots, s.next = none) :
    sweep slots position (c :: rest) = c :: sweep slots (position + 1) rest := by
  cases he : Slot.earliest? slots with
  | none => rw [sweep_of_earliest?_none he, sweep_of_earliest?_none he]
  | some e =>
    obtain ⟨start, s⟩ := e
    obtain ⟨hs, hnext⟩ := mem_of_earliest? he
    have hrest : rest ≠ [] := by
      rintro rfl
      rw [hnil rfl s hs] at hnext
      cases hnext
    have hlt := h s hs start hnext
    rw [sweep_of_earliest?_some he (List.cons_ne_nil c rest), sweep_of_earliest?_some he hrest,
      show start - position = start - (position + 1) + 1 by omega, List.take_succ_cons,
      show start - (position + 1) + 1 + s.name.length =
        start - (position + 1) + s.name.length + 1 by omega, List.drop_succ_cons]
    rfl

/-- Where nothing occurs, the slots stay as they are. -/
theorem slotsAt_copy {constants : List Constant} {before : Option Char} {position : Nat}
    {c : Char} {rest : Text} (h : firstAt? constants before (c :: rest) = none) :
    slotsAt constants before position (c :: rest) =
      slotsAt constants (some c) (position + 1) rest := by
  refine List.filterMap_congr fun k hk => ?_
  by_cases hn : k.name = []
  · simp [slotAt?, hn]
  · simp [slotAt?, hn, nextOccurrence?, firstAt?_eq_none.1 h k hk hn]

/-- After a replacement the renewed slots hold the next occurrences again. -/
theorem slotsAt_refresh {constants : List Constant} {before : Option Char} {position : Nat}
    {name tail : Text} (hname : name ≠ []) :
    (slotsAt constants before position (name ++ tail)).map
        (fun u => u.refresh name.getLast? (position + name.length) tail) =
      slotsAt constants name.getLast? (position + name.length) tail := by
  rw [slotsAt, List.map_filterMap]
  refine List.filterMap_congr fun k _ => ?_
  by_cases hn : k.name = []
  · simp [slotAt?, hn]
  · have hdrop : ∀ r, nextOccurrence? k.name before position (name ++ tail) = r →
        (∀ p, r = some p → position + name.length ≤ p) →
        nextOccurrence? k.name name.getLast? (position + name.length) tail = r := by
      rintro r rfl hr
      have h := nextOccurrence?_drop name.length hr
      rwa [List.take_left, List.drop_left, lastOr_of_ne_nil before hname] at h
    simp only [slotAt?, hn, dite_false, Option.map_some, Option.some.injEq]
    cases hnext : nextOccurrence? k.name before position (name ++ tail) with
    | none =>
      rw [hdrop none hnext fun p hp => by cases hp]
      rfl
    | some p =>
      by_cases hp : p < position + name.length
      · simp [Slot.refresh, hp]
      · rw [hdrop (some p) hnext fun q hq => by cases hq; omega]
        simp [Slot.refresh, hp]

/-- Where a constant occurs, the slot of the first such constant is taken. -/
theorem earliest?_slotsAt {constants : List Constant} {before : Option Char} {c : Char}
    {rest : Text} {k : Constant} (position : Nat)
    (h : firstAt? constants before (c :: rest) = some k) :
    ∃ s, Slot.earliest? (slotsAt constants before position (c :: rest)) = some (position, s) ∧
      s.name = k.name ∧ s.replacement = k.replacement := by
  obtain ⟨hk, pre, post, hsplit, hpre⟩ := List.find?_eq_some_iff_append.1 h
  obtain ⟨_, hne, hocc⟩ := firstAt?_some h
  have hnext : nextOccurrence? k.name before position (c :: rest) = some position := by
    rw [nextOccurrence?, if_pos hocc]
  refine ⟨⟨k.name, k.replacement, nextOccurrence? k.name before position (c :: rest), hne⟩, ?_,
    rfl, rfl⟩
  rw [slotsAt, hsplit, List.filterMap_append, List.filterMap_cons]
  have hslot : slotAt? before position (c :: rest) k =
      some ⟨k.name, k.replacement, nextOccurrence? k.name before position (c :: rest), hne⟩ := by
    rw [slotAt?, dif_neg hne]
  rw [hslot]
  refine earliest?_append hnext (fun u hu q hq => ?_) fun u hu q hq => ?_
  · -- a constant declared before does not occur here
    obtain ⟨j, hj, hs⟩ := List.mem_filterMap.1 hu
    have hnot := hpre j hj
    rw [slotAt?] at hs
    split at hs
    · cases hs
    · rename_i hjn
      cases hs
      simp only [Bool.not_eq_true', Bool.and_eq_false_iff, Bool.not_eq_false',
        List.isEmpty_iff, hjn, false_or] at hnot
      simp only [nextOccurrence?, hnot, Bool.false_eq_true, if_false] at hq
      have := le_of_nextOccurrence? hq
      omega
  · have hu' : u ∈ slotsAt post before position (c :: rest) := hu
    rw [mem_slotsAt hu'] at hq
    exact le_of_nextOccurrence? hq

/-- **The sweep with its slots is the scan.** -/
theorem sweep_slotsAt_eq_scan (constants : List Constant) {t : Text} :
    ∀ (before : Option Char) (position : Nat),
      sweep (slotsAt constants before position t) position t = scanConstants constants before t := by
  induction hn : t.length using Nat.strong_induction_on generalizing t with
  | _ n ih =>
    intro before position
    cases t with
    | nil => rw [sweep_nil, scanConstants_nil]
    | cons c rest =>
      cases hf : firstAt? constants before (c :: rest) with
      | none =>
        rw [List.length_cons] at hn
        rw [scanConstants_copy hf, slotsAt_copy hf, sweep_copy,
          ih rest.length (by omega) rfl]
        · intro s hs p hp
          rw [mem_slotsAt hs] at hp
          have := le_of_nextOccurrence? hp
          omega
        · rintro rfl s hs
          exact mem_slotsAt hs
      | some k =>
        obtain ⟨s, hs, hname, hrepl⟩ := earliest?_slotsAt position hf
        obtain ⟨_, hne, hocc⟩ := firstAt?_some hf
        obtain ⟨tail, ht⟩ : k.name <+: c :: rest := by
          simp only [occursAt, Bool.and_eq_true] at hocc
          exact List.isPrefixOf_iff_prefix.1 hocc.1.1
        have hpos := List.length_pos_iff.2 hne
        rw [scanConstants_replace hf, sweep_of_earliest?_some hs (List.cons_ne_nil c rest), hname,
          hrepl, Nat.sub_self, Nat.zero_add, List.take_zero, List.nil_append, ← ht,
          List.drop_left, slotsAt_refresh hne]
        rw [← ht, List.length_append] at hn
        rw [ih tail.length (by omega) rfl]

end ScriptEmbed.Expansion

namespace ScriptEmbed

open Expansion

/-- **The pass over a text is the scan.** -/
theorem expandConstants_eq_scan (constants : List Constant) (t : Text) :
    expandConstants constants t = scanConstants constants none t :=
  sweep_slotsAt_eq_scan constants none 0

end ScriptEmbed
