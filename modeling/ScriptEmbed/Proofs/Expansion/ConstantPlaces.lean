import Mathlib.Tactic
import ScriptEmbed.Proofs.Expansion.ConstantScan

/-!
# Constants, place by place

What the pass over constants gives is said here by the places of the given text alone: at every place
the first declared constant that stands there is replaced, and where none does a character is copied.
Nothing is asked of the names: they may hold any characters, overlap, repeat or be empty.

* `Text.BoundaryAt`, `Expansion.StandsAt` — a name at a place, with word boundaries at its ends;
* `Expansion.FirstAt`, `Expansion.Scanned` — the choice at a place, and what the text becomes from
  a place on;
* `Expansion.scanned_iff` — from every place on, the scan is what the text becomes;
* `expandConstants_iff_scanned` — **the pass over a text gives this and nothing else**.
-/

namespace ScriptEmbed

/-- A word starts or ends at a place of the text. -/
def Text.BoundaryAt (t : Text) (i : Nat) : Prop :=
  Text.isBoundary (t.take i).getLast? (t.drop i).head? = true

namespace Expansion

variable {constants : List Constant}

/-! ### Places of a text -/

/-- The name stands at a place of the text, with a word boundary of the text at either end; the
empty name stands nowhere. -/
structure StandsAt (t : Text) (i : Nat) (name : Text) : Prop where
  ne_nil : name ≠ []
  occurs : name <+: t.drop i
  start : t.BoundaryAt i
  stop : t.BoundaryAt (i + name.length)

/-- Of the constants whose names stand at a place, `k` is declared first. -/
def FirstAt (constants : List Constant) (t : Text) (i : Nat) (k : Constant) : Prop :=
  ∃ pre post, constants = pre ++ k :: post ∧ StandsAt t i k.name ∧
    ∀ j ∈ pre, ¬ StandsAt t i j.name

/-- From a place on, the text becomes `out`: a constant that stands at the place is replaced, and
the scan goes on behind it; otherwise a character is copied. -/
inductive Scanned (constants : List Constant) (t : Text) : Nat → Text → Prop where
  | stop : Scanned constants t t.length []
  | replace {i : Nat} {k : Constant} {out : Text} : FirstAt constants t i k →
      Scanned constants t (i + k.name.length) out →
      Scanned constants t i (k.replacement ++ out)
  | copy {i : Nat} {c : Char} {out : Text} : t[i]? = some c →
      (∀ k ∈ constants, ¬ StandsAt t i k.name) →
      Scanned constants t (i + 1) out → Scanned constants t i (c :: out)

/-! ### Between two parts of a text -/

/-- The boundaries of a name are those of the text in which it stands. -/
theorem standsAt_iff (l r name : Text) :
    StandsAt (l ++ r) l.length name ↔ name ≠ [] ∧ occursAt name l.getLast? r = true := by
  have hstart : (l ++ r).BoundaryAt l.length ↔ Text.isBoundary l.getLast? r.head? = true := by
    rw [Text.BoundaryAt, List.take_left, List.drop_left]
  have hstop : name ≠ [] → name <+: r →
      ((l ++ r).BoundaryAt (l.length + name.length) ↔
        Text.isBoundary name.getLast? (r.drop name.length).head? = true) := by
    intro hne hp
    obtain ⟨tail, rfl⟩ := hp
    rw [Text.BoundaryAt, ← List.append_assoc, ← List.length_append, List.take_left,
      List.drop_left, List.drop_left, List.getLast?_append_of_ne_nil l hne]
  rw [occursAt, Bool.and_eq_true, Bool.and_eq_true, List.isPrefixOf_iff_prefix, ← hstart]
  constructor
  · intro h
    have hp : name <+: r := by
      have hdrop := h.occurs
      rwa [List.drop_left] at hdrop
    exact ⟨h.ne_nil, ⟨hp, h.start⟩, (hstop h.ne_nil hp).1 h.stop⟩
  · intro h
    obtain ⟨hne, ⟨hp, hs⟩, he⟩ := h
    refine ⟨hne, ?_, hs, (hstop hne hp).2 he⟩
    rw [List.drop_left]
    exact hp

theorem firstAt?_eq_some_iff (l r : Text) {k : Constant} :
    firstAt? constants l.getLast? r = some k ↔ FirstAt constants (l ++ r) l.length k := by
  have hstands : ∀ j : Constant, (!j.name.isEmpty && occursAt j.name l.getLast? r) = true ↔
      StandsAt (l ++ r) l.length j.name := by
    intro j
    rw [standsAt_iff, Bool.and_eq_true, Bool.not_eq_true', List.isEmpty_eq_false_iff]
  rw [firstAt?, List.find?_eq_some_iff_append, hstands]
  constructor
  · intro h
    obtain ⟨hk, pre, post, hsplit, hpre⟩ := h
    refine ⟨pre, post, hsplit, hk, ?_⟩
    intro j hj
    rw [← hstands, Bool.not_eq_true, ← Bool.not_eq_true']
    exact hpre j hj
  · intro h
    obtain ⟨pre, post, hsplit, hk, hpre⟩ := h
    refine ⟨hk, pre, post, hsplit, ?_⟩
    intro j hj
    rw [Bool.not_eq_true', ← Bool.not_eq_true, hstands]
    exact hpre j hj

theorem firstAt?_eq_none_iff (l r : Text) :
    firstAt? constants l.getLast? r = none ↔
      ∀ k ∈ constants, ¬ StandsAt (l ++ r) l.length k.name := by
  simp only [firstAt?_eq_none, standsAt_iff, not_and, Bool.not_eq_true]

/-- A constant that stands at a place is followed by the rest of the text. -/
theorem FirstAt.exists_eq_append {l r : Text} {k : Constant}
    (h : FirstAt constants (l ++ r) l.length k) : k.name ≠ [] ∧ ∃ tail, r = k.name ++ tail := by
  obtain ⟨_, _, _, hk, _⟩ := h
  obtain ⟨tail, ht⟩ := hk.occurs
  rw [List.drop_left] at ht
  exact ⟨hk.ne_nil, tail, ht.symm⟩

/-! ### The scan -/

/-- What the scan gives, the text becomes. -/
theorem scanned_scanConstants (l r : Text) :
    Scanned constants (l ++ r) l.length (scanConstants constants l.getLast? r) := by
  induction hn : r.length using Nat.strong_induction_on generalizing l r with
  | _ n ih =>
    cases hf : firstAt? constants l.getLast? r with
    | some k =>
      have hfirst := (firstAt?_eq_some_iff l r).1 hf
      obtain ⟨hne, tail, rfl⟩ := hfirst.exists_eq_append
      have hpos := List.length_pos_iff.2 hne
      rw [List.length_append] at hn
      have hrest := ih tail.length (by omega) (l ++ k.name) tail rfl
      rw [List.append_assoc, List.length_append, List.getLast?_append_of_ne_nil l hne] at hrest
      rw [scanConstants_replace hf, List.drop_left]
      exact .replace hfirst hrest
    | none =>
      cases r with
      | nil =>
        rw [scanConstants_nil, List.append_nil]
        exact .stop
      | cons c r =>
        rw [List.length_cons] at hn
        have hrest := ih r.length (by omega) (l ++ [c]) r rfl
        rw [List.append_assoc, List.length_append, List.getLast?_concat] at hrest
        rw [scanConstants_copy hf]
        refine .copy ?_ ((firstAt?_eq_none_iff l (c :: r)).1 hf) hrest
        rw [List.getElem?_append_right (Nat.le_refl _), Nat.sub_self]
        rfl

/-- The text becomes nothing but what the scan gives. -/
theorem Scanned.eq_scanConstants {t : Text} {i : Nat} {out : Text}
    (h : Scanned constants t i out) :
    ∀ l r, t = l ++ r → i = l.length → out = scanConstants constants l.getLast? r := by
  induction h with
  | stop =>
    intro l r ht hi
    rw [ht, List.length_append] at hi
    have hr : r = [] := List.length_eq_zero_iff.1 (by omega)
    rw [hr, scanConstants_nil]
  | @replace i k out hfirst _ ih =>
    intro l r ht hi
    subst ht hi
    have hf := (firstAt?_eq_some_iff l r).2 hfirst
    obtain ⟨hne, tail, rfl⟩ := hfirst.exists_eq_append
    have hrest := ih (l ++ k.name) tail (List.append_assoc _ _ _).symm List.length_append.symm
    rw [List.getLast?_append_of_ne_nil l hne] at hrest
    rw [scanConstants_replace hf, List.drop_left, hrest]
  | @copy i c out hc hnone _ ih =>
    intro l r ht hi
    subst ht hi
    have hf := (firstAt?_eq_none_iff l r).2 hnone
    rw [List.getElem?_append_right (Nat.le_refl _), Nat.sub_self] at hc
    cases r with
    | nil => cases hc
    | cons a r =>
      rw [List.getElem?_cons_zero, Option.some.injEq] at hc
      subst hc
      have hlen : l.length + 1 = (l ++ [a]).length := by
        rw [List.length_append, List.length_singleton]
      have hrest := ih (l ++ [a]) r (List.append_assoc l [a] r).symm hlen
      rw [List.getLast?_concat] at hrest
      rw [scanConstants_copy hf, hrest]

/-- **From every place on, the text becomes what the scan gives.** -/
theorem scanned_iff {l r out : Text} :
    Scanned constants (l ++ r) l.length out ↔ out = scanConstants constants l.getLast? r := by
  constructor
  · intro h
    exact h.eq_scanConstants l r rfl rfl
  · intro h
    rw [h]
    exact scanned_scanConstants l r

end Expansion

open Expansion

/-- **The pass over a text is the scan of its places.**  The places of the names that are kept and
renewed on the way do not show: for all names, the result is the one text that comes about by
replacing, from the left, the first declared constant that stands at a place. -/
theorem expandConstants_iff_scanned (constants : List Constant) (t out : Text) :
    out = expandConstants constants t ↔ Scanned constants t 0 out := by
  rw [expandConstants_eq_scan]
  exact (scanned_iff (l := []) (r := t)).symm

/-- Of names that overlap the earlier place counts, and of names at one place the one declared
first; a name may hold any characters, and the empty one is passed over. -/
example : expandConstants [⟨[], "0".toList⟩, ⟨"b-c".toList, "1".toList⟩, ⟨"a-b".toList, "2".toList⟩,
    ⟨"a-b-d".toList, "3".toList⟩] "a-b-c a-b-d".toList = "2-c 2-d".toList := by
  decide +kernel

end ScriptEmbed
