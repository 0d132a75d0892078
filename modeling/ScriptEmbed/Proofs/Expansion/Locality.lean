import Mathlib
import ScriptEmbed.Proofs.Definitions.Tables
import ScriptEmbed.Proofs.Expansion.ArgumentList
import ScriptEmbed.Proofs.Expansion.ConstantScan
import ScriptEmbed.Proofs.Expansion.Depth

/-!
# Expansion is local

A character that is neither a word character nor an opening parenthesis belongs to no name and to no
start of a call.  Two texts with such a character between them are therefore expanded independently,
as long as both expansions end well.

* `scanConstants_append_cons` — constants on either side of the character;
* `Swept.append_cons` — calls of one macro on either side of it;
* `Definitions.expand_append_cons` — **expansion of two texts with a separating character**.
-/

namespace ScriptEmbed

namespace Expansion

variable {s : Char}

/-! ### Constants -/

theorem firstAt?_append_cons {constants : List Constant} (hn : ∀ k ∈ constants, IsName k.name)
    (hs : Text.isWord s = false) (before : Option Char) (t r : Text) :
    firstAt? constants before (t ++ s :: r) = firstAt? constants before t :=
  List.find?_congr fun k hk => by rw [occursAt_append_cons (hn k hk) hs]

theorem firstAt?_congr {constants : List Constant} {b b' : Option Char}
    (h : Text.isWordSide b = Text.isWordSide b') (t : Text) :
    firstAt? constants b t = firstAt? constants b' t :=
  List.find?_congr fun k _ => by rw [occursAt_congr h]

/-- Of the character before a text, only its being a word character counts. -/
theorem scanConstants_congr {constants : List Constant} {b b' : Option Char}
    (h : Text.isWordSide b = Text.isWordSide b') (t : Text) :
    scanConstants constants b t = scanConstants constants b' t := by
  cases t with
  | nil => rw [scanConstants_nil, scanConstants_nil]
  | cons c rest =>
    cases hf : firstAt? constants b (c :: rest) with
    | none =>
      have hf' := hf
      rw [firstAt?_congr h] at hf'
      rw [scanConstants_copy hf, scanConstants_copy hf']
    | some k =>
      have hf' := hf
      rw [firstAt?_congr h] at hf'
      rw [scanConstants_replace hf, scanConstants_replace hf']

/-- The constants on either side of a separating character are replaced independently. -/
theorem scanConstants_append_cons {constants : List Constant}
    (hn : ∀ k ∈ constants, IsName k.name) (hs : Text.isWord s = false) {t : Text} (r : Text) :
    ∀ before : Option Char,
      scanConstants constants before (t ++ s :: r) =
        scanConstants constants before t ++ s :: scanConstants constants none r := by
  induction hlen : t.length using Nat.strong_induction_on generalizing t with
  | _ n ih =>
    intro before
    have hfirst := firstAt?_append_cons hn hs before t r
    cases hf : firstAt? constants before t with
    | none =>
      rw [hf] at hfirst
      cases t with
      | nil =>
        rw [List.nil_append] at hfirst ⊢
        rw [scanConstants_copy hfirst, scanConstants_nil, List.nil_append,
          scanConstants_congr (Text.isWordSide_of_not_isWord hs)]
      | cons c rest =>
        rw [List.cons_append] at hfirst ⊢
        rw [List.length_cons] at hlen
        rw [scanConstants_copy hfirst, scanConstants_copy hf, ih rest.length (by omega) rfl,
          List.cons_append]
    | some k =>
      rw [hf] at hfirst
      obtain ⟨_, hne, hocc⟩ := firstAt?_some hf
      have hpos := List.length_pos_iff.2 hne
      have hle := (prefix_of_occursAt hocc).length_le
      rw [scanConstants_replace hfirst, scanConstants_replace hf,
        List.drop_append_of_le_length hle,
        ih (t.drop k.name.length).length (by rw [List.length_drop]; omega) rfl,
        List.append_assoc]

/-! ### Calls -/

variable {expand : List Text → Text → Except Stop Text} {mode : Substitution} {m : NamedMacro}
  {active : List Text}

/-- Of the character before a text, only its being a word character counts. -/
theorem Swept.congr_before {b b' : Option Char} {t u : Text}
    (h : Swept expand mode m active b t u) (hb : Text.isWordSide b = Text.isWordSide b') :
    Swept expand mode m active b' t u := by
  induction h generalizing b' with
  | nil => exact .nil
  | copy hc hrest _ =>
    rw [calledAt_congr hb] at hc
    exact .copy hc hrest
  | call hc ha hp he _ ih =>
    rw [calledAt_congr hb] at hc
    exact .call hc ha hp he (ih (isWordSide_lastOr_congr hb _))

/-- The calls on either side of a separating character are replaced independently. -/
theorem Swept.append_cons (hm : IsName m.name) (hs : Text.isWord s = false) (hp : s ≠ '(')
    {before : Option Char} {t u r v : Text} (ht : Swept expand mode m active before t u)
    (hr : Swept expand mode m active none r v) :
    Swept expand mode m active before (t ++ s :: r) (u ++ s :: v) := by
  induction ht with
  | @nil before =>
    refine .copy ?_ (hr.congr_before (Text.isWordSide_of_not_isWord hs).symm)
    have hnil := calledAt_append_cons hm hs hp before [] r
    rw [List.nil_append] at hnil
    rw [hnil, calledAt, Bool.and_eq_false_iff]
    left
    cases m.name <;> rfl
  | @copy before c rest out hc _ ih =>
    refine .copy ?_ ih
    show calledAt m.name before (c :: rest ++ s :: r) = false
    rw [calledAt_append_cons hm hs hp]
    exact hc
  | @call before t expansion out call hc ha hparse he _ ih =>
    rw [List.append_assoc]
    have hlen := length_lt_of_calledAt hc
    rw [← calledAt_append_cons hm hs hp before t r] at hc
    have hparse' := Arguments.parse?_append hparse (s :: r)
    rw [← List.drop_append_of_le_length hlen] at hparse'
    exact .call hc ha hparse' he ih

/-- The sweeps over all macros respect a separating character. -/
theorem sweepAll_append_cons {ms : List NamedMacro} (hm : ∀ m ∈ ms, IsName m.name)
    (hs : Text.isWord s = false) (hp : s ≠ '(') {t u r v : Text}
    (ht : sweepAll expand mode active ms t = .ok u)
    (hr : sweepAll expand mode active ms r = .ok v) :
    sweepAll expand mode active ms (t ++ s :: r) = .ok (u ++ s :: v) := by
  induction ms generalizing t r with
  | nil =>
    cases ht
    cases hr
    rfl
  | cons m ms ih =>
    rw [sweepAll] at ht hr ⊢
    cases ht₁ : sweepCalls expand mode m active none 0 t with
    | error e => simp [ht₁] at ht
    | ok t₁ =>
      cases hr₁ : sweepCalls expand mode m active none 0 r with
      | error e => simp [hr₁] at hr
      | ok r₁ =>
        simp only [ht₁, hr₁] at ht hr
        have hboth := Swept.append_cons (hm m List.mem_cons_self) hs hp
          (sweepCalls_eq_ok_iff.1 ht₁) (sweepCalls_eq_ok_iff.1 hr₁)
        rw [hboth.sweepCalls_eq]
        exact ih (fun k hk => hm k (List.mem_cons_of_mem m hk)) ht hr

end Expansion

namespace Definitions

open Expansion

variable {d : Definitions} {mode : Substitution}

theorem expandWithin_append_cons (hd : d.WellNamed) {s : Char} (hs : Text.isWord s = false)
    (hp : s ≠ '(') {active : List Text} {depth : Nat} {t u r v : Text}
    (ht : d.expandWithin mode depth active t = .ok u)
    (hr : d.expandWithin mode depth active r = .ok v) :
    d.expandWithin mode depth active (t ++ s :: r) = .ok (u ++ s :: v) := by
  cases depth with
  | zero => cases ht
  | succ depth =>
    refine sweepAll_append_cons (fun m hm => ?_) hs hp ht hr
    exact hd.macros m (List.mem_reverse.1 hm)

theorem expandConstants_append_cons {constants : List Constant}
    (hn : ∀ k ∈ constants, IsName k.name) {s : Char} (hs : Text.isWord s = false) (t r : Text) :
    expandConstants constants (t ++ s :: r) =
      expandConstants constants t ++ s :: expandConstants constants r := by
  rw [expandConstants_eq_scan, expandConstants_eq_scan, expandConstants_eq_scan]
  exact scanConstants_append_cons hn hs r none

/-- **Expansion is local.**  Two texts that expand, with a character between them that is neither a
word character nor an opening parenthesis, expand to their expansions with that character between
them, at the greater of the two depths. -/
theorem expand_append_cons {source : Text} (hd : Definitions.ofSource source = .ok d) {s : Char}
    (hs : Text.isWord s = false) (hp : s ≠ '(') {t₁ t₂ o₁ o₂ : Text} {n₁ n₂ : Nat}
    (h₁ : d.expand mode n₁ t₁ = .ok o₁) (h₂ : d.expand mode n₂ t₂ = .ok o₂) :
    d.expand mode (max n₁ n₂) (t₁ ++ s :: t₂) = .ok (o₁ ++ s :: o₂) := by
  have hnamed := wellNamed_ofSource hd
  show d.expandWithin mode _ [] (expandConstants d.constants (t₁ ++ s :: t₂)) = _
  rw [expandConstants_append_cons hnamed.constants hs]
  exact expandWithin_append_cons hnamed hs hp
    (expandWithin_ok_mono (Nat.le_max_left n₁ n₂) h₁)
    (expandWithin_ok_mono (Nat.le_max_right n₁ n₂) h₂)

/-- A constant, a template and a computed macro. -/
def arithmetic : Definitions :=
  ⟨[⟨"N".toList, "21".toList⟩],
    [⟨"ADD".toList, .template ⟨["a".toList, "b".toList], "(a + b)".toList⟩⟩,
      ⟨"DOUBLE".toList, .computed ⟨["n".toList], "n * 2".toList,
        .binary .mul (.name "n".toList) (.int 2)⟩⟩]⟩

/-- A comma separates a call of a template with a nested call from a call of a computed macro. -/
theorem expand_append_cons_comma :
    Definitions.ofSource
        "const N = 21;\nmacro ADD(a, b) = (a + b);\npython macro DOUBLE(n) = n * 2;".toList =
      .ok arithmetic ∧
    Text.isWord ',' = false ∧ ',' ≠ '(' ∧
    arithmetic.expand .token 4 "ADD(N, ADD(1, x))".toList = .ok "(21 + (1 + x))".toList ∧
    arithmetic.expand .token 3 "DOUBLE(N)".toList = .ok "42".toList ∧
    arithmetic.expand .token (max 4 3) ("ADD(N, ADD(1, x))".toList ++ ',' :: "DOUBLE(N)".toList) =
      .ok ("(21 + (1 + x))".toList ++ ',' :: "42".toList) := by
  have hd : Definitions.ofSource
      "const N = 21;\nmacro ADD(a, b) = (a + b);\npython macro DOUBLE(n) = n * 2;".toList =
    .ok arithmetic := by cbv
  have hs : Text.isWord ',' = false := by decide
  have hp : ',' ≠ '(' := by decide
  have h₁ : arithmetic.expand .token 4 "ADD(N, ADD(1, x))".toList =
    .ok "(21 + (1 + x))".toList := by cbv
  have h₂ : arithmetic.expand .token 3 "DOUBLE(N)".toList = .ok "42".toList := by cbv
  exact ⟨hd, hs, hp, h₁, h₂, expand_append_cons hd hs hp h₁ h₂⟩

end Definitions

end ScriptEmbed
