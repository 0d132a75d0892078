import Mathlib.Order.Filter.AtTopBot.Basic
import Mathlib.Order.WellFounded
import ScriptEmbed.Proofs.Expansion.Sweep

/-!
# Depth and nesting of expansions

`Definitions.expandWithin` answers `tooDeep` when expansions are nested deeper than the given
depth.  This file separates the depth from the result.  An expansion asks for other expansions: one
for each argument of a call, under the same active macros, and one for the instantiated body, under
one active macro more.  `asked` lists them.

* `sweepAll_congr` — an expansion depends on what it asks for only;
* `sweepAll_eq_tooDeep_iff` — it is too deep exactly when something that it asks for is;
* `Definitions.result_mono` — **a finished answer stays with more depth**;
* `Definitions.ends_iff_acc` — **an expansion ends exactly when what it asks for cannot be nested
  without end**.
-/

namespace ScriptEmbed

/-- A text to be expanded, with the macros active meanwhile. -/
structure Task where
  active : List Text
  text : Text
  deriving DecidableEq, Repr

namespace Expansion

variable {expand other : List Text → Text → Except Stop Text} {mode : Substitution}
  {m : NamedMacro} {active : List Text}

/-! ### What an expansion asks for -/

/-- The texts of a list that are expanded: all of them, or those up to the first that fails. -/
def askedOfAll (f : Text → Except Stop Text) : List Text → List Text
  | [] => []
  | t :: ts =>
    t :: match f t with
      | .error _ => []
      | .ok _ => askedOfAll f ts

/-- What one call asks for: its arguments, then its body. -/
def askedOfCall (expand : List Text → Text → Except Stop Text) (mode : Substitution)
    (m : NamedMacro) (active args : List Text) : List Task :=
  if args.length = m.body.params.length then
    (askedOfAll (expand active) args).map (Task.mk active) ++
      match expandAll (expand active) args with
      | .error _ => []
      | .ok values =>
        match m.body.expand mode values with
        | .error _ => []
        | .ok body => [⟨active ++ [m.name], body⟩]
  else []

/-- What the sweep over the calls of one macro asks for. -/
def askedOfCalls (expand : List Text → Text → Except Stop Text) (mode : Substitution)
    (m : NamedMacro) (active : List Text) (before : Option Char) (t : Text) : List Task :=
  match t with
  | [] => []
  | c :: rest =>
    if calledAt m.name before (c :: rest) then
      if m.name ∈ active then []
      else
        match _h : Arguments.parse? ((c :: rest).drop (m.name.length + 1)) with
        | none => []
        | some call =>
          askedOfCall expand mode m active call.values ++
            match expandCall expand mode m active call.values with
            | .error _ => []
            | .ok expansion =>
              askedOfCalls expand mode m active (lastOr before expansion) call.rest
    else askedOfCalls expand mode m active (some c) rest
termination_by t.length
decreasing_by
  · exact call_rest_length ‹_›
  · simp

/-- What the expansion of a text asks for, one macro after the other. -/
def askedOfMacros (expand : List Text → Text → Except Stop Text) (mode : Substitution)
    (active : List Text) : List NamedMacro → Text → List Task
  | [], _ => []
  | m :: ms, t =>
    askedOfCalls expand mode m active none t ++
      match sweepCalls expand mode m active none 0 t with
      | .error _ => []
      | .ok u => askedOfMacros expand mode active ms u

theorem askedOfCalls_nil (before : Option Char) :
    askedOfCalls expand mode m active before [] = [] := by
  rw [askedOfCalls]

theorem askedOfCalls_copy {before : Option Char} {c : Char} {rest : Text}
    (h : calledAt m.name before (c :: rest) = false) :
    askedOfCalls expand mode m active before (c :: rest) =
      askedOfCalls expand mode m active (some c) rest := by
  rw [askedOfCalls]
  simp only [h, Bool.false_eq_true, if_false]

theorem askedOfCalls_called {before : Option Char} {t : Text}
    (h : calledAt m.name before t = true) :
    askedOfCalls expand mode m active before t =
      if m.name ∈ active then []
      else
        match Arguments.parse? (t.drop (m.name.length + 1)) with
        | none => []
        | some call =>
          askedOfCall expand mode m active call.values ++
            match expandCall expand mode m active call.values with
            | .error _ => []
            | .ok expansion =>
              askedOfCalls expand mode m active (lastOr before expansion) call.rest := by
  cases t with
  | nil => simp [calledAt] at h
  | cons c rest =>
    rw [askedOfCalls]
    simp only [h, if_true]
    by_cases ha : m.name ∈ active
    · rw [if_pos ha, if_pos ha]
    · rw [if_neg ha, if_neg ha]
      split
      · rename_i hp
        rw [hp]
      · rename_i call hp
        rw [hp]

/-! ### An expansion depends on what it asks for only -/

theorem expandAll_congr {f g : Text → Except Stop Text} {ts : List Text}
    (h : ∀ t ∈ askedOfAll f ts, g t = f t) :
    expandAll g ts = expandAll f ts ∧ askedOfAll g ts = askedOfAll f ts := by
  induction ts with
  | nil => exact ⟨rfl, rfl⟩
  | cons t ts ih =>
    have ht : g t = f t := h t List.mem_cons_self
    cases hf : f t with
    | error e => simp [expandAll, askedOfAll, ht, hf, bind, Except.bind]
    | ok u =>
      rw [askedOfAll, hf] at h
      have hts := ih fun v hv => h v (List.mem_cons_of_mem t hv)
      simp [expandAll, askedOfAll, ht, hf, hts]

theorem expandCall_congr {args : List Text}
    (h : ∀ q ∈ askedOfCall expand mode m active args,
      other q.active q.text = expand q.active q.text) :
    expandCall other mode m active args = expandCall expand mode m active args ∧
      askedOfCall other mode m active args = askedOfCall expand mode m active args := by
  by_cases hn : args.length = m.body.params.length
  · rw [askedOfCall, if_pos hn] at h
    have hargs : ∀ t ∈ askedOfAll (expand active) args, other active t = expand active t := by
      intro t ht
      exact h ⟨active, t⟩ (List.mem_append_left _ (List.mem_map_of_mem ht))
    obtain ⟨hall, hasked⟩ := expandAll_congr hargs
    rw [expandCall, expandCall, askedOfCall, askedOfCall, if_pos hn, if_pos hn, if_pos hn,
      if_pos hn, hall, hasked]
    refine ⟨?_, rfl⟩
    cases hv : expandAll (expand active) args with
    | error e => rfl
    | ok values =>
      cases hb : m.body.expand mode values with
      | error cause => simp only [bind, Except.bind, hb]
      | ok body =>
        simp only [hv, hb] at h
        have hbody := h ⟨active ++ [m.name], body⟩ (List.mem_append_right _ (by simp))
        simp only [bind, Except.bind, hb]
        exact hbody
  · simp [expandCall, askedOfCall, hn]

theorem sweepCalls_congr {t : Text} :
    ∀ {before : Option Char} (offset : Nat),
      (∀ q ∈ askedOfCalls expand mode m active before t,
        other q.active q.text = expand q.active q.text) →
      sweepCalls other mode m active before offset t =
          sweepCalls expand mode m active before offset t ∧
        askedOfCalls other mode m active before t =
          askedOfCalls expand mode m active before t := by
  induction hn : t.length using Nat.strong_induction_on generalizing t with
  | _ n ih =>
    intro before offset h
    cases hc : calledAt m.name before t with
    | true =>
      rw [askedOfCalls_called hc] at h
      rw [sweepCalls_called hc, sweepCalls_called hc, askedOfCalls_called hc,
        askedOfCalls_called hc]
      by_cases ha : m.name ∈ active
      · simp only [if_pos ha, and_self]
      · simp only [if_neg ha] at h ⊢
        cases hp : Arguments.parse? (t.drop (m.name.length + 1)) with
        | none => exact ⟨rfl, rfl⟩
        | some call =>
          simp only [hp] at h
          obtain ⟨hcall, hasked⟩ := expandCall_congr fun q hq => h q (List.mem_append_left _ hq)
          simp only [hcall, hasked]
          cases he : expandCall expand mode m active call.values with
          | error e => exact ⟨rfl, rfl⟩
          | ok expansion =>
            simp only [he] at h
            have hlt := call_rest_length hp
            have hrest := ih call.rest.length (by omega) rfl
              (offset + Text.byteSize expansion) fun q hq => h q (List.mem_append_right _ hq)
            simp only [hrest, and_self]
    | false =>
      cases t with
      | nil => simp only [sweepCalls_nil, askedOfCalls_nil, and_self]
      | cons c rest =>
        rw [askedOfCalls_copy hc] at h
        rw [List.length_cons] at hn
        have hrest := ih rest.length (by omega) rfl (offset + c.utf8Size) h
        simp only [sweepCalls_copy hc, askedOfCalls_copy hc, hrest, and_self]

/-- An expansion depends on what it asks for only. -/
theorem sweepAll_congr {ms : List NamedMacro} {t : Text}
    (h : ∀ q ∈ askedOfMacros expand mode active ms t,
      other q.active q.text = expand q.active q.text) :
    sweepAll other mode active ms t = sweepAll expand mode active ms t ∧
      askedOfMacros other mode active ms t = askedOfMacros expand mode active ms t := by
  induction ms generalizing t with
  | nil => exact ⟨rfl, rfl⟩
  | cons m ms ih =>
    rw [askedOfMacros] at h
    obtain ⟨hsweep, hasked⟩ := sweepCalls_congr 0 fun q hq => h q (List.mem_append_left _ hq)
    rw [sweepAll, sweepAll, askedOfMacros, askedOfMacros, hsweep, hasked]
    cases hu : sweepCalls expand mode m active none 0 t with
    | error e => exact ⟨rfl, rfl⟩
    | ok u =>
      simp only [hu] at h
      have hrest := ih fun q hq => h q (List.mem_append_right _ hq)
      simp only [hrest, and_self]

/-! ### An expansion is too deep when something that it asks for is -/

theorem expandAll_eq_tooDeep_iff {f : Text → Except Stop Text} {ts : List Text} :
    expandAll f ts = .error .tooDeep ↔ ∃ t ∈ askedOfAll f ts, f t = .error .tooDeep := by
  induction ts with
  | nil => simp [expandAll, askedOfAll]
  | cons t ts ih =>
    cases hf : f t with
    | error e => simp [expandAll, askedOfAll, hf, bind, Except.bind]
    | ok u =>
      simp only [askedOfAll, hf, List.mem_cons, exists_eq_or_imp, reduceCtorEq, false_or]
      rw [← ih]
      cases hts : expandAll f ts with
      | error e => simp [expandAll, hf, hts, bind, Except.bind]
      | ok us => simp [expandAll, hf, hts, bind, Except.bind, pure, Except.pure]

theorem expandCall_eq_tooDeep_iff {args : List Text} :
    expandCall expand mode m active args = .error .tooDeep ↔
      ∃ q ∈ askedOfCall expand mode m active args,
        expand q.active q.text = .error .tooDeep := by
  by_cases hn : args.length = m.body.params.length
  · rw [expandCall, askedOfCall, if_pos hn, if_pos hn]
    simp only [List.mem_append, List.mem_map, or_and_right, exists_or, exists_exists_and_eq_and]
    rw [← expandAll_eq_tooDeep_iff]
    cases hv : expandAll (expand active) args with
    | error e => simp [bind, Except.bind]
    | ok values =>
      cases hb : m.body.expand mode values with
      | error cause => simp [bind, Except.bind, hb]
      | ok body => simp [bind, Except.bind, hb]
  · simp [expandCall, askedOfCall, hn]

theorem sweepCalls_eq_tooDeep_iff {t : Text} :
    ∀ (before : Option Char) (offset : Nat),
      sweepCalls expand mode m active before offset t = .error .tooDeep ↔
        ∃ q ∈ askedOfCalls expand mode m active before t,
          expand q.active q.text = .error .tooDeep := by
  induction hn : t.length using Nat.strong_induction_on generalizing t with
  | _ n ih =>
    intro before offset
    cases hc : calledAt m.name before t with
    | true =>
      rw [sweepCalls_called hc, askedOfCalls_called hc]
      by_cases ha : m.name ∈ active
      · simp [if_pos ha]
      · simp only [if_neg ha]
        cases hp : Arguments.parse? (t.drop (m.name.length + 1)) with
        | none => simp
        | some call =>
          simp only [List.mem_append, or_and_right, exists_or]
          rw [← expandCall_eq_tooDeep_iff]
          cases he : expandCall expand mode m active call.values with
          | error e => simp
          | ok expansion =>
            have hlt := call_rest_length hp
            have hrest := ih call.rest.length (by omega) rfl
              (lastOr before expansion) (offset + Text.byteSize expansion)
            simp only [map_eq_error, hrest, reduceCtorEq, false_or]
    | false =>
      cases t with
      | nil => simp [sweepCalls_nil, askedOfCalls_nil]
      | cons c rest =>
        rw [List.length_cons] at hn
        rw [sweepCalls_copy hc, askedOfCalls_copy hc, map_eq_error]
        exact ih rest.length (by omega) rfl _ _

/-- An expansion is too deep exactly when something that it asks for is. -/
theorem sweepAll_eq_tooDeep_iff {ms : List NamedMacro} {t : Text} :
    sweepAll expand mode active ms t = .error .tooDeep ↔
      ∃ q ∈ askedOfMacros expand mode active ms t,
        expand q.active q.text = .error .tooDeep := by
  induction ms generalizing t with
  | nil => simp [sweepAll, askedOfMacros]
  | cons m ms ih =>
    simp only [sweepAll, askedOfMacros, List.mem_append, or_and_right, exists_or]
    rw [← sweepCalls_eq_tooDeep_iff none 0]
    cases hu : sweepCalls expand mode m active none 0 t with
    | error e => simp
    | ok u =>
      simp only [reduceCtorEq, false_or]
      exact ih

end Expansion

/-! ### Depth -/

namespace Definitions

open Expansion Filter

variable {d : Definitions} {mode : Substitution}

/-- What the expansion of a text asks for, to a given depth. -/
def asked (d : Definitions) (mode : Substitution) (depth : Nat) (q : Task) : List Task :=
  askedOfMacros (d.expandWithin mode depth) mode q.active d.macros.reverse q.text

/-- The expansion of a task at a given depth. -/
def result (d : Definitions) (mode : Substitution) (q : Task) (depth : Nat) : Except Stop Text :=
  d.expandWithin mode depth q.active q.text

/-- The expansion ends: some depth is enough for it. -/
def Ends (d : Definitions) (mode : Substitution) (q : Task) : Prop :=
  ∃ depth, d.result mode q depth ≠ .error .tooDeep

/-- One expansion asks for another, at every depth from some depth on. -/
def Asks (d : Definitions) (mode : Substitution) (q r : Task) : Prop :=
  ∀ᶠ depth in atTop, r ∈ d.asked mode depth q

theorem result_succ_eq_tooDeep_iff {q : Task} {depth : Nat} :
    d.result mode q (depth + 1) = .error .tooDeep ↔
      ∃ r ∈ d.asked mode depth q, d.result mode r depth = .error .tooDeep :=
  sweepAll_eq_tooDeep_iff

/-- **A finished answer stays with more depth.** -/
theorem result_mono {n k : Nat} (hnk : n ≤ k) {q : Task}
    (h : d.result mode q n ≠ .error .tooDeep) : d.result mode q k = d.result mode q n := by
  induction n generalizing k q with
  | zero => exact absurd rfl h
  | succ n ih =>
    obtain ⟨k, rfl⟩ : ∃ j, k = j + 1 := ⟨k - 1, by omega⟩
    refine (sweepAll_congr fun r hr => ?_).1
    refine ih (by omega) (q := r) fun hdeep => ?_
    exact h (result_succ_eq_tooDeep_iff.2 ⟨r, hr, hdeep⟩)

/-- A text that expands at some depth expands to the same text at every greater one. -/
theorem expandWithin_ok_mono {n k : Nat} (hnk : n ≤ k) {active : List Text} {t u : Text}
    (h : d.expandWithin mode n active t = .ok u) : d.expandWithin mode k active t = .ok u := by
  have hne : d.result mode ⟨active, t⟩ n ≠ .error .tooDeep := by
    intro hdeep
    cases h.symm.trans hdeep
  exact (result_mono hnk hne).trans h

/-- At a greater depth a finished expansion asks for the same. -/
theorem asked_mono {n k : Nat} (hnk : n ≤ k) {q : Task}
    (h : d.result mode q (n + 1) ≠ .error .tooDeep) : d.asked mode k q = d.asked mode n q := by
  refine (sweepAll_congr fun r hr => ?_).2
  refine result_mono hnk (q := r) fun hdeep => ?_
  exact h (result_succ_eq_tooDeep_iff.2 ⟨r, hr, hdeep⟩)

/-- From some depth on the answer does not change any more. -/
theorem eventually_result_eq (d : Definitions) (mode : Substitution) (q : Task) :
    ∃ v, ∀ᶠ depth in atTop, d.result mode q depth = v := by
  by_cases h : d.Ends mode q
  · obtain ⟨n, hn⟩ := h
    exact ⟨d.result mode q n, eventually_atTop.2 ⟨n, fun k hk => result_mono hk hn⟩⟩
  · refine ⟨.error .tooDeep, Eventually.of_forall fun k => ?_⟩
    by_contra hk
    exact h ⟨k, hk⟩

/-- What a finished expansion asks for finishes at the depth below. -/
theorem Asks.result_ne_tooDeep {q r : Task} (hr : d.Asks mode q r) {n : Nat}
    (h : d.result mode q (n + 1) ≠ .error .tooDeep) : d.result mode r n ≠ .error .tooDeep := by
  obtain ⟨k, hmem, hk⟩ := (hr.and (eventually_ge_atTop n)).exists
  rw [asked_mono hk h] at hmem
  exact fun hdeep => h (result_succ_eq_tooDeep_iff.2 ⟨r, hmem, hdeep⟩)

/-- An expansion ends if all that it asks for does. -/
theorem ends_of_asks {q : Task} (h : ∀ r, d.Asks mode q r → d.Ends mode r) :
    d.Ends mode q := by
  choose limit hlimit using d.eventually_result_eq mode
  let final : List Text → Text → Except Stop Text := fun active t => limit ⟨active, t⟩
  -- a finite list is asked for, so from some depth on all its answers are the final ones
  have hfinal : ∀ᶠ depth in atTop, ∀ r ∈ askedOfMacros final mode q.active d.macros.reverse q.text,
      d.result mode r depth = limit r :=
    (eventually_all_finite (List.finite_toSet _)).2 fun r _ => hlimit r
  have hsame : ∀ᶠ depth in atTop,
      d.result mode q (depth + 1) = sweepAll final mode q.active d.macros.reverse q.text ∧
        d.asked mode depth q = askedOfMacros final mode q.active d.macros.reverse q.text :=
    hfinal.mono fun depth hdepth => sweepAll_congr hdepth
  by_contra hends
  have hnever : ∀ depth, d.result mode q depth = .error .tooDeep := by
    intro depth
    by_contra hne
    exact hends ⟨depth, hne⟩
  obtain ⟨depth, hdepth, -⟩ := hsame.exists
  have hdeep : sweepAll final mode q.active d.macros.reverse q.text = .error .tooDeep :=
    hdepth.symm.trans (hnever (depth + 1))
  obtain ⟨r, hr, hrdeep⟩ := sweepAll_eq_tooDeep_iff.1 hdeep
  have hasks : d.Asks mode q r := hsame.mono fun depth hdepth => by
    rw [hdepth.2]
    exact hr
  obtain ⟨n, hn⟩ := h r hasks
  obtain ⟨k, hk, hle⟩ := ((hlimit r).and (eventually_ge_atTop n)).exists
  apply hn
  rw [← result_mono hle hn, hk]
  exact hrdeep

/-- **An expansion ends exactly when what it asks for cannot be nested without end.** -/
theorem ends_iff_acc {q : Task} : d.Ends mode q ↔ Acc (fun r q => d.Asks mode q r) q := by
  constructor
  · rintro ⟨n, hn⟩
    induction n generalizing q with
    | zero => exact absurd rfl hn
    | succ n ih => exact .intro q fun r hr => ih (hr.result_ne_tooDeep hn)
  · intro h
    induction h with
    | intro q _ ih => exact ends_of_asks ih

end Definitions

end ScriptEmbed
