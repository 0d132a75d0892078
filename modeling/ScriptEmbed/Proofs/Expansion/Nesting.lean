import Mathlib
import ScriptEmbed.Proofs.Expansion.Depth

/-!
# Where expansion ends

A macro that is called inside its own expansion is refused, so re-scans of bodies cannot be nested
without end.  Arguments are expanded under the active macros of the call, and the guard says nothing
about them.  This file proves that this is the whole story:

* `Expansion.Requested` — the calls at which a sweep asks for an expansion;
* `Expansion.mem_askedOfMacros` — what an expansion asks for is an argument under the same active
  macros, or a body under one active macro more;
* `Definitions.Guarded` — the active macros are declared, and no name is active twice;
* `Definitions.ends_expandMacros_iff` — **expansion ends exactly when no arguments are nested
  without end under one list of active macros**;
* `selfAsking`, `expandMacros_selfAsking` — two macros and a text whose expansion never ends,
  at no depth.  The body of `G` puts together a call of `S` around a call of `G`, after the sweeps
  over both macros have passed.
-/

namespace ScriptEmbed

namespace Expansion

variable {expand : List Text → Text → Except Stop Text} {mode : Substitution} {m : NamedMacro}
  {active : List Text}

/-! ### Arguments and bodies -/

theorem mem_of_mem_askedOfAll {f : Text → Except Stop Text} {ts : List Text} {t : Text}
    (h : t ∈ askedOfAll f ts) : t ∈ ts := by
  induction ts with
  | nil => exact h
  | cons u ts ih =>
    rw [askedOfAll] at h
    rcases List.mem_cons.1 h with rfl | h
    · exact List.mem_cons_self
    · cases hf : f u with
      | error e => simp [hf] at h
      | ok v =>
        rw [hf] at h
        exact List.mem_cons_of_mem u (ih h)

/-- A call asks for its arguments under the same active macros, and for its body with the macro
active in addition. -/
theorem mem_askedOfCall {args : List Text} {q : Task}
    (h : q ∈ askedOfCall expand mode m active args) :
    (∃ t ∈ args, q = ⟨active, t⟩) ∨
    (∃ values body, expandAll (expand active) args = .ok values ∧
      m.body.expand mode values = .ok body ∧ q = ⟨active ++ [m.name], body⟩) := by
  by_cases hn : args.length = m.body.params.length
  · rw [askedOfCall, if_pos hn] at h
    rcases List.mem_append.1 h with h | h
    · obtain ⟨t, ht, rfl⟩ := List.mem_map.1 h
      exact .inl ⟨t, mem_of_mem_askedOfAll ht, rfl⟩
    · cases hv : expandAll (expand active) args with
      | error e => simp [hv] at h
      | ok values =>
        cases hb : m.body.expand mode values with
        | error cause => simp [hv, hb] at h
        | ok body =>
          simp only [hv, hb, List.mem_singleton] at h
          exact .inr ⟨values, body, rfl, hb, h⟩
  · rw [askedOfCall, if_neg hn] at h
    cases h

/-- `Requested expand mode m active q before t`: the sweep over the calls of `m` in `t` comes to a
call that asks for `q`. -/
inductive Requested (expand : List Text → Text → Except Stop Text) (mode : Substitution)
    (m : NamedMacro) (active : List Text) (q : Task) : Option Char → Text → Prop
  | copy {before : Option Char} {c : Char} {rest : Text} :
      calledAt m.name before (c :: rest) = false →
      Requested expand mode m active q (some c) rest →
      Requested expand mode m active q before (c :: rest)
  | call {before : Option Char} {t : Text} {call : Arguments} :
      calledAt m.name before t = true → m.name ∉ active →
      Arguments.parse? (t.drop (m.name.length + 1)) = some call →
      q ∈ askedOfCall expand mode m active call.values →
      Requested expand mode m active q before t
  | later {before : Option Char} {t expansion : Text} {call : Arguments} :
      calledAt m.name before t = true → m.name ∉ active →
      Arguments.parse? (t.drop (m.name.length + 1)) = some call →
      expandCall expand mode m active call.values = .ok expansion →
      Requested expand mode m active q (lastOr before expansion) call.rest →
      Requested expand mode m active q before t

theorem requested_of_mem_askedOfCalls {t : Text} {q : Task} :
    ∀ {before : Option Char}, q ∈ askedOfCalls expand mode m active before t →
      Requested expand mode m active q before t := by
  induction hn : t.length using Nat.strong_induction_on generalizing t with
  | _ n ih =>
    intro before h
    cases hc : calledAt m.name before t with
    | true =>
      rw [askedOfCalls_called hc] at h
      by_cases ha : m.name ∈ active
      · rw [if_pos ha] at h
        cases h
      · rw [if_neg ha] at h
        cases hp : Arguments.parse? (t.drop (m.name.length + 1)) with
        | none => simp [hp] at h
        | some call =>
          simp only [hp] at h
          rcases List.mem_append.1 h with h | h
          · exact .call hc ha hp h
          · cases he : expandCall expand mode m active call.values with
            | error e => simp [he] at h
            | ok expansion =>
              simp only [he] at h
              have hlt := call_rest_length hp
              exact .later hc ha hp he (ih call.rest.length (by omega) rfl h)
    | false =>
      cases t with
      | nil =>
        rw [askedOfCalls_nil] at h
        cases h
      | cons c rest =>
        rw [askedOfCalls_copy hc] at h
        rw [List.length_cons] at hn
        exact .copy hc (ih rest.length (by omega) rfl h)

theorem Requested.active_cases {before : Option Char} {t : Text} {q : Task}
    (h : Requested expand mode m active q before t) :
    q.active = active ∨ (m.name ∉ active ∧ q.active = active ++ [m.name]) := by
  induction h with
  | copy _ _ ih => exact ih
  | call _ ha _ hq =>
    rcases mem_askedOfCall hq with ⟨u, _, rfl⟩ | ⟨values, body, _, _, rfl⟩
    · exact .inl rfl
    · exact .inr ⟨ha, rfl⟩
  | later _ _ _ _ _ ih => exact ih

/-- What an expansion asks for is asked for by the sweep over one macro, after the sweeps over those
before it. -/
theorem exists_requested_of_mem_askedOfMacros {ms : List NamedMacro} {t : Text} {q : Task}
    (h : q ∈ askedOfMacros expand mode active ms t) :
    ∃ done m rest u, ms = done ++ m :: rest ∧
      sweepAll expand mode active done t = .ok u ∧
      Requested expand mode m active q none u := by
  induction ms generalizing t with
  | nil => cases h
  | cons m ms ih =>
    rw [askedOfMacros] at h
    rcases List.mem_append.1 h with h | h
    · exact ⟨[], m, ms, t, rfl, rfl, requested_of_mem_askedOfCalls h⟩
    · cases hv : sweepCalls expand mode m active none 0 t with
      | error e => simp [hv] at h
      | ok v =>
        simp only [hv] at h
        obtain ⟨done, k, rest, u, rfl, hu, hq⟩ := ih h
        refine ⟨m :: done, k, rest, u, rfl, ?_, hq⟩
        rw [sweepAll, hv]
        exact hu

/-- What an expansion asks for is under the same active macros, or under one active macro more. -/
theorem mem_askedOfMacros {ms : List NamedMacro} {t : Text} {q : Task}
    (h : q ∈ askedOfMacros expand mode active ms t) :
    q.active = active ∨ ∃ m ∈ ms, m.name ∉ active ∧ q.active = active ++ [m.name] := by
  obtain ⟨done, m, rest, u, rfl, _, hq⟩ := exists_requested_of_mem_askedOfMacros h
  rcases hq.active_cases with h | h
  · exact .inl h
  · exact .inr ⟨m, List.mem_append_right done List.mem_cons_self, h⟩

end Expansion

namespace Definitions

open Expansion Filter Relation

variable {d : Definitions} {mode : Substitution}

/-! ### The guard bounds the active macros -/

/-- The names under which macros are declared. -/
def macroNames (d : Definitions) : List Text := d.macros.map NamedMacro.name

/-- The active macros are declared, and none is active twice. -/
structure Guarded (d : Definitions) (active : List Text) : Prop where
  nodup : active.Nodup
  declared : active ⊆ d.macroNames

theorem guarded_nil (d : Definitions) : d.Guarded [] :=
  ⟨List.nodup_nil, List.nil_subset _⟩

/-- A declared macro that is not active may become active. -/
theorem Guarded.concat {active : List Text} {n : Text} (h : d.Guarded active)
    (hn : n ∈ d.macroNames) (hnot : n ∉ active) : d.Guarded (active ++ [n]) where
  nodup := h.nodup.append (List.nodup_singleton n) (List.disjoint_singleton.2 hnot)
  declared := List.append_subset.2 ⟨h.declared, List.cons_subset.2 ⟨hn, List.nil_subset _⟩⟩

theorem Guarded.length_le {active : List Text} (h : d.Guarded active) :
    active.length ≤ d.macroNames.length :=
  (h.nodup.subperm h.declared).length_le

/-- The active macros of what an expansion asks for: the same, or one more. -/
theorem Asks.active_cases {q r : Task} (h : d.Asks mode q r) :
    r.active = q.active ∨
      ∃ n ∈ d.macroNames, n ∉ q.active ∧ r.active = q.active ++ [n] := by
  obtain ⟨depth, hr⟩ := h.exists
  rcases mem_askedOfMacros hr with hr | ⟨m, hm, hr⟩
  · exact .inl hr
  · exact .inr ⟨m.name, List.mem_map_of_mem (List.mem_reverse.1 hm), hr⟩

theorem Guarded.of_asks {q r : Task} (hq : d.Guarded q.active) (h : d.Asks mode q r) :
    d.Guarded r.active := by
  rcases h.active_cases with hr | ⟨n, hn, hnot, hr⟩
  · rw [hr]
    exact hq
  · rw [hr]
    exact hq.concat hn hnot

/-! ### Where expansion ends -/

/-- Arguments are nested without end: some expansion that `q` leads to starts a sequence of texts,
each of which the text before asks for under the same active macros. -/
def NestsForever (d : Definitions) (mode : Substitution) (q : Task) : Prop :=
  ∃ (active : List Text) (argument : ℕ → Text),
    ReflTransGen (d.Asks mode) q ⟨active, argument 0⟩ ∧
      ∀ i, d.Asks mode ⟨active, argument i⟩ ⟨active, argument (i + 1)⟩

theorem Ends.of_asks {q r : Task} (hq : d.Ends mode q) (h : d.Asks mode q r) :
    d.Ends mode r :=
  ends_iff_acc.2 ((ends_iff_acc.1 hq).inv h)

theorem Ends.of_reflTransGen {q r : Task} (hq : d.Ends mode q)
    (h : ReflTransGen (d.Asks mode) q r) : d.Ends mode r := by
  induction h with
  | refl => exact hq
  | tail _ hr ih => exact ih.of_asks hr

/-- A sequence of expansions, each asked for by the one before, keeps one list of active macros
from some place on: the list only grows, and the guard bounds it. -/
theorem exists_active_const {f : ℕ → Task} (h0 : d.Guarded (f 0).active)
    (hf : ∀ n, d.Asks mode (f n) (f (n + 1))) :
    ∃ N, ∀ i, (f (N + i)).active = (f N).active := by
  have hguard : ∀ n, d.Guarded (f n).active := by
    intro n
    induction n with
    | zero => exact h0
    | succ n ih => exact ih.of_asks (hf n)
  let room : ℕ → ℕ := fun n => d.macroNames.length - (f n).active.length
  obtain ⟨N, hN⟩ : ∃ N, ∀ k, room N ≤ room k :=
    ⟨Function.argmin room, fun k => Function.argmin_le room k⟩
  refine ⟨N, fun i => ?_⟩
  induction i with
  | zero => rfl
  | succ i ih =>
    rcases (hf (N + i)).active_cases with h | ⟨n, _, _, h⟩
    · rw [← ih]
      exact h
    · -- one more active macro would leave less room than there is at the least
      have hmin := hN (N + i + 1)
      have hle := (hguard (N + i + 1)).length_le
      simp only [room] at hmin
      rw [h, List.length_append, List.length_singleton, ih] at hmin hle
      omega

/-- **Expansion ends exactly when no arguments are nested without end.** -/
theorem ends_iff_not_nestsForever {q : Task} (hq : d.Guarded q.active) :
    d.Ends mode q ↔ ¬ d.NestsForever mode q := by
  constructor
  · rintro h ⟨active, argument, hreach, hargs⟩
    have hacc := ends_iff_acc.1 (h.of_reflTransGen hreach)
    let task : ℕ → Task := fun i => ⟨active, argument i⟩
    exact not_acc_iff_exists_descending_chain.2 ⟨task, rfl, hargs⟩ hacc
  · intro h
    rw [ends_iff_acc]
    by_contra hacc
    obtain ⟨f, rfl, hf⟩ := not_acc_iff_exists_descending_chain.1 hacc
    obtain ⟨N, hN⟩ := exists_active_const hq hf
    have hreach : ∀ n, ReflTransGen (d.Asks mode) (f 0) (f n) := by
      intro n
      induction n with
      | zero => exact .refl
      | succ n ih => exact ih.tail (hf n)
    have htask : ∀ i, f (N + i) = ⟨(f N).active, (f (N + i)).text⟩ := by
      intro i
      rw [← hN i]
    refine h ⟨(f N).active, fun i => (f (N + i)).text, ?_, fun i => ?_⟩
    · exact hreach N
    · have hstep := hf (N + i)
      rw [htask i, Nat.add_assoc, htask (i + 1)] at hstep
      exact hstep

/-- **Where expansion ends.**  The expansion of a text with no macro active ends, in a text or in
an error, exactly when no arguments are nested without end. -/
theorem ends_expandMacros_iff (d : Definitions) (mode : Substitution) (t : Text) :
    (∃ depth, d.expandMacros mode depth t ≠ .error .tooDeep) ↔
      ¬ d.NestsForever mode ⟨[], t⟩ :=
  ends_iff_not_nestsForever (q := ⟨[], t⟩) d.guarded_nil

/-! ### An expansion that never ends -/

/-- An expansion that asks for itself, all else that it asks for being finished, never ends. -/
theorem not_ends_of_mem_asked {q : Task} {n : Nat} (hself : q ∈ d.asked mode n q)
    (hrest : ∀ r ∈ d.asked mode n q, r = q ∨ d.result mode r n ≠ .error .tooDeep) :
    ¬ d.Ends mode q := by
  intro hends
  -- at the least depth that is enough, the depth below is enough for nothing
  let least := Nat.find hends
  have hleast : d.result mode q least ≠ .error .tooDeep := Nat.find_spec hends
  have hbelow : ∀ k < least, d.result mode q k = .error .tooDeep := fun k hk =>
    not_not.1 (Nat.find_min hends hk)
  obtain ⟨k, hk⟩ : ∃ k, least = k + 1 := by
    cases hl : least with
    | zero => exact absurd (hl ▸ rfl) hleast
    | succ k => exact ⟨k, rfl⟩
  rw [hk] at hleast hbelow
  have hmem : q ∈ d.asked mode k q := by
    rcases Nat.le_total n k with hnk | hkn
    · have hsame : ∀ r ∈ d.asked mode n q, d.result mode r k = d.result mode r n := by
        intro r hr
        rcases hrest r hr with rfl | hr
        · rw [hbelow k (by omega), hbelow n (by omega)]
        · exact result_mono hnk hr
      have heq : d.asked mode k q = d.asked mode n q := (sweepAll_congr hsame).2
      rw [heq]
      exact hself
    · rw [← asked_mono hkn hleast]
      exact hself
  exact hleast (result_succ_eq_tooDeep_iff.2 ⟨q, hmem, hbelow k (by omega)⟩)

/-- The body of `G` becomes `S(G())` when it is scanned again, by which time the sweeps over `G`
and over the place before the parenthesis have passed. -/
def selfAsking : Definitions :=
  ⟨[], [⟨"S".toList, .template ⟨["x".toList], "x".toList⟩⟩,
    ⟨"G".toList, .template ⟨[], "S(S)(S(G)())".toList⟩⟩]⟩

/-- What the expansion of `G()` asks for: the body, and `G()` again as the argument of `S`. -/
theorem asked_selfAsking (mode : Substitution) :
    selfAsking.asked mode 2 ⟨[], "G()".toList⟩ =
      [⟨["G".toList], "S(S)(S(G)())".toList⟩, ⟨[], "G()".toList⟩] := by
  cases mode <;> cbv

/-- The body of `G`, scanned again, is a call of `S` around a call of `G`. -/
theorem result_selfAsking_body (mode : Substitution) :
    selfAsking.result mode ⟨["G".toList], "S(S)(S(G)())".toList⟩ 2 = .ok "S(G())".toList := by
  cases mode <;> cbv

/-- **An expansion that never ends.**  With two macros that can be read from a definitions file, the
expansion of `G()` is too deep at every depth. -/
theorem expandMacros_selfAsking :
    Definitions.ofSource "macro S(x) = x;\nmacro G() = S(S)(S(G)());".toList = .ok selfAsking ∧
      ∀ mode depth, selfAsking.expandMacros mode depth "G()".toList = .error .tooDeep := by
  refine ⟨rfl, fun mode depth => ?_⟩
  have hnever : ¬ selfAsking.Ends mode ⟨[], "G()".toList⟩ := by
    apply not_ends_of_mem_asked (n := 2)
    · rw [asked_selfAsking]
      exact List.mem_cons_of_mem _ List.mem_cons_self
    · intro r hr
      rw [asked_selfAsking] at hr
      rcases List.mem_cons.1 hr with rfl | hr
      · right
        rw [result_selfAsking_body]
        exact fun h => nomatch h
      · exact .inl (List.mem_singleton.1 hr)
  by_contra hne
  exact hnever ⟨depth, hne⟩

end Definitions

end ScriptEmbed
