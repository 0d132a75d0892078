import ScriptEmbed.Proofs.Expansion.Boundary
import ScriptEmbed.Proofs.Expansion.Nesting

/-!
# The points of a run

`Definitions.expandWithin` is nested: what stands for a call is computed inside the sweep over the
text that holds the call, and that sweep inside another one.  A failure ends all of them at once, so
for failures the nesting can be taken apart.  This file walks through a run from point to point.

A point is a text with the part behind that has been swept and the part ahead that has not, the
macro at hand with those that follow it, and the macros that are active.  A step copies a character,
replaces a call, goes on to the next macro, or enters the expansion of an argument or of a body.  No
step comes back from an expansion that was entered: one that ends well is passed by the step that
replaces the call, and one that fails ends the run.

* `Point`, `Point.run` — points, and what is left to do from a point on;
* `Definitions.Step`, `Definitions.FailsAt` — the steps between points, and the four failures, each
  at its point;
* `Definitions.leads_of_expandWithin` — an expansion that fails walks to a point with its failure;
* `Definitions.Step.fails` — a failure is carried back along a step;
* `Definitions.expandWithin_failed_iff` — **an expansion fails exactly when its run comes to a point
  with that failure**;
* `Definitions.Step.sound`, `Definitions.Reaches.sound` — every point of a run is guarded.
-/

namespace ScriptEmbed

open Expansion Filter Relation

/-- A point of a run.  The text at hand is swept for the first of `macros`: `behind` has been swept,
and `ahead` has not. -/
structure Point where
  active : List Text
  macros : List NamedMacro
  behind : Text
  ahead : Text

/-- The text at hand, as it stands at the point. -/
def Point.text (p : Point) : Text := p.behind ++ p.ahead

/-- `Taken active m behind ahead call`: the macro is called between `behind` and `ahead`, it is not
active, and `call` has its arguments with what follows the call. -/
structure Taken (active : List Text) (m : NamedMacro) (behind ahead : Text) (call : Arguments) :
    Prop where
  called : calledAt m.name (lastOr none behind) ahead = true
  inactive : m.name ∉ active
  closed : Arguments.parse? (ahead.drop (m.name.length + 1)) = some call

/-! ### The rest of a run -/

namespace Point

variable {expand : List Text → Text → Except Stop Text} {mode : Substitution} {active : List Text}
  {m : NamedMacro} {ms : List NamedMacro} {behind ahead : Text} {call : Arguments}

/-- The rest of the run of an expansion, from a point on. -/
def run (expand : List Text → Text → Except Stop Text) (mode : Substitution) :
    Point → Except Stop Text
  | ⟨_, [], behind, ahead⟩ => .ok (behind ++ ahead)
  | ⟨active, m :: ms, behind, ahead⟩ =>
    match sweepCalls expand mode m active (lastOr none behind) (Text.byteSize behind) ahead with
    | .error e => .error e
    | .ok u => sweepAll expand mode active ms (behind ++ u)

/-- Where nothing has been swept yet, the rest is the sweep over all macros at hand. -/
theorem run_unswept {t : Text} :
    run expand mode ⟨active, ms, [], t⟩ = sweepAll expand mode active ms t := by
  cases ms with
  | nil => rfl
  | cons m ms => rfl

theorem run_next : run expand mode ⟨active, m :: ms, behind, []⟩ =
    run expand mode ⟨active, ms, [], behind⟩ := by
  rw [run, sweepCalls_nil, run_unswept]
  show sweepAll expand mode active ms (behind ++ []) = _
  rw [List.append_nil]

theorem run_copy {c : Char} {rest : Text}
    (h : calledAt m.name (lastOr none behind) (c :: rest) = false) :
    run expand mode ⟨active, m :: ms, behind, c :: rest⟩ =
      run expand mode ⟨active, m :: ms, behind ++ [c], rest⟩ := by
  have hlast : lastOr none (behind ++ [c]) = some c := lastOr_append none behind [c]
  have hsize : Text.byteSize (behind ++ [c]) = Text.byteSize behind + c.utf8Size := by simp
  rw [run, run, sweepCalls_copy h, hlast, hsize]
  cases sweepCalls expand mode m active (some c) (Text.byteSize behind + c.utf8Size) rest with
  | error e => rfl
  | ok u =>
    show sweepAll expand mode active ms (behind ++ c :: u) = sweepAll expand mode active ms _
    rw [List.append_assoc]
    rfl

theorem run_replace {expansion : Text} (htaken : Taken active m behind ahead call)
    (h : expandCall expand mode m active call.values = .ok expansion) :
    run expand mode ⟨active, m :: ms, behind, ahead⟩ =
      run expand mode ⟨active, m :: ms, behind ++ expansion, call.rest⟩ := by
  rw [run, run, sweepCalls_called htaken.called, if_neg htaken.inactive, htaken.closed,
    lastOr_append, Text.byteSize_append]
  simp only [h]
  cases sweepCalls expand mode m active (lastOr (lastOr none behind) expansion)
      (Text.byteSize behind + Text.byteSize expansion) call.rest with
  | error e => rfl
  | ok u =>
    show sweepAll expand mode active ms (behind ++ (expansion ++ u)) = _
    rw [← List.append_assoc]

/-- A call that fails ends the run. -/
theorem run_of_expandCall_error {e : Stop} (htaken : Taken active m behind ahead call)
    (h : expandCall expand mode m active call.values = .error e) :
    run expand mode ⟨active, m :: ms, behind, ahead⟩ = .error e := by
  rw [run, sweepCalls_called htaken.called, if_neg htaken.inactive, htaken.closed]
  simp only [h]

end Point

namespace Definitions

variable {d : Definitions} {mode : Substitution} {active : List Text} {m : NamedMacro}
  {ms : List NamedMacro} {behind ahead t : Text} {call : Arguments} {p q : Point} {e : MacroError}

/-! ### Steps and failures -/

/-- Some depth is enough to expand the texts. -/
def ExpandsAll (d : Definitions) (mode : Substitution) (active ts us : List Text) : Prop :=
  ∃ depth, expandAll (d.expandWithin mode depth active) ts = .ok us

/-- Some depth is enough to expand the call. -/
def ExpandsCall (d : Definitions) (mode : Substitution) (m : NamedMacro) (active args : List Text)
    (u : Text) : Prop :=
  ∃ depth, expandCall (d.expandWithin mode depth) mode m active args = .ok u

/-- The point where the expansion of a text starts. -/
def start (d : Definitions) (active : List Text) (t : Text) : Point :=
  ⟨active, d.macros.reverse, [], t⟩

/-- The steps of a run. -/
inductive Step (d : Definitions) (mode : Substitution) : Point → Point → Prop
  | copy {active : List Text} {m : NamedMacro} {ms : List NamedMacro} {behind rest : Text}
      {c : Char} :
      calledAt m.name (lastOr none behind) (c :: rest) = false →
      Step d mode ⟨active, m :: ms, behind, c :: rest⟩ ⟨active, m :: ms, behind ++ [c], rest⟩
  | next {active : List Text} {m : NamedMacro} {ms : List NamedMacro} {behind : Text} :
      Step d mode ⟨active, m :: ms, behind, []⟩ ⟨active, ms, [], behind⟩
  | replace {active : List Text} {m : NamedMacro} {ms : List NamedMacro}
      {behind ahead expansion : Text} {call : Arguments} :
      Taken active m behind ahead call → d.ExpandsCall mode m active call.values expansion →
      Step d mode ⟨active, m :: ms, behind, ahead⟩ ⟨active, m :: ms, behind ++ expansion, call.rest⟩
  /-- Into an argument, those before it having been expanded. -/
  | argument {active : List Text} {m : NamedMacro} {ms : List NamedMacro} {behind ahead : Text}
      {call : Arguments} {front back us : List Text} {v : Text} :
      Taken active m behind ahead call → call.values.length = m.body.params.length →
      call.values = front ++ v :: back → d.ExpandsAll mode active front us →
      Step d mode ⟨active, m :: ms, behind, ahead⟩ (d.start active v)
  /-- Into the instantiated body, with the macro active. -/
  | body {active : List Text} {m : NamedMacro} {ms : List NamedMacro} {behind ahead body : Text}
      {call : Arguments} {values : List Text} :
      Taken active m behind ahead call → call.values.length = m.body.params.length →
      d.ExpandsAll mode active call.values values → m.body.expand mode values = .ok body →
      Step d mode ⟨active, m :: ms, behind, ahead⟩ (d.start (active ++ [m.name]) body)

/-- The failures that arise at a point itself. -/
inductive FailsAt (d : Definitions) (mode : Substitution) : Point → MacroError → Prop
  | recursion {active : List Text} {m : NamedMacro} {ms : List NamedMacro} {behind ahead : Text} :
      calledAt m.name (lastOr none behind) ahead = true → m.name ∈ active →
      FailsAt d mode ⟨active, m :: ms, behind, ahead⟩ (.recursion m.name (active ++ [m.name]))
  | unterminated {active : List Text} {m : NamedMacro} {ms : List NamedMacro}
      {behind ahead : Text} :
      calledAt m.name (lastOr none behind) ahead = true → m.name ∉ active →
      Arguments.parse? (ahead.drop (m.name.length + 1)) = none →
      FailsAt d mode ⟨active, m :: ms, behind, ahead⟩
        (.unterminated m.name (Text.byteSize behind))
  | arity {active : List Text} {m : NamedMacro} {ms : List NamedMacro} {behind ahead : Text}
      {call : Arguments} :
      Taken active m behind ahead call → call.values.length ≠ m.body.params.length →
      FailsAt d mode ⟨active, m :: ms, behind, ahead⟩
        (.arity m.name m.body.params.length call.values.length)
  | evaluation {active : List Text} {m : NamedMacro} {ms : List NamedMacro} {behind ahead : Text}
      {call : Arguments} {values : List Text} {cause : EvalError} :
      Taken active m behind ahead call → call.values.length = m.body.params.length →
      d.ExpandsAll mode active call.values values → m.body.expand mode values = .error cause →
      FailsAt d mode ⟨active, m :: ms, behind, ahead⟩ (.evaluation m.name cause)

/-- The run from a point on comes to a point with the failure. -/
def Leads (d : Definitions) (mode : Substitution) (p : Point) (e : MacroError) : Prop :=
  ∃ q, ReflTransGen (d.Step mode) p q ∧ d.FailsAt mode q e

theorem FailsAt.leads (h : d.FailsAt mode p e) : d.Leads mode p e := ⟨p, .refl, h⟩

theorem Leads.of_steps (hsteps : ReflTransGen (d.Step mode) p q) (h : d.Leads mode q e) :
    d.Leads mode p e := by
  obtain ⟨r, hr, he⟩ := h
  exact ⟨r, hsteps.trans hr, he⟩

theorem Leads.of_step (hstep : d.Step mode p q) (h : d.Leads mode q e) : d.Leads mode p e :=
  h.of_steps (.single hstep)

/-! ### From a failure to its point

The depth is fixed here: an expansion that is entered has one depth less, for which the walk is
known. -/

section Forward

variable {depth : Nat}
  (hwalk : ∀ {active : List Text} {t : Text} {e : MacroError},
    d.expandWithin mode depth active t = .error (.failed e) → d.Leads mode (d.start active t) e)

include hwalk in
theorem leads_of_expandCall (htaken : Taken active m behind ahead call)
    (h : expandCall (d.expandWithin mode depth) mode m active call.values = .error (.failed e)) :
    d.Leads mode ⟨active, m :: ms, behind, ahead⟩ e := by
  rcases expandCall_eq_error_iff.1 h with
    ⟨hn, he⟩ | ⟨hn, hargs⟩ | ⟨values, hn, hvalues, ⟨cause, hb, he⟩ | ⟨body, hb, he⟩⟩
  · cases he
    exact (FailsAt.arity htaken hn).leads
  · obtain ⟨front, v, back, us, hsplit, hfront, hv⟩ := expandAll_eq_error_iff.1 hargs
    exact (hwalk hv).of_step (.argument htaken hn hsplit ⟨depth, hfront⟩)
  · cases he
    exact (FailsAt.evaluation htaken hn ⟨depth, hvalues⟩ hb).leads
  · exact (hwalk he).of_step (.body htaken hn ⟨depth, hvalues⟩ hb)

include hwalk in
theorem leads_of_stopped {before : Option Char} {offset : Nat} {s : Stop}
    (h : Stopped (d.expandWithin mode depth) mode m active before offset ahead s)
    (hs : s = .failed e) (hbefore : before = lastOr none behind)
    (hoffset : offset = Text.byteSize behind) :
    d.Leads mode ⟨active, m :: ms, behind, ahead⟩ e := by
  -- what is behind grows along the sweep, and with it the last character and the offset
  induction h generalizing behind with
  | @copy before offset c rest s hc _ ih =>
    subst hbefore hoffset
    have hrest : d.Leads mode ⟨active, m :: ms, behind ++ [c], rest⟩ e :=
      ih hs (by rw [lastOr_append]; rfl) (by simp)
    exact hrest.of_step (.copy hc)
  | recursion hc ha =>
    subst hbefore
    cases hs
    exact (FailsAt.recursion hc ha).leads
  | unterminated hc ha hp =>
    subst hbefore hoffset
    cases hs
    exact (FailsAt.unterminated hc ha hp).leads
  | call hc ha hp he =>
    subst hbefore hs
    exact leads_of_expandCall hwalk ⟨hc, ha, hp⟩ he
  | @later before offset t expansion call s hc ha hp he _ ih =>
    subst hbefore hoffset
    have hrest : d.Leads mode ⟨active, m :: ms, behind ++ expansion, call.rest⟩ e :=
      ih hs (lastOr_append _ _ _).symm (by simp)
    exact hrest.of_step (.replace ⟨hc, ha, hp⟩ ⟨depth, he⟩)

/-- A sweep that ends well walks to the end of its text. -/
theorem steps_of_swept {before : Option Char} {u : Text}
    (h : Swept (d.expandWithin mode depth) mode m active before ahead u)
    (hbefore : before = lastOr none behind) :
    ReflTransGen (d.Step mode) ⟨active, m :: ms, behind, ahead⟩
      ⟨active, m :: ms, behind ++ u, []⟩ := by
  induction h generalizing behind with
  | nil =>
    rw [List.append_nil]
  | @copy before c rest out hc _ ih =>
    subst hbefore
    have hrest : ReflTransGen (d.Step mode) ⟨active, m :: ms, behind ++ [c], rest⟩
        ⟨active, m :: ms, behind ++ [c] ++ out, []⟩ := ih (by rw [lastOr_append]; rfl)
    rw [List.append_assoc] at hrest
    exact hrest.head (.copy hc)
  | @call before t expansion out call hc ha hp he _ ih =>
    subst hbefore
    have hrest : ReflTransGen (d.Step mode) ⟨active, m :: ms, behind ++ expansion, call.rest⟩
        ⟨active, m :: ms, behind ++ expansion ++ out, []⟩ := ih (lastOr_append _ _ _).symm
    rw [List.append_assoc] at hrest
    exact hrest.head (.replace ⟨hc, ha, hp⟩ ⟨depth, he⟩)

include hwalk in
theorem leads_of_sweepAll
    (h : sweepAll (d.expandWithin mode depth) mode active ms t = .error (.failed e)) :
    d.Leads mode ⟨active, ms, [], t⟩ e := by
  induction ms generalizing t with
  | nil => cases h
  | cons m ms ih =>
    rw [sweepAll] at h
    cases hsweep : sweepCalls (d.expandWithin mode depth) mode m active none 0 t with
    | error s =>
      rw [hsweep] at h
      exact leads_of_stopped hwalk (stopped_of_sweepCalls hsweep) (Except.error.inj h) rfl rfl
    | ok u =>
      rw [hsweep] at h
      have hsteps : ReflTransGen (d.Step mode) ⟨active, m :: ms, [], t⟩ ⟨active, m :: ms, u, []⟩ :=
        steps_of_swept (swept_of_sweepCalls hsweep) rfl
      exact ((ih h).of_step .next).of_steps hsteps

end Forward

/-- An expansion that fails walks to a point with its failure. -/
theorem leads_of_expandWithin {depth : Nat}
    (h : d.expandWithin mode depth active t = .error (.failed e)) :
    d.Leads mode (d.start active t) e := by
  induction depth generalizing active t e with
  | zero => cases h
  | succ depth ih => exact leads_of_sweepAll ih h

/-! ### From a point to the failure

Depths differ from point to point, so a failure is carried back for all great depths at once. -/

theorem ExpandsAll.eventually {ts us : List Text} (h : d.ExpandsAll mode active ts us) :
    ∀ᶠ depth in atTop, expandAll (d.expandWithin mode depth active) ts = .ok us := by
  obtain ⟨n, hn⟩ := h
  filter_upwards [eventually_ge_atTop n] with k hk
  rw [expandAll_eq_ok_iff] at hn ⊢
  exact hn.imp fun t u htu => expandWithin_ok_mono hk htu

theorem ExpandsCall.eventually {args : List Text} {u : Text}
    (h : d.ExpandsCall mode m active args u) :
    ∀ᶠ depth in atTop, expandCall (d.expandWithin mode depth) mode m active args = .ok u := by
  obtain ⟨n, hn⟩ := h
  obtain ⟨hlen, values, body, hvalues, hb, hu⟩ := expandCall_eq_ok_iff.1 hn
  have hall : d.ExpandsAll mode active args values := ⟨n, hvalues⟩
  filter_upwards [hall.eventually, eventually_ge_atTop n] with k hk hnk
  exact expandCall_eq_ok_iff.2 ⟨hlen, values, body, hk, hb, expandWithin_ok_mono hnk hu⟩

/-- An expansion is the run from its start. -/
theorem run_start (depth : Nat) : (d.start active t).run (d.expandWithin mode depth) mode =
    d.expandWithin mode (depth + 1) active t :=
  Point.run_unswept

/-- The run from the point on ends with the failure, at all great depths. -/
def Fails (d : Definitions) (mode : Substitution) (p : Point) (e : MacroError) : Prop :=
  ∀ᶠ depth in atTop, p.run (d.expandWithin mode depth) mode = .error (.failed e)

theorem Fails.eventually (h : d.Fails mode (d.start active t) e) :
    ∀ᶠ depth in atTop, d.expandWithin mode depth active t = .error (.failed e) := by
  obtain ⟨n, hn⟩ := eventually_atTop.1 h
  filter_upwards [eventually_ge_atTop (n + 1)] with k hk
  obtain ⟨k, rfl⟩ : ∃ j, k = j + 1 := ⟨k - 1, by omega⟩
  rw [← run_start]
  exact hn k (by omega)

theorem FailsAt.fails (h : d.FailsAt mode p e) : d.Fails mode p e := by
  cases h with
  | recursion hc ha =>
    refine Eventually.of_forall fun depth => ?_
    rw [Point.run, sweepCalls_called hc, if_pos ha]
  | unterminated hc ha hp =>
    refine Eventually.of_forall fun depth => ?_
    rw [Point.run, sweepCalls_called hc, if_neg ha, hp]
  | arity htaken hn =>
    refine Eventually.of_forall fun depth => ?_
    exact Point.run_of_expandCall_error htaken (expandCall_eq_error_iff.2 (.inl ⟨hn, rfl⟩))
  | evaluation htaken hn hvalues hb =>
    filter_upwards [hvalues.eventually] with depth hdepth
    refine Point.run_of_expandCall_error htaken (expandCall_eq_error_iff.2 ?_)
    exact .inr (.inr ⟨_, hn, hdepth, .inl ⟨_, hb, rfl⟩⟩)

/-- Where a step leads to a failure, the point before it fails likewise. -/
theorem Step.fails (hstep : d.Step mode p q) (h : d.Fails mode q e) : d.Fails mode p e := by
  cases hstep with
  | copy hc =>
    filter_upwards [h] with depth hdepth
    rw [Point.run_copy hc]
    exact hdepth
  | next =>
    filter_upwards [h] with depth hdepth
    rw [Point.run_next]
    exact hdepth
  | replace htaken hcall =>
    filter_upwards [h, hcall.eventually] with depth hdepth hexpansion
    rw [Point.run_replace htaken hexpansion]
    exact hdepth
  | argument htaken hn hsplit hfront =>
    filter_upwards [h.eventually, hfront.eventually] with depth hdepth hus
    refine Point.run_of_expandCall_error htaken (expandCall_eq_error_iff.2 ?_)
    have hargs := expandAll_eq_error_iff.2 ⟨_, _, _, _, hsplit, hus, hdepth⟩
    exact .inr (.inl ⟨hn, hargs⟩)
  | body htaken hn hvalues hb =>
    filter_upwards [h.eventually, hvalues.eventually] with depth hdepth hall
    refine Point.run_of_expandCall_error htaken (expandCall_eq_error_iff.2 ?_)
    exact .inr (.inr ⟨_, hn, hall, .inr ⟨_, hb, hdepth⟩⟩)

theorem Leads.fails (h : d.Leads mode p e) : d.Fails mode p e := by
  obtain ⟨q, hsteps, hq⟩ := h
  induction hsteps using ReflTransGen.head_induction_on with
  | refl => exact hq.fails
  | head hstep _ ih => exact hstep.fails ih

/-- **An expansion fails exactly when its run comes to a point with that failure.** -/
theorem expandWithin_failed_iff :
    (∃ depth, d.expandWithin mode depth active t = .error (.failed e)) ↔
      d.Leads mode (d.start active t) e := by
  constructor
  · intro h
    obtain ⟨depth, hdepth⟩ := h
    exact leads_of_expandWithin hdepth
  · intro h
    exact h.fails.eventually.exists

/-! ### What every point of a run keeps -/

/-- Declared macros only are at hand, and the active ones are guarded. -/
structure Sound (d : Definitions) (p : Point) : Prop where
  guarded : d.Guarded p.active
  declared : p.macros ⊆ d.macros

theorem sound_start (h : d.Guarded active) (t : Text) : d.Sound (d.start active t) where
  guarded := h
  declared := fun _ hm => List.mem_reverse.1 hm

/-- No step leaves the sound points: a body is entered under one more active macro, which is
declared and was not active before. -/
theorem Step.sound (hstep : d.Step mode p q) (hp : d.Sound p) : d.Sound q := by
  cases hstep with
  | copy _ => exact ⟨hp.guarded, hp.declared⟩
  | next => exact ⟨hp.guarded, (List.cons_subset.1 hp.declared).2⟩
  | replace _ _ => exact ⟨hp.guarded, hp.declared⟩
  | argument _ _ _ _ => exact sound_start hp.guarded _
  | body htaken _ _ _ =>
    have hdeclared := List.mem_map_of_mem (f := NamedMacro.name) (List.cons_subset.1 hp.declared).1
    exact sound_start (hp.guarded.concat hdeclared htaken.inactive) _

theorem Sound.of_steps (hp : d.Sound p) (hsteps : ReflTransGen (d.Step mode) p q) : d.Sound q := by
  induction hsteps with
  | refl => exact hp
  | tail _ hstep ih => exact hstep.sound ih

/-- The run of a text comes to the point. -/
def Reaches (d : Definitions) (mode : Substitution) (t : Text) (p : Point) : Prop :=
  ReflTransGen (d.Step mode) (d.start [] t) p

theorem Reaches.sound (h : d.Reaches mode t p) : d.Sound p :=
  (sound_start d.guarded_nil t).of_steps h

/-- The expansion of a text fails exactly when its run comes to a point with that failure. -/
theorem expandMacros_failed_iff :
    (∃ depth, d.expandMacros mode depth t = .error (.failed e)) ↔
      ∃ p, d.Reaches mode t p ∧ d.FailsAt mode p e :=
  expandWithin_failed_iff

end Definitions

end ScriptEmbed
