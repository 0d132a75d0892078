import ScriptEmbed.Expansion.Invocations
import ScriptEmbed.Proofs.Results

/-!
# The sweep over the calls of one macro

`Expansion.sweepCalls` walks through a text once.  At each place it does one of two things: it
copies a character, or it replaces a call and goes on after it.  This file says so in forms that
the laws on expansion use instead of the recursion itself:

* `sweepCalls_copy`, `sweepCalls_called` — the two equations;
* `Swept` — the sweeps that end well, as a relation that names no offset;
* `sweepCalls_eq_ok_iff` — **the relation and the function agree**;
* `Stopped`, `stopped_of_sweepCalls` — the sweeps that fail, with the place where they do.

The text that a call stands for is `expandCall`; `expandCall_eq_ok_iff` and
`expandCall_eq_error_iff` say what it takes.
-/

namespace ScriptEmbed.Expansion

variable {expand : List Text → Text → Except Stop Text} {mode : Substitution} {m : NamedMacro}
  {active : List Text}

/-! ### The two equations -/

theorem sweepCalls_nil (before : Option Char) (offset : Nat) :
    sweepCalls expand mode m active before offset [] = .ok [] := by
  rw [sweepCalls]

/-- Where no call starts, a character is copied. -/
theorem sweepCalls_copy {before : Option Char} {offset : Nat} {c : Char} {rest : Text}
    (h : calledAt m.name before (c :: rest) = false) :
    sweepCalls expand mode m active before offset (c :: rest) =
      (sweepCalls expand mode m active (some c) (offset + c.utf8Size) rest).map (c :: ·) := by
  rw [sweepCalls]
  simp only [h, Bool.false_eq_true, if_false]

/-- The sweep from a call on: the call is refused, or it is replaced and the sweep goes on. -/
theorem sweepCalls_called {before : Option Char} {offset : Nat} {t : Text}
    (h : calledAt m.name before t = true) :
    sweepCalls expand mode m active before offset t =
      if m.name ∈ active then .error (.failed (.recursion m.name (active ++ [m.name])))
      else
        match Arguments.parse? (t.drop (m.name.length + 1)) with
        | none => .error (.failed (.unterminated m.name offset))
        | some call =>
          match expandCall expand mode m active call.values with
          | .error e => .error e
          | .ok expansion =>
            (sweepCalls expand mode m active (lastOr before expansion)
              (offset + Text.byteSize expansion) call.rest).map (expansion ++ ·) := by
  cases t with
  | nil => simp [calledAt] at h
  | cons c rest =>
    rw [sweepCalls]
    simp only [h, if_true]
    by_cases ha : m.name ∈ active
    · rw [if_pos ha, if_pos ha]
    · rw [if_neg ha, if_neg ha]
      split
      · rename_i hp
        rw [hp]
      · rename_i call hp
        exact hp ▸ rfl

/-! ### The text of one call -/

theorem expandAll_eq_ok_iff {f : Text → Except Stop Text} {ts us : List Text} :
    expandAll f ts = .ok us ↔ List.Forall₂ (fun t u => f t = .ok u) ts us := by
  induction ts generalizing us with
  | nil =>
    rw [List.forall₂_nil_left_iff]
    constructor
    · intro h
      exact (Except.ok.inj h).symm
    · rintro rfl
      rfl
  | cons t ts ih =>
    rw [List.forall₂_cons_left_iff]
    constructor
    · intro h
      cases ht : f t with
      | error e => simp [expandAll, ht, bind, Except.bind] at h
      | ok u =>
        cases hts : expandAll f ts with
        | error e => simp [expandAll, ht, hts, bind, Except.bind] at h
        | ok vs =>
          simp only [expandAll, ht, hts, bind, Except.bind, pure, Except.pure,
            Except.ok.injEq] at h
          exact ⟨u, vs, rfl, ih.1 hts, h.symm⟩
    · rintro ⟨u, vs, ht, hts, rfl⟩
      simp [expandAll, ht, ih.2 hts, bind, Except.bind, pure, Except.pure]

/-- The first text without a result decides: those before it have one. -/
theorem expandAll_eq_error_iff {f : Text → Except Stop Text} {ts : List Text} {e : Stop} :
    expandAll f ts = .error e ↔ ∃ front v back us,
      ts = front ++ v :: back ∧ expandAll f front = .ok us ∧ f v = .error e := by
  induction ts with
  | nil => simp [expandAll]
  | cons t ts ih =>
    constructor
    · intro h
      cases ht : f t with
      | error e' =>
        simp only [expandAll, ht, bind, Except.bind, Except.error.injEq] at h
        exact ⟨[], t, ts, [], rfl, rfl, by rw [ht, h]⟩
      | ok u =>
        cases hts : expandAll f ts with
        | error e' =>
          simp only [expandAll, ht, hts, bind, Except.bind, Except.error.injEq] at h
          obtain ⟨front, v, back, us, rfl, hfront, hv⟩ := ih.1 (by rw [hts, h])
          refine ⟨t :: front, v, back, u :: us, rfl, ?_, hv⟩
          simp [expandAll, ht, hfront, bind, Except.bind, pure, Except.pure]
        | ok vs => simp [expandAll, ht, hts, bind, Except.bind, pure, Except.pure] at h
    · rintro ⟨front, v, back, us, hts, hfront, hv⟩
      cases front with
      | nil =>
        obtain ⟨rfl, rfl⟩ := List.cons.inj hts
        simp [expandAll, hv, bind, Except.bind]
      | cons t' front =>
        obtain ⟨rfl, htail⟩ := List.cons.inj hts
        obtain ⟨u, us', hu, hus, -⟩ := List.forall₂_cons_left_iff.1 (expandAll_eq_ok_iff.1 hfront)
        have hrest := ih.2 ⟨front, v, back, us', htail, expandAll_eq_ok_iff.2 hus, hv⟩
        simp [expandAll, hu, hrest, bind, Except.bind]

/-- A call ends well when the number of arguments is right, all of them expand, the body is
instantiated, and the result expands with the macro active. -/
theorem expandCall_eq_ok_iff {args : List Text} {u : Text} :
    expandCall expand mode m active args = .ok u ↔
      args.length = m.body.params.length ∧ ∃ values body,
        expandAll (expand active) args = .ok values ∧ m.body.expand mode values = .ok body ∧
        expand (active ++ [m.name]) body = .ok u := by
  by_cases hn : args.length = m.body.params.length
  · rw [expandCall, if_pos hn]
    cases hv : expandAll (expand active) args with
    | error e => simp [bind, Except.bind]
    | ok values =>
      cases hb : m.body.expand mode values with
      | error e => simp [hb, bind, Except.bind]
      | ok body => simp [hn, hb, bind, Except.bind]
  · rw [expandCall, if_neg hn]
    simp [hn]

/-- A call fails for the number of its arguments, for one of them, in the evaluation of the body, or
in the expansion of the result. -/
theorem expandCall_eq_error_iff {args : List Text} {e : Stop} :
    expandCall expand mode m active args = .error e ↔
      (args.length ≠ m.body.params.length ∧
        e = .failed (.arity m.name m.body.params.length args.length)) ∨
      (args.length = m.body.params.length ∧ expandAll (expand active) args = .error e) ∨
      ∃ values, args.length = m.body.params.length ∧ expandAll (expand active) args = .ok values ∧
        ((∃ cause, m.body.expand mode values = .error cause ∧
            e = .failed (.evaluation m.name cause)) ∨
          ∃ body, m.body.expand mode values = .ok body ∧
            expand (active ++ [m.name]) body = .error e) := by
  by_cases hn : args.length = m.body.params.length
  · rw [expandCall, if_pos hn]
    cases hv : expandAll (expand active) args with
    | error e' => simp [hn, bind, Except.bind]
    | ok values =>
      cases hb : m.body.expand mode values with
      | error cause => simp [hn, hb, bind, Except.bind, eq_comm]
      | ok body => simp [hn, hb, bind, Except.bind]
  · rw [expandCall, if_neg hn]
    simp [hn, eq_comm]

/-- What a call that fails fails with. -/
theorem expandCall_eq_error {args : List Text} {e : Stop}
    (h : expandCall expand mode m active args = .error e) :
    (args.length ≠ m.body.params.length ∧
      e = .failed (.arity m.name m.body.params.length args.length)) ∨
    (∃ t ∈ args, expand active t = .error e) ∨
    (∃ values cause, values.length = m.body.params.length ∧
      m.body.expand mode values = .error cause ∧ e = .failed (.evaluation m.name cause)) ∨
    (∃ values body, expandAll (expand active) args = .ok values ∧
      m.body.expand mode values = .ok body ∧ expand (active ++ [m.name]) body = .error e) := by
  rcases expandCall_eq_error_iff.1 h with
    h | ⟨-, h⟩ | ⟨values, hn, hv, ⟨cause, hb, he⟩ | ⟨body, hb, he⟩⟩
  · exact .inl h
  · obtain ⟨front, v, back, us, rfl, -, hv⟩ := expandAll_eq_error_iff.1 h
    exact .inr (.inl ⟨v, List.mem_append_right front List.mem_cons_self, hv⟩)
  · have hlen := (expandAll_eq_ok_iff.1 hv).length_eq
    exact .inr (.inr (.inl ⟨values, cause, hlen.symm.trans hn, hb, he⟩))
  · exact .inr (.inr (.inr ⟨values, body, hv, hb, he⟩))

/-- The text after a call is shorter than the text that starts with the call. -/
theorem call_rest_length {n : Nat} {t : Text} {call : Arguments}
    (h : Arguments.parse? (t.drop n) = some call) : call.rest.length < t.length := by
  have hlt := Arguments.parse?_rest_length h
  rw [List.length_drop] at hlt
  omega

/-! ### Sweeps that end well -/

/-- `Swept expand mode m active before t u`: sweeping `t`, before which `before` stands, gives `u`.
A sweep copies a character where no call starts, and otherwise replaces a whole call. -/
inductive Swept (expand : List Text → Text → Except Stop Text) (mode : Substitution)
    (m : NamedMacro) (active : List Text) : Option Char → Text → Text → Prop
  | nil {before : Option Char} : Swept expand mode m active before [] []
  | copy {before : Option Char} {c : Char} {rest out : Text} :
      calledAt m.name before (c :: rest) = false →
      Swept expand mode m active (some c) rest out →
      Swept expand mode m active before (c :: rest) (c :: out)
  | call {before : Option Char} {t expansion out : Text} {call : Arguments} :
      calledAt m.name before t = true → m.name ∉ active →
      Arguments.parse? (t.drop (m.name.length + 1)) = some call →
      expandCall expand mode m active call.values = .ok expansion →
      Swept expand mode m active (lastOr before expansion) call.rest out →
      Swept expand mode m active before t (expansion ++ out)

theorem Swept.sweepCalls_eq {before : Option Char} {t u : Text}
    (h : Swept expand mode m active before t u) (offset : Nat) :
    sweepCalls expand mode m active before offset t = .ok u := by
  induction h generalizing offset with
  | nil => exact sweepCalls_nil _ _
  | copy hc _ ih =>
    rw [sweepCalls_copy hc, ih]
    rfl
  | call hc ha hp he _ ih =>
    rw [sweepCalls_called hc, if_neg ha]
    simp only [hp, he, ih]
    rfl

theorem swept_of_sweepCalls {t : Text} :
    ∀ {before : Option Char} {offset : Nat} {u : Text},
      sweepCalls expand mode m active before offset t = .ok u →
      Swept expand mode m active before t u := by
  induction hn : t.length using Nat.strong_induction_on generalizing t with
  | _ n ih =>
    intro before offset u h
    cases hc : calledAt m.name before t with
    | true =>
      rw [sweepCalls_called hc] at h
      split at h
      · cases h
      · rename_i ha
        split at h
        · cases h
        · rename_i call hp
          split at h
          · cases h
          · rename_i expansion he
            obtain ⟨out, hout, rfl⟩ := map_eq_ok.1 h
            have hlt := call_rest_length hp
            exact .call hc ha hp he (ih _ (by omega) rfl hout)
    | false =>
      cases t with
      | nil =>
        rw [sweepCalls_nil] at h
        cases h
        exact .nil
      | cons c rest =>
        rw [sweepCalls_copy hc] at h
        obtain ⟨out, hout, rfl⟩ := map_eq_ok.1 h
        rw [List.length_cons] at hn
        exact .copy hc (ih _ (by omega) rfl hout)

/-- **The relation and the function agree**, whatever the offset. -/
theorem sweepCalls_eq_ok_iff {before : Option Char} {offset : Nat} {t u : Text} :
    sweepCalls expand mode m active before offset t = .ok u ↔
      Swept expand mode m active before t u :=
  ⟨swept_of_sweepCalls, fun h => h.sweepCalls_eq offset⟩

/-! ### Sweeps that fail -/

/-- `Stopped expand mode m active before offset t e`: sweeping `t` stops with `e`.  The offset is
that of `t` in the text at hand. -/
inductive Stopped (expand : List Text → Text → Except Stop Text) (mode : Substitution)
    (m : NamedMacro) (active : List Text) : Option Char → Nat → Text → Stop → Prop
  | copy {before : Option Char} {offset : Nat} {c : Char} {rest : Text} {e : Stop} :
      calledAt m.name before (c :: rest) = false →
      Stopped expand mode m active (some c) (offset + c.utf8Size) rest e →
      Stopped expand mode m active before offset (c :: rest) e
  | recursion {before : Option Char} {offset : Nat} {t : Text} :
      calledAt m.name before t = true → m.name ∈ active →
      Stopped expand mode m active before offset t
        (.failed (.recursion m.name (active ++ [m.name])))
  | unterminated {before : Option Char} {offset : Nat} {t : Text} :
      calledAt m.name before t = true → m.name ∉ active →
      Arguments.parse? (t.drop (m.name.length + 1)) = none →
      Stopped expand mode m active before offset t (.failed (.unterminated m.name offset))
  | call {before : Option Char} {offset : Nat} {t : Text} {call : Arguments} {e : Stop} :
      calledAt m.name before t = true → m.name ∉ active →
      Arguments.parse? (t.drop (m.name.length + 1)) = some call →
      expandCall expand mode m active call.values = .error e →
      Stopped expand mode m active before offset t e
  | later {before : Option Char} {offset : Nat} {t expansion : Text} {call : Arguments}
      {e : Stop} :
      calledAt m.name before t = true → m.name ∉ active →
      Arguments.parse? (t.drop (m.name.length + 1)) = some call →
      expandCall expand mode m active call.values = .ok expansion →
      Stopped expand mode m active (lastOr before expansion)
        (offset + Text.byteSize expansion) call.rest e →
      Stopped expand mode m active before offset t e

theorem stopped_of_sweepCalls {t : Text} :
    ∀ {before : Option Char} {offset : Nat} {e : Stop},
      sweepCalls expand mode m active before offset t = .error e →
      Stopped expand mode m active before offset t e := by
  induction hn : t.length using Nat.strong_induction_on generalizing t with
  | _ n ih =>
    intro before offset e h
    cases hc : calledAt m.name before t with
    | true =>
      rw [sweepCalls_called hc] at h
      split at h
      · rename_i ha
        cases h
        exact .recursion hc ha
      · rename_i ha
        split at h
        · rename_i hp
          cases h
          exact .unterminated hc ha hp
        · rename_i call hp
          split at h
          · rename_i e' he
            cases h
            exact .call hc ha hp he
          · rename_i expansion he
            have hlt := call_rest_length hp
            exact .later hc ha hp he (ih _ (by omega) rfl (map_eq_error.1 h))
    | false =>
      cases t with
      | nil =>
        rw [sweepCalls_nil] at h
        cases h
      | cons c rest =>
        rw [sweepCalls_copy hc] at h
        rw [List.length_cons] at hn
        exact .copy hc (ih _ (by omega) rfl (map_eq_error.1 h))

end ScriptEmbed.Expansion
