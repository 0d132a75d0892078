import ScriptEmbed.Macro.Basic
import ScriptEmbed.Proofs.Results

/-!
# Scoped expressions

When a computed macro is defined, the names in its expression are checked.  This file says what the
check establishes, and that it is enough: with a value for every parameter, evaluation never meets a
name or a function that it does not know.

* `Expr.Scoped` — names are parameters, and only built-in functions are called;
* `Expr.checkNames_eq_ok_iff` — the check accepts scoped expressions only, and all of them;
* `Known` — results that are no failure for an unknown name; every operation gives such a result;
* `Expr.known_eval` — **a scoped expression never fails for an unknown name**;
* `Computed.known_expand` — the same of a macro with one argument per parameter.
-/

namespace ScriptEmbed

/-! ### Scoped expressions -/

namespace Expr

/-- The names in an expression are parameters, and the functions it calls are built in. -/
inductive Scoped (params : List Text) : Expr → Prop
  | int (i : Int64) : Scoped params (.int i)
  | float (x : Float) : Scoped params (.float x)
  | str (s : Text) : Scoped params (.str s)
  | bool (b : Bool) : Scoped params (.bool b)
  | name {n : Text} : n ∈ params → Scoped params (.name n)
  | unary {op : UnaryOp} {e : Expr} : Scoped params e → Scoped params (.unary op e)
  | binary {op : BinaryOp} {l r : Expr} :
      Scoped params l → Scoped params r → Scoped params (.binary op l r)
  | conditional {c y n : Expr} :
      Scoped params c → Scoped params y → Scoped params n → Scoped params (.conditional c y n)
  | index {t p : Expr} : Scoped params t → Scoped params p → Scoped params (.index t p)
  | call {f : Text} {b : Builtin} {args : List Expr} :
      Builtin.ofName? f = some b → (∀ e ∈ args, Scoped params e) → Scoped params (.call f args)

variable {params : List Text}

mutual

theorem scoped_of_checkNames : ∀ {e : Expr}, checkNames params e = .ok () → Scoped params e
  | .int i, _ => .int i
  | .float x, _ => .float x
  | .str s, _ => .str s
  | .bool b, _ => .bool b
  | .name n, h => by
    rw [checkNames] at h
    split at h
    · exact .name ‹_›
    · cases h
  | .unary _ e, h => by
    rw [checkNames] at h
    exact .unary (scoped_of_checkNames h)
  | .binary _ l r, h => by
    rw [checkNames, bind_eq_ok_iff] at h
    obtain ⟨_, hl, hr⟩ := h
    exact .binary (scoped_of_checkNames hl) (scoped_of_checkNames hr)
  | .conditional c y n, h => by
    rw [checkNames, bind_eq_ok_iff] at h
    obtain ⟨_, hc, h⟩ := h
    obtain ⟨_, hy, hn⟩ := bind_eq_ok_iff.1 h
    exact .conditional (scoped_of_checkNames hc) (scoped_of_checkNames hy) (scoped_of_checkNames hn)
  | .index t p, h => by
    rw [checkNames, bind_eq_ok_iff] at h
    obtain ⟨_, ht, hp⟩ := h
    exact .index (scoped_of_checkNames ht) (scoped_of_checkNames hp)
  | .call f args, h => by
    rw [checkNames] at h
    split at h
    · exact .call ‹_› (scoped_of_checkAllNames h)
    · cases h

theorem scoped_of_checkAllNames : ∀ {es : List Expr}, checkAllNames params es = .ok () →
    ∀ e ∈ es, Scoped params e
  | [], _ => fun _ he => nomatch he
  | e :: es, h => by
    rw [checkAllNames, bind_eq_ok_iff] at h
    obtain ⟨_, he, hes⟩ := h
    exact List.forall_mem_cons.2 ⟨scoped_of_checkNames he, scoped_of_checkAllNames hes⟩

end

theorem checkAllNames_eq_ok {es : List Expr} (h : ∀ e ∈ es, checkNames params e = .ok ()) :
    checkAllNames params es = .ok () := by
  induction es with
  | nil => rw [checkAllNames]
  | cons e es ih =>
    obtain ⟨he, hes⟩ := List.forall_mem_cons.1 h
    rw [checkAllNames, bind_eq_ok_iff]
    exact ⟨(), he, ih hes⟩

theorem Scoped.checkNames_eq {e : Expr} (h : Scoped params e) : checkNames params e = .ok () := by
  induction h with
  | int | float | str | bool => rw [checkNames]
  | name hn => rw [checkNames, if_pos hn]
  | unary _ ih => rw [checkNames, ih]
  | binary _ _ ihl ihr =>
    rw [checkNames, bind_eq_ok_iff]
    exact ⟨(), ihl, ihr⟩
  | conditional _ _ _ ihc ihy ihn =>
    rw [checkNames, bind_eq_ok_iff]
    exact ⟨(), ihc, bind_eq_ok_iff.2 ⟨(), ihy, ihn⟩⟩
  | index _ _ iht ihp =>
    rw [checkNames, bind_eq_ok_iff]
    exact ⟨(), iht, ihp⟩
  | call hf _ ih =>
    rw [checkNames]
    simp only [hf]
    exact checkAllNames_eq_ok ih

/-- The check accepts scoped expressions only, and all of them. -/
theorem checkNames_eq_ok_iff {e : Expr} : checkNames params e = .ok () ↔ Scoped params e :=
  ⟨scoped_of_checkNames, Scoped.checkNames_eq⟩

end Expr

/-! ### Failures for unknown names -/

/-- The failure is one for a name or a function that is not known. -/
def EvalError.isUnknown : EvalError → Bool
  | .unknownName _ | .unknownFunction _ => true
  | _ => false

/-- A result that is no failure for an unknown name. -/
def Known {α : Type} (x : Except EvalError α) : Prop :=
  ∀ cause, x = .error cause → cause.isUnknown = false

section Known

variable {α β : Type} {x : Except EvalError α} {f : α → Except EvalError β}

theorem known_ok (a : α) : Known (.ok a : Except EvalError α) := fun _ h => nomatch h

theorem known_error_iff {cause : EvalError} :
    Known (.error cause : Except EvalError α) ↔ cause.isUnknown = false :=
  ⟨fun h => h cause rfl, fun h _ heq => Except.error.inj heq ▸ h⟩

theorem Known.bind (hx : Known x) (hf : ∀ a, x = .ok a → Known (f a)) : Known (x >>= f) := by
  cases x with
  | error cause => exact known_error_iff.2 (hx cause rfl)
  | ok a => exact hf a rfl

theorem Known.map {f : α → β} (hx : Known x) : Known (x.map f) := by
  cases x with
  | error cause => exact known_error_iff.2 (hx cause rfl)
  | ok a => exact known_ok (f a)

theorem Known.ite {p : Prop} [Decidable p] {y : Except EvalError α} (hx : Known x) (hy : Known y) :
    Known (if p then x else y) := by
  split
  · exact hx
  · exact hy

end Known

/-! ### Operations

Each operation is taken apart as it is defined: what is left are values, and failures that name no
name. -/

namespace Value

theorem known_applyUnary (op : UnaryOp) (v : Value) : Known (applyUnary op v) := by
  cases op with
  | not => exact known_ok _
  | neg =>
    cases v with
    | int i =>
      rw [applyUnary]
      split
      · exact known_ok _
      · exact known_error_iff.2 rfl
    | float x => exact known_ok _
    | str s => exact known_error_iff.2 rfl
    | bool b => exact known_error_iff.2 rfl
  | plus =>
    cases v with
    | int i => exact known_ok _
    | float x => exact known_ok _
    | str s => exact known_error_iff.2 rfl
    | bool b => exact known_error_iff.2 rfl

theorem known_repeated (s : Text) (count : Int64) : Known (repeated s count) := by
  unfold repeated
  exact .ite (known_ok _) (.ite (known_ok _) (known_error_iff.2 rfl))

theorem known_intArithmetic (op : BinaryOp) (a b : Int64) : Known (intArithmetic op a b) := by
  cases op <;> unfold intArithmetic <;> dsimp only
  case add | sub | mul =>
    split
    · exact known_ok _
    · exact known_error_iff.2 rfl
  case div | floorDiv | mod =>
    refine .ite (known_error_iff.2 rfl) ?_
    split
    · exact known_ok _
    · exact known_error_iff.2 rfl
  all_goals exact known_error_iff.2 rfl

theorem known_floatArithmetic (op : BinaryOp) (a b : Float) : Known (floatArithmetic op a b) := by
  cases op with
  | add => exact known_ok _
  | sub => exact known_ok _
  | mul => exact known_ok _
  | div => exact .ite (known_error_iff.2 rfl) (known_ok _)
  | floorDiv => exact .ite (known_error_iff.2 rfl) (known_ok _)
  | mod => exact .ite (known_error_iff.2 rfl) (known_ok _)
  | _ => exact known_error_iff.2 rfl

theorem known_arithmetic (op : BinaryOp) (l r : Value) : Known (arithmetic op l r) := by
  unfold arithmetic
  split
  · exact known_ok _
  · exact known_repeated _ _
  · exact known_repeated _ _
  · exact known_intArithmetic _ _ _
  · split
    · exact known_floatArithmetic _ _ _
    · exact known_error_iff.2 rfl

theorem known_order (op : BinaryOp) (l r : Value) : Known (order op l r) := by
  unfold order
  split
  · exact known_ok _
  · exact known_error_iff.2 rfl

theorem known_applyBinary (op : BinaryOp) (l r : Value) : Known (applyBinary op l r) := by
  have hcompared : ∀ f : Ordering → Value, Known (do return f (← order op l r)) := fun f =>
    (known_order op l r).bind fun o _ => known_ok (f o)
  cases op with
  | eq => exact known_ok _
  | ne => exact known_ok _
  | lt => exact hcompared fun o => bool (o == .lt)
  | le => exact hcompared fun o => bool (o != .gt)
  | gt => exact hcompared fun o => bool (o == .gt)
  | ge => exact hcompared fun o => bool (o != .lt)
  | _ => exact known_arithmetic _ _ _

theorem known_charAt (target position : Value) : Known (charAt target position) := by
  unfold charAt
  split
  · refine .ite (known_error_iff.2 rfl) ?_
    split
    · exact known_ok _
    · exact known_error_iff.2 rfl
  · exact known_error_iff.2 rfl

/-! ### Built-in functions -/

theorem known_readInt (v : Value) : Known (readInt v) := by
  unfold readInt
  split
  · exact known_ok _
  · exact known_error_iff.2 rfl

theorem known_toInt (v : Value) : Known (toInt v) := by
  cases v with
  | int i => exact known_ok _
  | float x => exact .ite (.ite (known_ok _) (known_error_iff.2 rfl)) (known_readInt _)
  | str s => exact known_readInt _
  | bool b => exact known_ok _

theorem known_toFloat (v : Value) : Known (toFloat v) := by
  unfold toFloat
  split
  · exact known_ok _
  · split
    · exact known_ok _
    · exact known_error_iff.2 rfl

theorem known_character (i : Int64) : Known (character i) :=
  .ite (known_ok _) (known_error_iff.2 rfl)

theorem known_codePoint (v : Value) : Known (codePoint v) := by
  unfold codePoint
  split
  · exact known_ok _
  · exact known_error_iff.2 rfl

theorem known_length (v : Value) : Known (length v) := by
  unfold length
  split
  · exact known_ok _
  · exact known_error_iff.2 rfl

theorem known_magnitude (v : Value) : Known (magnitude v) := by
  unfold magnitude
  split
  · split
    · exact known_ok _
    · exact known_error_iff.2 rfl
  · exact known_ok _
  · exact known_error_iff.2 rfl

theorem known_extremum (keep : Ordering) (best : Value) (vs : List Value) :
    Known (extremum keep best vs) := by
  induction vs generalizing best with
  | nil => exact known_ok _
  | cons v vs ih => exact (known_order .lt v best).bind fun _ _ => ih _

theorem known_apply1 (f : Builtin) {g : Value → Except EvalError Value} (hg : ∀ v, Known (g v))
    (args : List Value) : Known (apply1 f g args) := by
  unfold apply1
  split
  · exact hg _
  · exact known_error_iff.2 rfl

theorem known_callBuiltin (f : Builtin) (args : List Value) : Known (callBuiltin f args) := by
  cases f with
  | len => exact known_apply1 _ known_length args
  | ord => exact known_apply1 _ known_codePoint args
  | chr =>
    refine known_apply1 _ (fun v => ?_) args
    cases v with
    | int i => exact known_character i
    | _ => exact known_error_iff.2 rfl
  | str => exact known_apply1 _ (fun v => known_ok _) args
  | int => exact known_apply1 _ known_toInt args
  | float => exact known_apply1 _ known_toFloat args
  | abs => exact known_apply1 _ known_magnitude args
  | min =>
    cases args with
    | nil => exact known_error_iff.2 rfl
    | cons v vs => exact known_extremum _ v vs
  | max =>
    cases args with
    | nil => exact known_error_iff.2 rfl
    | cons v vs => exact known_extremum _ v vs

end Value

/-! ### Evaluation -/

/-- There is a value for every parameter. -/
def Scope.Binds (scope : Scope) (params : List Text) : Prop :=
  ∀ p ∈ params, ∃ v, scope.find? p = some v

namespace Expr

variable {params : List Text} {scope : Scope}

theorem known_evalAll {es : List Expr} (h : ∀ e ∈ es, Known (eval scope e)) :
    Known (evalAll scope es) := by
  induction es with
  | nil =>
    rw [evalAll]
    exact known_ok _
  | cons e es ih =>
    obtain ⟨he, hes⟩ := List.forall_mem_cons.1 h
    rw [evalAll]
    exact he.bind fun v _ => (ih hes).bind fun vs _ => known_ok _

/-- **A scoped expression never fails for an unknown name**, whatever the values of the
parameters. -/
theorem known_eval {e : Expr} (h : Scoped params e) (hscope : scope.Binds params) :
    Known (eval scope e) := by
  induction h with
  | int | float | str | bool =>
    rw [eval]
    exact known_ok _
  | @name n hn =>
    obtain ⟨v, hv⟩ := hscope n hn
    rw [eval, hv]
    exact known_ok _
  | unary _ ih =>
    rw [eval]
    exact ih.bind fun v _ => Value.known_applyUnary _ v
  | @binary op _ _ _ _ ihl ihr =>
    cases op with
    | and =>
      rw [eval]
      exact ihl.bind fun v _ => .ite ihr (known_ok _)
    | or =>
      rw [eval]
      exact ihl.bind fun v _ => .ite (known_ok _) ihr
    | _ =>
      rw [eval]
      exact ihl.bind fun v _ => ihr.bind fun w _ => Value.known_applyBinary _ v w
      all_goals exact fun h => nomatch h
  | conditional _ _ _ ihc ihy ihn =>
    rw [eval]
    exact ihc.bind fun v _ => .ite ihy ihn
  | index _ _ iht ihp =>
    rw [eval]
    exact iht.bind fun v _ => ihp.bind fun w _ => Value.known_charAt v w
  | call hf _ ih =>
    rw [eval]
    refine (known_evalAll ih).bind fun vs _ => ?_
    simp only [hf]
    exact Value.known_callBuiltin _ vs

end Expr

/-! ### Macros -/

/-- With one argument per parameter, every parameter has a value. -/
theorem Computed.binds_scope {params args : List Text} (h : args.length = params.length) :
    (Computed.scope (params.zip args)).Binds params := by
  intro p hp
  have hnames : (params.zip args).map Prod.fst = params := List.map_fst_zip (by omega)
  rw [← hnames] at hp
  obtain ⟨b, hb, rfl⟩ := List.mem_map.1 hp
  have hfound : ((Computed.scope (params.zip args)).reverse.find? (·.1 == b.1)).isSome = true := by
    rw [List.find?_isSome]
    exact ⟨_, List.mem_reverse.2 (List.mem_map_of_mem hb), beq_self_eq_true b.1⟩
  obtain ⟨entry, hentry⟩ := Option.isSome_iff_exists.1 hfound
  exact ⟨entry.2, by rw [Scope.find?, hentry, Option.map_some]⟩

/-- **A macro whose expression is scoped never fails for an unknown name** when it is given one
argument per parameter. -/
theorem Macro.known_expand {m : Macro} (hm : ∀ c, m = .computed c → c.expr.Scoped c.params)
    {mode : Substitution} {args : List Text} (h : args.length = m.params.length) :
    Known (m.expand mode args) := by
  cases m with
  | template t => exact known_ok _
  | computed c =>
    exact (Expr.known_eval (hm c rfl) (Computed.binds_scope h)).map

end ScriptEmbed
