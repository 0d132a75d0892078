import Mathlib
import ScriptEmbed.Macro.Computed
import ScriptEmbed.Proofs.Number.Division

/-!
# Integer results

Integers of expressions are words.  An operation on them has an exact result, a whole number; it gives
the word of that value, and fails with an overflow where there is none.  Remainders are computed by
way of the machine's division, so that one of them is lost: that of the least word by minus one is zero,
and is reported as an overflow because the quotient of the two is one.

* `Value.Exact` — the word of a whole number, or an overflow where there is none;
* `BinaryOp.integer?` — the exact result of an operator;
* `Value.exact_applyBinary` — the operators are exact, that one remainder apart;
* `Expr.eval_integers_exact` — **sums, products, quotients, opposites and distances are exact, and
  so is each remainder that there is**;
* `Expr.eval_overflow_iff` — **where integer arithmetic overflows**;
* `Expr.eval_mod_overflow` — the remainder that is lost.
-/

namespace ScriptEmbed

open Word (Fits)

/-- The exact result of an operator on whole numbers, where it has one.  Quotients are rounded down,
and a remainder is what such a quotient leaves. -/
def BinaryOp.integer? (op : BinaryOp) (i j : Int) : Option Int :=
  match op with
  | .add => some (i + j)
  | .sub => some (i - j)
  | .mul => some (i * j)
  | .div | .floorDiv => if j = 0 then none else some ⌊(i : ℚ) / j⌋
  | .mod => if j = 0 then none else some (i - j * ⌊(i : ℚ) / j⌋)
  | _ => none

namespace Value

variable {a b : Int64} {i k : Int} {op : BinaryOp} {v : Value} {e : Except EvalError Value}

/-! ### Exact results -/

/-- The word with a given value, or an overflow where no word has it. -/
inductive Exact (i : Int) : Except EvalError Value → Prop where
  | word (r : Int64) (h : r.toInt = i) : Exact i (.ok (.int r))
  | overflow (h : ¬ Fits i) : Exact i (.error .overflow)

theorem exact_of_ofInt? (hok : ∀ r, Word.ofInt? i = some r → e = .ok (int r))
    (herror : Word.ofInt? i = none → e = .error .overflow) : Exact i e := by
  cases h : Word.ofInt? i with
  | none =>
    rw [herror h]
    exact .overflow (Word.ofInt?_eq_none_iff.1 h)
  | some r =>
    rw [hok r h]
    exact .word r (Word.toInt_of_ofInt? h)

theorem Exact.overflow_iff (h : Exact i e) : e = .error .overflow ↔ ¬ Fits i := by
  cases h with
  | word r hr => simp [← hr, Word.fits_toInt]
  | overflow hi => simp [hi]

theorem Exact.exists_word (h : Exact i e) (hi : Fits i) :
    ∃ r : Int64, e = .ok (int r) ∧ r.toInt = i := by
  cases h with
  | word r hr => exact ⟨r, rfl, hr⟩
  | overflow hover => exact absurd hi hover

theorem Exact.toInt_eq {r : Int64} (h : Exact i (.ok (int r))) : r.toInt = i := by
  cases h with
  | word _ hr => exact hr

/-! ### Operations -/

/-- An operator with an exact result gives that, where it is not the remainder that is lost. -/
theorem exact_applyBinary (hk : op.integer? a.toInt b.toInt = some k)
    (h : ¬ (op = .mod ∧ Word.overflowsDiv a b = true)) :
    Exact k (applyBinary op (int a) (int b)) := by
  -- quotients and remainders have an exact result for a divisor other than zero only
  have hdivisor : ∀ j, (if b.toInt = 0 then none else some j) = some k → b ≠ 0 ∧ j = k := by
    intro j hj
    obtain ⟨hzero, hjk⟩ := Option.ite_none_left_eq_some.1 hj
    exact ⟨fun hb => hzero (Int64.toInt_inj.2 hb), Option.some.inj hjk⟩
  cases op with
  | add | sub | mul =>
    obtain rfl := Option.some.inj hk
    refine exact_of_ofInt? ?_ ?_
    · intro r hr
      simp [applyBinary, arithmetic, intArithmetic, Word.add?, Word.sub?, Word.mul?, hr]
    · intro hnone
      simp [applyBinary, arithmetic, intArithmetic, Word.add?, Word.sub?, Word.mul?, hnone]
  | div | floorDiv =>
    obtain ⟨hb, rfl⟩ := hdivisor _ hk
    refine exact_of_ofInt? ?_ ?_
    · intro r hr
      simp [applyBinary, arithmetic, intArithmetic, hb, Word.floorDiv?_eq hb, hr]
    · intro hnone
      simp [applyBinary, arithmetic, intArithmetic, hb, Word.floorDiv?_eq hb, hnone]
  | mod =>
    obtain ⟨hb, rfl⟩ := hdivisor _ hk
    have hdivides : Word.overflowsDiv a b = false := Bool.eq_false_iff.2 fun hover => h ⟨rfl, hover⟩
    refine exact_of_ofInt? ?_ ?_
    · intro r hr
      simp [applyBinary, arithmetic, intArithmetic, hb, Word.floorMod?_eq hb hdivides, hr]
    · intro hnone
      simp [applyBinary, arithmetic, intArithmetic, hb, Word.floorMod?_eq hb hdivides, hnone]
  | _ => cases hk

theorem exact_neg (a : Int64) : Exact (-a.toInt) (applyUnary .neg (int a)) := by
  refine exact_of_ofInt? ?_ ?_
  · intro r hr
    simp [applyUnary, Word.neg?, hr]
  · intro hnone
    simp [applyUnary, Word.neg?, hnone]

theorem exact_abs (a : Int64) : Exact |a.toInt| (callBuiltin .abs [int a]) := by
  refine exact_of_ofInt? ?_ ?_
  · intro r hr
    simp [callBuiltin, apply1, magnitude, Word.abs?, hr]
  · intro hnone
    simp [callBuiltin, apply1, magnitude, Word.abs?, hnone]

/-- A quotient of integers is rounded down, whichever sign of division is used. -/
theorem exact_div (hop : op = .div ∨ op = .floorDiv) (hb : b ≠ 0) :
    Exact ⌊(a.toInt : ℚ) / b.toInt⌋ (applyBinary op (int a) (int b)) := by
  rcases hop with rfl | rfl
  · exact exact_applyBinary (if_neg (Word.toInt_ne_zero hb)) (by simp)
  · exact exact_applyBinary (if_neg (Word.toInt_ne_zero hb)) (by simp)

theorem exact_mod (hb : b ≠ 0) (h : Word.overflowsDiv a b = false) :
    Exact (a.toInt - b.toInt * ⌊(a.toInt : ℚ) / b.toInt⌋) (applyBinary .mod (int a) (int b)) :=
  exact_applyBinary (if_neg (Word.toInt_ne_zero hb)) (by simp [h])

/-- The remainder that is lost. -/
theorem applyBinary_mod_of_overflowsDiv (h : Word.overflowsDiv a b = true) :
    applyBinary .mod (int a) (int b) = .error .overflow := by
  obtain ⟨rfl, rfl⟩ := Word.overflowsDiv_iff.1 h
  rfl

theorem applyBinary_eq_divisionByZero_iff (hop : op = .div ∨ op = .floorDiv) :
    applyBinary op (int a) (int b) = .error .divisionByZero ↔ b = 0 := by
  constructor
  · intro h
    by_contra hb
    have hexact := exact_div (a := a) hop hb
    rw [h] at hexact
    cases hexact
  · intro hb
    rw [hb]
    rcases hop with rfl | rfl <;> rfl

/-- A remainder is missing where the divisor is zero, and where it is lost. -/
theorem applyBinary_mod_eq_ok (h : applyBinary .mod (int a) (int b) = .ok v) :
    b ≠ 0 ∧ ∃ m : Int64, v = int m ∧ m.toInt = a.toInt - b.toInt * ⌊(a.toInt : ℚ) / b.toInt⌋ := by
  have hb : b ≠ 0 := by
    intro hzero
    rw [hzero] at h
    cases h
  refine ⟨hb, ?_⟩
  cases hover : Word.overflowsDiv a b with
  | true =>
    rw [applyBinary_mod_of_overflowsDiv hover] at h
    cases h
  | false =>
    obtain ⟨m, hm, hvalue⟩ := (exact_mod hb hover).exists_word (Word.fits_floor_rest a hb)
    rw [h] at hm
    exact ⟨m, Except.ok.inj hm, hvalue⟩

end Value

/-! ### Expressions -/

namespace Expr

open Value

variable {scope : Scope} {l r : Expr} {a b : Int64} {v w : Value} {op : BinaryOp}

theorem eval_binary (hand : op ≠ .and) (hor : op ≠ .or) (hl : l.eval scope = .ok v)
    (hr : r.eval scope = .ok w) : (binary op l r).eval scope = applyBinary op v w := by
  cases op <;> simp_all [eval, bind, Except.bind]

theorem eval_neg (hl : l.eval scope = .ok v) : (unary .neg l).eval scope = applyUnary .neg v := by
  simp [eval, hl, bind, Except.bind]

theorem eval_abs (hl : l.eval scope = .ok v) :
    (call "abs".toList [l]).eval scope = callBuiltin .abs [v] := by
  have hname : Builtin.ofName? "abs".toList = some .abs := by decide
  simp only [eval, evalAll, hl, hname, bind, Except.bind, pure, Except.pure]

/-- **Integer results are exact.**  Of two expressions that are integers, the sum, the difference and
the product are, and so are the opposite of one and its distance from zero.  A quotient fails for its
divisor only where that is zero, and is rounded down otherwise.  Each remainder that there is belongs to
such a quotient, and none of the steps on the way to the two leaves the words. -/
theorem eval_integers_exact (hl : l.eval scope = .ok (.int a)) (hr : r.eval scope = .ok (.int b)) :
    Exact (a.toInt + b.toInt) ((binary .add l r).eval scope) ∧
    Exact (a.toInt - b.toInt) ((binary .sub l r).eval scope) ∧
    Exact (a.toInt * b.toInt) ((binary .mul l r).eval scope) ∧
    (∀ op, op = .div ∨ op = .floorDiv →
      ((binary op l r).eval scope = .error .divisionByZero ↔ b = 0) ∧
      (b ≠ 0 → Exact ⌊(a.toInt : ℚ) / b.toInt⌋ ((binary op l r).eval scope))) ∧
    Exact (-a.toInt) ((unary .neg l).eval scope) ∧
    Exact |a.toInt| ((call "abs".toList [l]).eval scope) ∧
    (∀ v, (binary .mod l r).eval scope = .ok v → ∃ m : Int64, v = .int m ∧
      m.toInt = a.toInt - b.toInt * ⌊(a.toInt : ℚ) / b.toInt⌋ ∧
      (m = 0 ∨ m.toInt.sign = b.toInt.sign ∧ |m.toInt| < |b.toInt|) ∧
      ∀ q : Int64, (binary .floorDiv l r).eval scope = .ok (.int q) →
        a.toInt = b.toInt * q.toInt + m.toInt) ∧
    (b ≠ 0 → Word.overflowsDiv a b = false → Word.StepsExact a b) := by
  have heval : ∀ op, op ≠ .and → op ≠ .or →
      (binary op l r).eval scope = applyBinary op (.int a) (.int b) :=
    fun op hand hor => eval_binary hand hor hl hr
  have hdiv : ∀ op, op = .div ∨ op = .floorDiv →
      (binary op l r).eval scope = applyBinary op (.int a) (.int b) := by
    intro op hop
    refine heval op ?_ ?_ <;> rcases hop with rfl | rfl <;> decide
  refine ⟨?_, ?_, ?_, ?_, ?_, ?_, ?_, Word.stepsExact⟩
  · rw [heval .add (by decide) (by decide)]
    exact exact_applyBinary rfl (by simp)
  · rw [heval .sub (by decide) (by decide)]
    exact exact_applyBinary rfl (by simp)
  · rw [heval .mul (by decide) (by decide)]
    exact exact_applyBinary rfl (by simp)
  · intro op hop
    rw [hdiv op hop]
    exact ⟨applyBinary_eq_divisionByZero_iff hop, exact_div hop⟩
  · rw [eval_neg hl]
    exact exact_neg a
  · rw [eval_abs hl]
    exact exact_abs a
  · intro v hv
    rw [heval .mod (by decide) (by decide)] at hv
    obtain ⟨hb, m, hm, hvalue⟩ := applyBinary_mod_eq_ok hv
    refine ⟨m, hm, hvalue, ?_, ?_⟩
    · have hcases := Word.floor_rest_cases a.toInt (Word.toInt_ne_zero hb)
      rw [← hvalue] at hcases
      exact hcases.imp_left Int64.toInt_inj.1
    · intro q hq
      rw [hdiv .floorDiv (.inr rfl)] at hq
      have hquotient := exact_div (a := a) (.inr rfl) hb
      rw [hq] at hquotient
      rw [hvalue, hquotient.toInt_eq]
      ring

/-- A scope with a negative integer and a divisor that does not divide it. -/
def oddHalf : Scope := Computed.scope [("a".toList, " -7".toList), ("b".toList, "2".toList)]

theorem eval_integers_exact_oddHalf :
    (name "a".toList).eval oddHalf = .ok (.int (-7)) ∧
    (name "b".toList).eval oddHalf = .ok (.int 2) ∧
    Exact (-4) ((binary .div (name "a".toList) (name "b".toList)).eval oddHalf) ∧
    (∀ v, (binary .mod (name "a".toList) (name "b".toList)).eval oddHalf = .ok v →
      ∃ m : Int64, v = .int m ∧ m.toInt = 1) ∧
    Word.StepsExact (-7) 2 := by
  have ha : (name "a".toList).eval oddHalf = .ok (.int (-7)) := rfl
  have hb : (name "b".toList).eval oddHalf = .ok (.int 2) := rfl
  have hfloor : ⌊((-7 : Int64).toInt : ℚ) / (2 : Int64).toInt⌋ = -4 := by
    rw [show (-7 : Int64).toInt = -7 from rfl, show (2 : Int64).toInt = 2 from rfl]
    norm_num
  obtain ⟨-, -, -, hdiv, -, -, hmod, hsteps⟩ := eval_integers_exact ha hb
  refine ⟨ha, hb, ?_, ?_, hsteps (by decide) (by decide)⟩
  · rw [← hfloor]
    exact (hdiv .div (.inl rfl)).2 (by decide)
  · intro v hv
    obtain ⟨m, hm, hvalue, -⟩ := hmod v hv
    rw [hfloor] at hvalue
    exact ⟨m, hm, hvalue⟩

/-- **Where integer arithmetic overflows.**  An operation overflows where its exact result is no word.
So does the remainder of the least word by minus one, and nothing else: the exact result of a remainder
is a word always, and is given for all other integers. -/
theorem eval_overflow_iff (hl : l.eval scope = .ok (.int a)) (hr : r.eval scope = .ok (.int b)) :
    (∀ op k, op.integer? a.toInt b.toInt = some k →
      ((binary op l r).eval scope = .error .overflow ↔
        ¬ Fits k ∨ op = .mod ∧ a = Int64.minValue ∧ b = -1)) ∧
    ((unary .neg l).eval scope = .error .overflow ↔ ¬ Fits (-a.toInt)) ∧
    ((call "abs".toList [l]).eval scope = .error .overflow ↔ ¬ Fits |a.toInt|) ∧
    (b ≠ 0 → Fits (a.toInt - b.toInt * ⌊(a.toInt : ℚ) / b.toInt⌋) ∧
      (¬ (a = Int64.minValue ∧ b = -1) → ∃ m : Int64,
        (binary .mod l r).eval scope = .ok (.int m) ∧
        m.toInt = a.toInt - b.toInt * ⌊(a.toInt : ℚ) / b.toInt⌋)) := by
  refine ⟨?_, ?_, ?_, ?_⟩
  · intro op k hk
    have hand : op ≠ .and := by
      intro hop
      rw [hop] at hk
      cases hk
    have hor : op ≠ .or := by
      intro hop
      rw [hop] at hk
      cases hk
    rw [eval_binary hand hor hl hr, ← Word.overflowsDiv_iff]
    by_cases hlost : op = .mod ∧ Word.overflowsDiv a b = true
    · obtain ⟨rfl, hover⟩ := hlost
      exact iff_of_true (applyBinary_mod_of_overflowsDiv hover) (.inr ⟨rfl, hover⟩)
    · rw [(exact_applyBinary hk hlost).overflow_iff, or_iff_left hlost]
  · rw [eval_neg hl]
    exact (exact_neg a).overflow_iff
  · rw [eval_abs hl]
    exact (exact_abs a).overflow_iff
  · intro hb
    refine ⟨Word.fits_floor_rest a hb, ?_⟩
    intro hlost
    rw [← Word.overflowsDiv_iff, Bool.not_eq_true] at hlost
    rw [eval_binary (by decide) (by decide) hl hr]
    exact (exact_mod hb hlost).exists_word (Word.fits_floor_rest a hb)

theorem eval_overflow_iff_oddHalf :
    (name "a".toList).eval oddHalf = .ok (.int (-7)) ∧
    (name "b".toList).eval oddHalf = .ok (.int 2) ∧
    (binary .mul (name "a".toList) (name "b".toList)).eval oddHalf ≠ .error .overflow ∧
    ∃ m : Int64, (binary .mod (name "a".toList) (name "b".toList)).eval oddHalf = .ok (.int m) ∧
      m.toInt = -7 - 2 * ⌊((-7 : Int64).toInt : ℚ) / (2 : Int64).toInt⌋ := by
  have ha : (name "a".toList).eval oddHalf = .ok (.int (-7)) := rfl
  have hb : (name "b".toList).eval oddHalf = .ok (.int 2) := rfl
  obtain ⟨hbinary, -, -, hmod⟩ := eval_overflow_iff ha hb
  have hmul : BinaryOp.mul.integer? (-7 : Int64).toInt (2 : Int64).toInt = some (-14) := rfl
  refine ⟨ha, hb, ?_, (hmod (by decide)).2 (by decide)⟩
  rw [ne_eq, hbinary .mul (-14) hmul, not_or]
  exact ⟨by norm_num [Fits], by decide⟩

/-- **A remainder that is lost.**  The least word leaves nothing when it is divided by minus one, and
zero is a word; what is reported is an overflow. -/
theorem eval_mod_overflow : ∃ e, parse? "a % b".toList = some e ∧
    e.eval (Computed.scope
      [("a".toList, "-9223372036854775808".toList), ("b".toList, "-1".toList)]) =
        .error .overflow ∧
    BinaryOp.mod.integer? (-9223372036854775808) (-1) = some 0 ∧ Fits 0 := by
  refine ⟨binary .mod (name "a".toList) (name "b".toList), ?_, rfl, ?_, ?_⟩
  · cbv
  · norm_num [BinaryOp.integer?]
  · norm_num [Fits]

end Expr

end ScriptEmbed
