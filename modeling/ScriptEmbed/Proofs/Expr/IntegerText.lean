import Mathlib
import ScriptEmbed.Macro.Computed
import ScriptEmbed.Proofs.Expr.Extremum
import ScriptEmbed.Proofs.Number.Numeral
import ScriptEmbed.Proofs.Results

/-!
# Integers that pass through text

A computed macro writes its value into the text around its call.  Where that text is an argument of
another macro, it is read as a value again, so that values go from one macro to the next by way of
their texts only.  Integers arrive unchanged: what is written for one is read as that one, whatever
blanks have come around it on the way, and so does the text that an expression makes of it.

* `Value.ofArgument_eq_int_iff` — the arguments that are integers are the numerals of words;
* `Value.ofArgument_text_int`, `Computed.ofArgument_expand` — an integer is read back from its text,
  and from the text that a macro makes of it;
* `Expr.eval_int_str` — the same within an expression;
* `Value.ofArgument_integers` — **integers survive the way through text**.
-/

namespace ScriptEmbed

open Text (allBlank trim)

variable {a : Int64} {k : Int} {t l r : Text}

namespace Value

/-! ### Arguments -/

/-- An argument is an integer where it is a numeral of one, blanks around it aside. -/
theorem ofArgument_eq_int_iff : ofArgument t = .int a ↔ Decimal.Numeral (trim t) a.toInt := by
  rw [← Word.read?_eq_some_iff]
  cases hread : Word.read? (trim t) with
  | some i => simp [ofArgument, hread]
  | none =>
    -- a text that is no numeral of a word is a floating-point number, or stays a text
    have hother : ofArgument t ≠ .int a := by
      simp only [ofArgument, hread]
      split
      · split <;> exact Value.noConfusion
      · exact Value.noConfusion
    exact iff_of_false hother (Option.some_ne_none a).symm

/-- The value of an argument that is an integer, and the range of such values. -/
theorem exists_ofArgument_eq_int_iff : (∃ a : Int64, ofArgument t = .int a ∧ a.toInt = k) ↔
    Decimal.Numeral (trim t) k ∧ Word.Fits k := by
  constructor
  · rintro ⟨a, ha, rfl⟩
    exact ⟨ofArgument_eq_int_iff.1 ha, Word.fits_toInt a⟩
  · rintro ⟨hk, hfits⟩
    obtain ⟨a, rfl⟩ := Word.exists_toInt_eq_iff.2 hfits
    exact ⟨a, ofArgument_eq_int_iff.2 hk, rfl⟩

/-- The number behind the greatest word is no integer. -/
example : (ofArgument " +09223372036854775807\n".toList).kind = .int ∧
    (ofArgument "9223372036854775808".toList).kind = .float := by decide

/-- An integer is read back from its text, with any blanks around it. -/
theorem ofArgument_text_int (hl : allBlank l = true) (hr : allBlank r = true) (a : Int64) :
    ofArgument (l ++ (int a).text ++ r) = .int a := by
  rw [ofArgument_eq_int_iff, ← Word.read?_eq_some_iff]
  exact Word.read?_trim_numeral hl hr a

/-- The conversion to an integer undoes the conversion to a text. -/
theorem toInt_str_text (a : Int64) : toInt (.str (int a).text) = .ok (.int a) := by
  have hread := Word.read?_trim_numeral (l := []) (r := []) rfl rfl a
  rw [List.nil_append, List.append_nil] at hread
  rw [toInt, readInt, text, text, hread]

end Value

open Value (ofArgument)

/-- What a macro makes of an integer is that integer as an argument of the next macro. -/
theorem Computed.ofArgument_expand {c : Computed} {bindings : Bindings}
    (hc : c.expr.eval (Computed.scope bindings) = .ok (.int a)) (hl : allBlank l = true)
    (hr : allBlank r = true) :
    ∃ t, c.expand bindings = .ok t ∧ ofArgument (l ++ t ++ r) = .int a := by
  refine ⟨(Value.int a).text, map_eq_ok.2 ⟨.int a, hc, rfl⟩, ?_⟩
  exact Value.ofArgument_text_int hl hr a

/-- The integer of the text of an integer is that integer. -/
theorem Expr.eval_int_str {scope : Scope} {e : Expr} (he : e.eval scope = .ok (.int a)) :
    (call "int".toList [call "str".toList [e]]).eval scope = .ok (.int a) := by
  have hint : Builtin.ofName? "int".toList = some .int := by decide
  have hstr : Builtin.ofName? "str".toList = some .str := by decide
  have hone : ∀ {e : Expr} {v : Value}, e.eval scope = .ok v → evalAll scope [e] = .ok [v] := by
    intro e v hv
    simp only [evalAll, hv, bind, Except.bind, pure, Except.pure]
  have htext : (call "str".toList [e]).eval scope = .ok (.str (Value.int a).text) := by
    rw [eval_call hstr (hone he)]
    rfl
  rw [eval_call hint (hone htext)]
  exact Value.toInt_str_text a

/-- **Integers survive the way through text.**  An argument is read as an integer exactly where it is,
without the blanks at its ends, a numeral of a number that is a word, and then as that number.  So an
integer is read back from what is written for it, from what a macro makes of it, with any blanks around,
and within an expression. -/
theorem Value.ofArgument_integers :
    (∀ t k, (∃ a : Int64, ofArgument t = .int a ∧ a.toInt = k) ↔
      Decimal.Numeral (trim t) k ∧ Word.Fits k) ∧
    (∀ (a : Int64) l r, allBlank l = true → allBlank r = true →
      ofArgument (l ++ (Value.int a).text ++ r) = .int a ∧
      ∀ (c : Computed) bindings, c.expr.eval (Computed.scope bindings) = .ok (.int a) →
        ∃ t, c.expand bindings = .ok t ∧ ofArgument (l ++ t ++ r) = .int a) ∧
    ∀ scope (e : Expr) a, e.eval scope = .ok (.int a) →
      (Expr.call "int".toList [.call "str".toList [e]]).eval scope = .ok (.int a) := by
  refine ⟨fun t k => exists_ofArgument_eq_int_iff, ?_, fun scope e a he => Expr.eval_int_str he⟩
  intro a l r hl hr
  exact ⟨ofArgument_text_int hl hr a, fun c bindings hc => Computed.ofArgument_expand hc hl hr⟩

/-- A macro whose value is the number before the opposite of its argument. -/
def belowOpposite : Computed :=
  ⟨["n".toList], "-n - 1".toList, .binary .sub (.unary .neg (.name "n".toList)) (.int 1)⟩

/-- The least word, with leading zeros and blanks beyond ASCII, and as a result of a macro. -/
theorem Value.ofArgument_integers_least :
    Decimal.Numeral (trim "\u2003-009223372036854775808\n".toList) (-9223372036854775808) ∧
    Word.Fits (-9223372036854775808) ∧
    (∃ a : Int64, ofArgument "\u2003-009223372036854775808\n".toList = .int a ∧
      a.toInt = -9223372036854775808) ∧
    allBlank "\u2003".toList = true ∧ allBlank "\t\n".toList = true ∧
    belowOpposite.expr.eval (Computed.scope [("n".toList, "9223372036854775807".toList)]) =
      .ok (.int Int64.minValue) ∧
    (∃ t, belowOpposite.expand [("n".toList, "9223372036854775807".toList)] = .ok t ∧
      ofArgument ("\u2003".toList ++ t ++ "\t\n".toList) = .int Int64.minValue) ∧
    (Expr.call "int".toList [.call "str".toList [belowOpposite.expr]]).eval
        (Computed.scope [("n".toList, "9223372036854775807".toList)]) =
      .ok (.int Int64.minValue) := by
  have hnumeral : Decimal.Numeral (trim "\u2003-009223372036854775808\n".toList)
      (-9223372036854775808) := Decimal.readInt?_eq_some_iff.1 (by decide)
  have hfits : Word.Fits (-9223372036854775808) := by norm_num [Word.Fits]
  have heval : belowOpposite.expr.eval
      (Computed.scope [("n".toList, "9223372036854775807".toList)]) =
        .ok (.int Int64.minValue) := rfl
  obtain ⟨hargument, htext, hcall⟩ := Value.ofArgument_integers
  exact ⟨hnumeral, hfits, (hargument _ _).2 ⟨hnumeral, hfits⟩, rfl, rfl, heval,
    (htext _ _ _ rfl rfl).2 _ _ heval, hcall _ _ _ heval⟩

end ScriptEmbed
