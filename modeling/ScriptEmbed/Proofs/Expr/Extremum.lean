import Mathlib
import ScriptEmbed.Expr.Eval

/-!
# Least and greatest values

`min` and `max` walk through their arguments once and compare each of them with the best so far.  Two
integers compare, and so do two texts, each in a total order; the walk then ends at a value that no
other one goes before, wherever it stands.  A text compares with texts only, so that a walk over a list
with a text and an integer never gets from the one to the other.

Both functions are one walk in two directions.  A direction is the outcome of a comparison on which a
candidate replaces the best value.

* `Value.Less`, `Value.less_int`, `Value.less_str` — the order of integers and of texts;
* `Value.Before` — the order in one of the two directions;
* `Value.extremum_of_alike` — **a walk over values that compare ends at a first one of them**;
* `Value.extremum_of_mixed` — **a walk over a text and a value of another kind fails**;
* `Expr.eval_extremum` — **`min` and `max` of integers, of texts, and of both**.
-/

namespace ScriptEmbed

namespace Value

variable {u v w r : Value} {vs ws : List Value} {keep : Ordering}

/-! ### The order of values -/

/-- One value is strictly smaller than another, by the operator of expressions. -/
def Less (v w : Value) : Prop := applyBinary .lt v w = .ok (bool true)

/-- One value goes before another in a direction, the one of smaller values or its opposite. -/
def Before (keep : Ordering) (v w : Value) : Prop := order? v w = some keep

theorem less_iff_before : Less v w ↔ Before .lt v w := by
  rw [Less, Before, applyBinary, order]
  cases h : order? v w with
  | none => simp [bind, Except.bind]
  | some o => cases o <;> simp [bind, Except.bind, pure, Except.pure]

theorem less_int (a b : Int64) : Less (int a) (int b) ↔ a.toInt < b.toInt := by
  rw [less_iff_before, Before, order?, Option.some.injEq]
  exact compare_lt_iff_lt

/-- Texts are compared by the code points of their characters, the first that differ deciding. -/
theorem compare_eq_lt_iff (s t : Text) :
    compare s t = .lt ↔ s.map Char.toNat < t.map Char.toNat := by
  induction s generalizing t with
  | nil => cases t <;> simp
  | cons c s ih =>
    cases t with
    | nil => simp
    | cons d t =>
      have hsame : compare c d = .eq ↔ c.toNat = d.toNat := by
        rw [compare_eq_iff_eq, Char.toNat_inj]
      rw [List.compare_cons_cons, Ordering.then_eq_lt, compare_lt_iff_lt, hsame, ih, List.map_cons,
        List.map_cons, List.cons_lt_cons_iff]
      rfl

theorem less_str (s t : Text) : Less (str s) (str t) ↔ s.map Char.toNat < t.map Char.toNat := by
  rw [less_iff_before, Before, order?, Option.some.injEq]
  exact compare_eq_lt_iff s t

/-! ### Comparisons in a direction -/

section

variable {α : Type} {cmp : α → α → Ordering} [Std.TransCmp cmp] {a b c : α}

theorem cmp_trans (hab : cmp a b = keep) (hbc : cmp b c = keep) : cmp a c = keep := by
  cases keep with
  | lt => exact Std.TransCmp.lt_trans hab hbc
  | eq => exact Std.TransCmp.eq_trans hab hbc
  | gt => exact Std.TransCmp.gt_trans hab hbc

theorem cmp_ne_trans (hkeep : keep ≠ .eq) (hab : cmp a b ≠ keep) (hbc : cmp b c ≠ keep) :
    cmp a c ≠ keep := by
  cases keep with
  | lt =>
    exact Ordering.isGE_iff_ne_lt.1
      (Std.TransCmp.isGE_trans (Ordering.isGE_iff_ne_lt.2 hab) (Ordering.isGE_iff_ne_lt.2 hbc))
  | eq => exact absurd rfl hkeep
  | gt =>
    exact Ordering.isLE_iff_ne_gt.1
      (Std.TransCmp.isLE_trans (Ordering.isLE_iff_ne_gt.2 hab) (Ordering.isLE_iff_ne_gt.2 hbc))

theorem cmp_eq_of_ne (hkeep : keep ≠ .eq) (hab : cmp a b ≠ keep) (hba : cmp b a ≠ keep) :
    cmp a b = .eq := by
  have hswap : cmp b a = (cmp a b).swap := Std.OrientedCmp.eq_swap
  rw [hswap] at hba
  cases h : cmp a b with
  | eq => rfl
  | lt => cases keep <;> simp_all
  | gt => cases keep <;> simp_all

end

/-! ### Values that compare -/

/-- Two integers, or two texts. -/
inductive Alike : Value → Value → Prop
  | int (a b : Int64) : Alike (int a) (int b)
  | str (s t : Text) : Alike (str s) (str t)

/-- The values of a list are integers, or they are texts. -/
def Uniform (vs : List Value) : Prop := (∀ v ∈ vs, v.kind = .int) ∨ ∀ v ∈ vs, v.kind = .str

theorem alike_of_kind_int (hv : v.kind = .int) (hw : w.kind = .int) : Alike v w := by
  cases v <;> cases hv
  cases w <;> cases hw
  exact .int _ _

theorem alike_of_kind_str (hv : v.kind = .str) (hw : w.kind = .str) : Alike v w := by
  cases v <;> cases hv
  cases w <;> cases hw
  exact .str _ _

theorem Uniform.alike (h : Uniform vs) (hv : v ∈ vs) (hw : w ∈ vs) : Alike v w :=
  h.elim (fun h => alike_of_kind_int (h v hv) (h w hw))
    fun h => alike_of_kind_str (h v hv) (h w hw)

theorem Uniform.subset (h : Uniform vs) (hws : ws ⊆ vs) : Uniform ws :=
  h.imp (fun h v hv => h v (hws hv)) fun h v hv => h v (hws hv)

namespace Alike

theorem exists_order? (h : Alike v w) : ∃ o, order? v w = some o := by
  cases h with
  | int a b => exact ⟨_, rfl⟩
  | str s t => exact ⟨_, rfl⟩

theorem before_trans (huv : Alike u v) (hvw : Alike v w) (h : Before keep u v)
    (h' : Before keep v w) : Before keep u w := by
  cases huv with
  | int a b =>
    cases hvw with
    | int _ c => exact congrArg some (cmp_trans (Option.some.inj h) (Option.some.inj h'))
  | str s t =>
    cases hvw with
    | str _ q => exact congrArg some (cmp_trans (Option.some.inj h) (Option.some.inj h'))

theorem not_before_trans (hkeep : keep ≠ .eq) (huv : Alike u v) (hvw : Alike v w)
    (h : ¬ Before keep u v) (h' : ¬ Before keep v w) : ¬ Before keep u w := by
  cases huv with
  | int a b =>
    cases hvw with
    | int _ c =>
      exact fun hac => cmp_ne_trans hkeep (mt (congrArg some) h) (mt (congrArg some) h')
        (Option.some.inj hac)
  | str s t =>
    cases hvw with
    | str _ q =>
      exact fun hac => cmp_ne_trans hkeep (mt (congrArg some) h) (mt (congrArg some) h')
        (Option.some.inj hac)

/-- The two directions are opposites. -/
theorem before_gt_iff (h : Alike v w) : Before .gt v w ↔ Before .lt w v := by
  cases h with
  | int a b => simp only [Before, order?, Option.some.injEq, Std.OrientedCmp.gt_iff_lt]
  | str s t => simp only [Before, order?, Option.some.injEq, Std.OrientedCmp.gt_iff_lt]

theorem not_before_self (hkeep : keep ≠ .eq) (h : Alike v v) : ¬ Before keep v v := by
  cases h with
  | int a _ => exact fun haa => hkeep (Option.some.inj haa ▸ Std.ReflCmp.compare_self)
  | str s _ => exact fun hss => hkeep (Option.some.inj hss ▸ Std.ReflCmp.compare_self)

/-- Of two different values one goes before the other. -/
theorem eq_of_not_before (hkeep : keep ≠ .eq) (h : Alike v w) (hvw : ¬ Before keep v w)
    (hwv : ¬ Before keep w v) : v = w := by
  cases h with
  | int a b =>
    have hab := cmp_eq_of_ne hkeep (mt (congrArg some) hvw) (mt (congrArg some) hwv)
    rw [Int64.toInt_inj.1 (compare_eq_iff_eq.1 hab)]
  | str s t =>
    have hst := cmp_eq_of_ne hkeep (mt (congrArg some) hvw) (mt (congrArg some) hwv)
    rw [Std.LawfulEqCmp.eq_of_compare hst]

end Alike

/-! ### The walk -/

/-- A first value of a list in a direction: no other goes before it. -/
structure First (keep : Ordering) (vs : List Value) (r : Value) : Prop where
  mem : r ∈ vs
  not_before : ∀ v ∈ vs, ¬ Before keep v r

/-- The order of a list does not count for its first value. -/
theorem First.eq_of_perm {r' : Value} (hkeep : keep ≠ .eq) (hvs : Uniform vs)
    (h : First keep vs r) (h' : First keep ws r') (hperm : ws.Perm vs) : r' = r := by
  have hr' : r' ∈ vs := hperm.mem_iff.1 h'.mem
  have hr : r ∈ ws := hperm.mem_iff.2 h.mem
  exact (hvs.alike hr' h.mem).eq_of_not_before hkeep (h.not_before r' hr') (h'.not_before r hr)

theorem extremum_cons {best : Value} {o : Ordering} (h : order? v best = some o) (keep : Ordering)
    (vs : List Value) :
    extremum keep best (v :: vs) = extremum keep (if o = keep then v else best) vs := by
  simp [extremum, order, h, bind, Except.bind]

/-- A walk over values that compare ends at a first one of them. -/
theorem extremum_of_alike (hkeep : keep ≠ .eq) {best : Value} (h : Uniform (best :: vs)) :
    ∃ r, extremum keep best vs = .ok r ∧ First keep (best :: vs) r := by
  induction vs generalizing best with
  | nil =>
    refine ⟨best, rfl, List.mem_cons_self, fun v hv => ?_⟩
    rw [List.mem_singleton.1 hv]
    exact (h.alike List.mem_cons_self List.mem_cons_self).not_before_self hkeep
  | cons a vs ih =>
    have ha : a ∈ best :: a :: vs := List.mem_cons_of_mem best List.mem_cons_self
    have hbest : best ∈ best :: a :: vs := List.mem_cons_self
    obtain ⟨o, ho⟩ := (h.alike ha hbest).exists_order?
    rw [extremum_cons ho]
    by_cases hok : o = keep
    · -- the candidate goes before the best so far, which then goes before nothing
      obtain ⟨r, hr, hmem, hfirst⟩ := ih (h.subset (List.subset_cons_self best _))
      rw [if_pos hok]
      refine ⟨r, hr, List.mem_cons_of_mem best hmem, List.forall_mem_cons.2 ⟨?_, hfirst⟩⟩
      intro hbefore
      refine hfirst a List.mem_cons_self ?_
      exact (h.alike ha hbest).before_trans (h.alike hbest (List.mem_cons_of_mem best hmem))
        (hok ▸ ho) hbefore
    · have hsub : best :: vs ⊆ best :: a :: vs :=
        List.cons_subset_cons best (List.subset_cons_self a vs)
      obtain ⟨r, hr, hmem, hfirst⟩ := ih (h.subset hsub)
      obtain ⟨hnot, hrest⟩ := List.forall_mem_cons.1 hfirst
      rw [if_neg hok]
      refine ⟨r, hr, hsub hmem, List.forall_mem_cons.2 ⟨hnot, List.forall_mem_cons.2 ⟨?_, hrest⟩⟩⟩
      refine Alike.not_before_trans hkeep (h.alike ha hbest) (h.alike hbest (hsub hmem)) ?_ hnot
      intro hbefore
      exact hok (Option.some.inj (ho.symm.trans hbefore))

/-! ### Texts among other values -/

/-- Only two texts compare, or two values that are none. -/
theorem kind_eq_str_iff_of_order? {o : Ordering} (h : order? v w = some o) :
    v.kind = .str ↔ w.kind = .str := by
  cases v <;> cases w <;> simp_all [order?, kind, toFloat?]

/-- A walk fails where the best value so far is a text and a later one is none, or the other way
round. -/
theorem extremum_of_mixed {best : Value} (h : ∃ v ∈ vs, ¬ (v.kind = .str ↔ best.kind = .str)) :
    ∃ k l, extremum keep best vs = .error (.unsupportedOperands (.binary .lt) k l) := by
  induction vs generalizing best with
  | nil =>
    obtain ⟨v, hv, -⟩ := h
    cases hv
  | cons a vs ih =>
    cases ho : order? a best with
    | none => exact ⟨a.kind, best.kind, by simp [extremum, order, ho, bind, Except.bind]⟩
    | some o =>
      have hsame := kind_eq_str_iff_of_order? ho
      rw [extremum_cons ho]
      obtain ⟨v, hv, hother⟩ := h
      rcases List.mem_cons.1 hv with rfl | hv
      · exact absurd hsame hother
      · refine ih ⟨v, hv, ?_⟩
        split
        · rwa [hsame]
        · exact hother

/-! ### The functions -/

/-- The functions that choose one of their arguments, with the direction of the choice. -/
inductive Chooses : Builtin → Ordering → Prop
  | min : Chooses .min .lt
  | max : Chooses .max .gt

theorem Chooses.ne_eq {f : Builtin} (h : Chooses f keep) : keep ≠ .eq := by
  cases h <;> decide

theorem Chooses.callBuiltin_cons {f : Builtin} (h : Chooses f keep) (v : Value) (vs : List Value) :
    callBuiltin f (v :: vs) = extremum keep v vs := by
  cases h <;> rfl

/-- Of integers, or of texts, a first one is chosen. -/
theorem Chooses.exists_first {f : Builtin} (h : Chooses f keep) (hne : vs ≠ []) (hvs : Uniform vs) :
    ∃ r, callBuiltin f vs = .ok r ∧ First keep vs r := by
  obtain ⟨v, vs, rfl⟩ := List.exists_cons_of_ne_nil hne
  rw [h.callBuiltin_cons]
  exact extremum_of_alike h.ne_eq hvs

/-- The choice does not depend on the order of the arguments. -/
theorem Chooses.callBuiltin_perm {f : Builtin} (h : Chooses f keep) (hne : vs ≠ [])
    (hvs : Uniform vs) (hperm : ws.Perm vs) : callBuiltin f ws = callBuiltin f vs := by
  have hne' : ws ≠ [] := fun hnil => hne (List.Perm.eq_nil (hnil ▸ hperm.symm))
  obtain ⟨r, hr, hfirst⟩ := h.exists_first hne hvs
  obtain ⟨r', hr', hfirst'⟩ := h.exists_first hne' (hvs.subset hperm.subset)
  rw [hr, hr', hfirst.eq_of_perm h.ne_eq hvs hfirst' hperm]

/-- There is no choice between an integer and a text. -/
theorem Chooses.callBuiltin_of_mixed {f : Builtin} (h : Chooses f keep) {i : Int64} {s : Text}
    (hi : int i ∈ vs) (hs : str s ∈ vs) :
    ∃ k l, callBuiltin f vs = .error (.unsupportedOperands (.binary .lt) k l) := by
  obtain ⟨v, vs, rfl⟩ := List.exists_cons_of_ne_nil (List.ne_nil_of_mem hi)
  rw [h.callBuiltin_cons]
  refine extremum_of_mixed ?_
  by_cases hv : v.kind = .str
  · have hmem : int i ∈ vs := (List.mem_cons.1 hi).resolve_left fun heq => by
      rw [← heq] at hv
      cases hv
    exact ⟨_, hmem, fun hiff => nomatch hiff.2 hv⟩
  · have hmem : str s ∈ vs := (List.mem_cons.1 hs).resolve_left fun heq => hv (heq ▸ rfl)
    exact ⟨_, hmem, fun hiff => hv (hiff.1 rfl)⟩

end Value

namespace Expr

open Value

variable {scope : Scope} {args args' : List Expr} {vs ws : List Value}

theorem eval_call {n : Text} {f : Builtin} (hn : Builtin.ofName? n = some f)
    (hargs : evalAll scope args = .ok vs) : (call n args).eval scope = callBuiltin f vs := by
  simp only [eval, hargs, hn, bind, Except.bind]

/-- **`min` and `max` choose a least and a greatest value.**  Integers are ordered by their values and
texts by the code points of their characters.  Of arguments that are integers, or that are texts, no
other one is smaller than what `min` gives, or greater than what `max` gives, and the order of the
arguments does not count.  Of arguments with an integer and a text among them there is neither. -/
theorem eval_extremum (hargs : evalAll scope args = .ok vs) :
    (∀ a b, Less (.int a) (.int b) ↔ a.toInt < b.toInt) ∧
    (∀ s t, Less (.str s) (.str t) ↔ s.map Char.toNat < t.map Char.toNat) ∧
    (vs ≠ [] → Uniform vs →
      (∃ r ∈ vs, (call "min".toList args).eval scope = .ok r ∧ ∀ v ∈ vs, ¬ Less v r) ∧
      (∃ r ∈ vs, (call "max".toList args).eval scope = .ok r ∧ ∀ v ∈ vs, ¬ Less r v) ∧
      ∀ args' ws, evalAll scope args' = .ok ws → ws.Perm vs →
        (call "min".toList args').eval scope = (call "min".toList args).eval scope ∧
        (call "max".toList args').eval scope = (call "max".toList args).eval scope) ∧
    (∀ i s, .int i ∈ vs → .str s ∈ vs → ∀ n, n = "min".toList ∨ n = "max".toList →
      ∃ k l, (call n args).eval scope = .error (.unsupportedOperands (.binary .lt) k l)) := by
  have hmin : Builtin.ofName? "min".toList = some .min := by decide
  have hmax : Builtin.ofName? "max".toList = some .max := by decide
  rw [eval_call hmin hargs, eval_call hmax hargs]
  refine ⟨less_int, less_str, fun hne hvs => ⟨?_, ?_, ?_⟩, ?_⟩
  · obtain ⟨r, hr, hfirst⟩ := Chooses.min.exists_first hne hvs
    exact ⟨r, hfirst.mem, hr, fun v hv => mt less_iff_before.1 (hfirst.not_before v hv)⟩
  · obtain ⟨r, hr, hfirst⟩ := Chooses.max.exists_first hne hvs
    refine ⟨r, hfirst.mem, hr, fun v hv hless => hfirst.not_before v hv ?_⟩
    exact (hvs.alike hv hfirst.mem).before_gt_iff.2 (less_iff_before.1 hless)
  · intro args' ws hargs' hperm
    rw [eval_call hmin hargs', eval_call hmax hargs']
    exact ⟨Chooses.min.callBuiltin_perm hne hvs hperm, Chooses.max.callBuiltin_perm hne hvs hperm⟩
  · rintro i s hi hs n (rfl | rfl)
    · rw [eval_call hmin hargs]
      exact Chooses.min.callBuiltin_of_mixed hi hs
    · rw [eval_call hmax hargs]
      exact Chooses.max.callBuiltin_of_mixed hi hs

/-- Texts that begin alike, in two orders, and an integer among texts. -/
theorem eval_extremum_prefixed :
    evalAll [] [str "ab".toList, str "é".toList, str "a".toList] =
      .ok [.str "ab".toList, .str "é".toList, .str "a".toList] ∧
    Uniform [.str "ab".toList, .str "é".toList, .str "a".toList] ∧
    (call "max".toList [str "a".toList, str "ab".toList, str "é".toList]).eval [] =
      (call "max".toList [str "ab".toList, str "é".toList, str "a".toList]).eval [] ∧
    (∃ r ∈ [Value.str "ab".toList, .str "é".toList, .str "a".toList],
      (call "min".toList [str "ab".toList, str "é".toList, str "a".toList]).eval [] = .ok r ∧
      ∀ v ∈ [Value.str "ab".toList, .str "é".toList, .str "a".toList], ¬ Less v r) ∧
    evalAll [] [str "ab".toList, int 7] = .ok [.str "ab".toList, .int 7] ∧
    ∃ k l, (call "min".toList [str "ab".toList, int 7]).eval [] =
      .error (.unsupportedOperands (.binary .lt) k l) := by
  have htexts : evalAll [] [str "ab".toList, str "é".toList, str "a".toList] =
      .ok [.str "ab".toList, .str "é".toList, .str "a".toList] := rfl
  have hmixed : evalAll [] [str "ab".toList, int 7] = .ok [.str "ab".toList, .int 7] := rfl
  have huniform : Uniform [.str "ab".toList, .str "é".toList, .str "a".toList] := by
    refine .inr fun v hv => ?_
    simp only [List.mem_cons, List.not_mem_nil, or_false] at hv
    rcases hv with rfl | rfl | rfl <;> rfl
  obtain ⟨-, -, hchosen, -⟩ := eval_extremum htexts
  obtain ⟨hmin, -, hperm⟩ := hchosen (List.cons_ne_nil _ _) huniform
  obtain ⟨-, -, -, hfails⟩ := eval_extremum hmixed
  have hrotated : ([.str "a".toList] ++ [.str "ab".toList, .str "é".toList] : List Value).Perm
      ([.str "ab".toList, .str "é".toList] ++ [.str "a".toList]) := List.perm_append_comm
  exact ⟨htexts, huniform, (hperm _ _ rfl hrotated).2, hmin, hmixed,
    hfails 7 "ab".toList (by simp) (by simp) _ (.inl rfl)⟩

end Expr

end ScriptEmbed
