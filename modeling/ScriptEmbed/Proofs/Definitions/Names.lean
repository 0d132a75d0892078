import Mathlib.Tactic
import ScriptEmbed.Definitions.Basic
import ScriptEmbed.Text.Word

/-!
# Well-formed names

The laws on expansion rest on three facts about tables: names are made of name characters, they are
not empty, and neither are parameters.  Reading a definitions file establishes them.

* `IsName` — a declared name;
* `Definitions.WellNamed` — tables of well-formed names only;
* `find?_perm` — where no name repeats, a look-up does not depend on the order of the entries.
-/

namespace ScriptEmbed

/-- A declared name: at least one character, and name characters only. -/
structure IsName (n : Text) : Prop where
  ne_nil : n ≠ []
  isNameChar : ∀ c ∈ n, Text.isNameChar c = true

instance (n : Text) : Decidable (IsName n) :=
  decidable_of_iff (n ≠ [] ∧ n.all Text.isNameChar = true)
    ⟨fun h => ⟨h.1, List.all_eq_true.1 h.2⟩, fun h => ⟨h.ne_nil, List.all_eq_true.2 h.isNameChar⟩⟩

/-- All names are well-formed, and no parameter is empty. -/
structure Definitions.WellNamed (d : Definitions) : Prop where
  constants : ∀ c ∈ d.constants, IsName c.name
  macros : ∀ m ∈ d.macros, IsName m.name
  params : ∀ m ∈ d.macros, ∀ p ∈ m.body.params, p ≠ []

/-- Where no name repeats, the entry of a name is found in any order of the entries. -/
theorem find?_perm {α : Type} {name : α → Text} {entries entries' : List α}
    (h : entries'.Perm entries) (hnodup : (entries.map name).Nodup) (n : Text) :
    (entries'.find? fun e => name e == n) = entries.find? fun e => name e == n := by
  symm
  apply List.find?_eq_find?_of_perm h.symm
  intro e he f hf
  have hname : name e = name f := (beq_iff_eq.1 he.2).trans (beq_iff_eq.1 hf.2).symm
  exact List.inj_on_of_nodup_map hnodup he.1 hf.1 hname

end ScriptEmbed
