import Mathlib
import ScriptEmbed.Proofs.Expansion.WholeWords

/-!
# Expanding constants twice

A second pass meets the words that the first one copied and those that came with the replacements.
No other words come about: every replaced word stood between separators, and these are kept.  So
where no replacement holds a word that is a name, the second pass changes nothing.

* `expandConstants_filter` — entries with an empty name do not count;
* `Expansion.replaceRuns_eq_self` — a text without a word that is a name is left as it is;
* `Expansion.replaceRuns_runValue` — so is what stands for a single run;
* `Expansion.replaceRuns_replaceRuns` — **and so is every text after the first pass**;
* `expandConstants_idempotent` — **the pass over a text is idempotent**.
-/

namespace ScriptEmbed

open Expansion

/-- Entries with an empty name do not count. -/
theorem expandConstants_filter (constants : List Constant) (t : Text) :
    expandConstants (constants.filter fun k => !k.name.isEmpty) t = expandConstants constants t := by
  rw [expandConstants, expandConstants, List.filterMap_filter]
  congr 1
  apply List.filterMap_congr
  intro k _
  by_cases hk : k.name = []
  · simp [Slot.ofConstant?, hk]
  · simp [hk]

namespace Expansion

variable {constants : List Constant}

/-- A text without a run that is a name is left as it is. -/
theorem replaceRuns_eq_self {u : Text} (h : ∀ w ∈ Text.runs u, ∀ k ∈ constants, k.name ≠ w) :
    replaceRuns constants u = u := by
  have hruns : ∀ w ∈ Text.runs u, runValue constants w = w := by
    intro w hw
    exact runValue_eq_self (h w hw)
  calc replaceRuns constants u = (Text.runs u).flatMap fun w => w := List.flatMap_congr hruns
    _ = (Text.runs u).flatten := by rw [List.flatMap_id']
    _ = u := List.flatten_splitBy _ u

/-- Of each name the first entry puts in no maximal run of word characters that is a name. -/
def PutsInNoName (constants : List Constant) : Prop :=
  ∀ k, (constants.find? fun e => e.name == k.name) = some k →
    ∀ w ∈ Text.runs k.replacement, ∀ j ∈ constants, j.name ≠ w

/-- Leaving out the entries with an empty name, the first entry of any other name stays the first. -/
theorem PutsInNoName.filter (hp : PutsInNoName constants) :
    PutsInNoName (constants.filter fun k => !k.name.isEmpty) := by
  intro k hk w hw j hj
  have hmem := List.mem_of_find?_eq_some hk
  rw [List.mem_filter, Bool.not_eq_true', List.isEmpty_eq_false_iff] at hmem
  have hfirst : (constants.find? fun e => e.name == k.name) = some k := by
    rw [← hk, List.find?_filter]
    apply List.find?_congr
    intro e _
    by_cases he : e.name = k.name
    · simp [he, hmem.2]
    · simp [he]
  exact hp k hfirst w hw j (List.mem_of_mem_filter hj)

/-- What stands for a single run is left as it is. -/
theorem replaceRuns_runValue (hn : ∀ k ∈ constants, IsName k.name) (hp : PutsInNoName constants)
    {w : Text} (hw : ∀ c ∈ w, Text.isWord c = true) :
    replaceRuns constants (runValue constants w) = runValue constants w := by
  cases hf : constants.find? fun k => k.name == w with
  | some k =>
    have hname : k.name = w := by simpa using List.find?_some hf
    rw [runValue, hf]
    apply replaceRuns_eq_self
    apply hp k
    rw [hname]
    exact hf
  | none =>
    have hself : runValue constants w = w := by rw [runValue, hf]
    rw [hself, replaceRuns_word hn hw, hself]

/-- **What stands for a text is left as it is**: its separators stay where they were, and between
them stands what was put there for one run. -/
theorem replaceRuns_replaceRuns (hn : ∀ k ∈ constants, IsName k.name)
    (hp : PutsInNoName constants) (t : Text) :
    replaceRuns constants (replaceRuns constants t) = replaceRuns constants t := by
  induction t using Text.run_induction with
  | word w hw => rw [replaceRuns_word hn hw, replaceRuns_runValue hn hp hw]
  | separated w s r hw hs ih =>
    rw [replaceRuns_append_cons hs, replaceRuns_word hn hw, runValue_separator hn hs,
      List.append_assoc, List.singleton_append, replaceRuns_append_cons hs,
      replaceRuns_runValue hn hp hw, runValue_separator hn hs, ih, List.append_assoc,
      List.singleton_append]

end Expansion

/-- **The pass over a text is idempotent** where no replacement that counts holds a word that is a
name.  Names are made of name characters, and may be empty. -/
theorem expandConstants_idempotent {constants : List Constant}
    (hn : ∀ k ∈ constants, ∀ c ∈ k.name, Text.isNameChar c = true) (hp : PutsInNoName constants)
    (t : Text) :
    expandConstants constants (expandConstants constants t) = expandConstants constants t := by
  have hnames : ∀ k ∈ constants.filter fun k => !k.name.isEmpty, IsName k.name := by
    intro k hk
    rw [List.mem_filter, Bool.not_eq_true', List.isEmpty_eq_false_iff] at hk
    exact ⟨hk.2, hn k hk.1⟩
  simp only [← expandConstants_filter constants, expandConstants_eq_replaceRuns hnames]
  exact replaceRuns_replaceRuns hnames hp.filter t

/-- A constant without a value, one whose value holds names within longer words only, and a repeated
name with a value that does not count. -/
def settled : List Constant :=
  [⟨"A".toList, []⟩, ⟨"B".toList, "B_1 (éA)".toList⟩, ⟨"A".toList, "B".toList⟩]

theorem putsInNoName_settled : PutsInNoName settled := by
  intro k hk
  have hmem := List.mem_of_find?_eq_some hk
  simp only [settled, List.mem_cons, List.not_mem_nil, or_false] at hmem
  rcases hmem with rfl | rfl | rfl
  · decide +kernel
  · decide +kernel
  · exact absurd hk (by decide +kernel)

/-- Words that come together where a value is empty stay apart. -/
theorem expandConstants_idempotent_settled :
    (∀ k ∈ settled, ∀ c ∈ k.name, Text.isNameChar c = true) ∧ PutsInNoName settled ∧
    expandConstants settled "B-A-B".toList = "B_1 (éA)--B_1 (éA)".toList ∧
    expandConstants settled "B_1 (éA)--B_1 (éA)".toList = "B_1 (éA)--B_1 (éA)".toList := by
  have hn : ∀ k ∈ settled, ∀ c ∈ k.name, Text.isNameChar c = true := by
    simp [settled, Text.isNameChar]
  have hfirst : expandConstants settled "B-A-B".toList = "B_1 (éA)--B_1 (éA)".toList := by
    decide +kernel
  have htwice := expandConstants_idempotent hn putsInNoName_settled "B-A-B".toList
  rw [hfirst] at htwice
  exact ⟨hn, putsInNoName_settled, hfirst, htwice⟩

end ScriptEmbed
