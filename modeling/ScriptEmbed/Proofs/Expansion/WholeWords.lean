import Mathlib
import ScriptEmbed.Proofs.Expansion.Locality

/-!
# Constants as a map on words

A text is cut into its maximal runs of word characters and the separators between them.  Expanding
constants replaces the runs that are names of constants and copies the rest, all at once: what stands
for a run depends on that run alone.

* `Text.runs` — the cut;
* `Expansion.runValue`, `Expansion.replaceRuns` — what a run becomes, and the map over all runs;
* `Expansion.scanConstants_word` — the scan of a single run;
* `expandConstants_eq_replaceRuns` — the pass over a text is that map;
* `expandConstants_wholeWords` — **the same, with what follows from it**: entries that repeat a name
  and the order of entries with distinct names do not matter.
-/

namespace ScriptEmbed

namespace Text

theorem isWordSide_some (c : Char) : isWordSide (some c) = isWord c := rfl

theorem isWordSide_getLast? {w : Text} (hne : w ≠ []) (hw : ∀ c ∈ w, isWord c = true) :
    isWordSide w.getLast? = true := by
  rw [List.getLast?_eq_some_getLast hne]
  exact hw _ (List.getLast_mem hne)

/-! ### Runs -/

/-- The text cut between any two neighbours that are not both word characters: its maximal runs of
word characters, and every separator on its own. -/
def runs (t : Text) : List Text := t.splitBy fun a b => isWord a && isWord b

@[simp] theorem runs_nil : runs [] = [] := rfl

theorem runs_word {w : Text} (hne : w ≠ []) (hw : ∀ c ∈ w, isWord c = true) : runs w = [w] := by
  refine List.splitBy_of_isChain hne (List.Pairwise.isChain ?_)
  refine List.pairwise_of_forall_mem_list fun a ha b hb => ?_
  rw [hw a ha, hw b hb]
  rfl

/-- A separator is a cut on either side of it. -/
theorem runs_append_cons {s : Char} (hs : isWord s = false) (t r : Text) :
    runs (t ++ s :: r) = runs t ++ [s] :: runs r := by
  have hleft : runs (t ++ s :: r) = runs t ++ runs (s :: r) :=
    List.splitBy_append_cons r fun a _ => by rw [hs, Bool.and_false]
  have hright : runs ([s] ++ r) = runs [s] ++ runs r :=
    List.splitBy_append fun a ha b _ => by
      rw [List.getLast?_singleton, Option.mem_some_iff] at ha
      rw [← ha, hs, Bool.false_and]
  rw [hleft]
  exact congrArg (runs t ++ ·) hright

/-- Texts are built from runs of word characters by appending a separator and a further text. -/
theorem run_induction {motive : Text → Prop}
    (word : ∀ w : Text, (∀ c ∈ w, isWord c = true) → motive w)
    (separated : ∀ (w : Text) (s : Char) (r : Text), (∀ c ∈ w, isWord c = true) →
      isWord s = false → motive r → motive (w ++ s :: r)) (t : Text) : motive t := by
  induction hlen : t.length using Nat.strong_induction_on generalizing t with
  | _ n ih =>
    have hword : ∀ c ∈ t.takeWhile isWord, isWord c = true := fun c hc =>
      List.all_eq_true.1 List.all_takeWhile c hc
    have hsplit : t.takeWhile isWord ++ t.dropWhile isWord = t := List.takeWhile_append_dropWhile
    cases hrest : t.dropWhile isWord with
    | nil =>
      rw [hrest, List.append_nil] at hsplit
      exact hsplit ▸ word _ hword
    | cons s r =>
      have hs : isWord s = false := by
        have := List.head?_dropWhile_not isWord t
        rw [hrest] at this
        exact this
      rw [hrest] at hsplit
      have hlt : r.length < n := by
        rw [← hlen, ← hsplit, List.length_append, List.length_cons]
        omega
      exact hsplit ▸ separated _ s r hword hs (ih r.length hlt r rfl)

end Text

namespace Expansion

variable {constants : List Constant}

/-! ### The map -/

/-- What a run of a text becomes: the value of the first constant of that name, or itself. -/
def runValue (constants : List Constant) (r : Text) : Text :=
  match constants.find? fun k => k.name == r with
  | some k => k.replacement
  | none => r

/-- The text with every run replaced that is the name of a constant. -/
def replaceRuns (constants : List Constant) (t : Text) : Text :=
  (Text.runs t).flatMap (runValue constants)

theorem replaceRuns_append_cons {s : Char} (hs : Text.isWord s = false) (t r : Text) :
    replaceRuns constants (t ++ s :: r) =
      replaceRuns constants t ++ runValue constants [s] ++ replaceRuns constants r := by
  rw [replaceRuns, Text.runs_append_cons hs, List.flatMap_append, List.flatMap_cons,
    ← List.append_assoc]
  rfl

theorem runValue_eq_self {r : Text} (h : ∀ k ∈ constants, k.name ≠ r) :
    runValue constants r = r := by
  have hnone : constants.find? (fun k => k.name == r) = none :=
    List.find?_eq_none.2 fun k hk => by simpa using h k hk
  rw [runValue, hnone]

/-- No name holds a separator. -/
theorem runValue_separator (hn : ∀ k ∈ constants, IsName k.name) {s : Char}
    (hs : Text.isWord s = false) : runValue constants [s] = [s] := by
  refine runValue_eq_self fun k hk heq => (hn k hk).not_mem hs ?_
  rw [heq]
  exact List.mem_singleton_self s

/-! ### The scan of a run -/

/-- Within a run, a name that starts at its start is the whole run. -/
theorem occursAt_word {n w : Text} (hn : IsName n) (hw : ∀ c ∈ w, Text.isWord c = true) :
    occursAt n none w = (n == w) := by
  by_cases heq : n = w
  · subst heq
    obtain ⟨a, m, rfl⟩ := List.exists_cons_of_ne_nil hn.ne_nil
    have hlast := Text.isWordSide_getLast? hn.ne_nil hw
    have hfirst : Text.isWord a = true := hw a List.mem_cons_self
    rw [occursAt, List.drop_length, List.head?_cons, List.head?_nil, Text.isBoundary,
      Text.isBoundary, hlast, Text.isWordSide_some, hfirst, beq_self_eq_true,
      List.isPrefixOf_iff_prefix.2 (List.prefix_refl _)]
    rfl
  · rw [beq_eq_false_iff_ne.2 heq, occursAt]
    cases hp : n.isPrefixOf w with
    | false => rfl
    | true =>
      obtain ⟨tail, rfl⟩ := List.isPrefixOf_iff_prefix.1 hp
      cases tail with
      | nil => exact absurd (List.append_nil n).symm heq
      | cons d tail =>
        -- the name ends within the run, where there is no boundary
        have hlast := Text.isWordSide_getLast? hn.ne_nil fun c hc =>
          hw c (List.mem_append_left _ hc)
        have hd : Text.isWord d = true := hw d (List.mem_append_right _ List.mem_cons_self)
        rw [List.drop_left, List.head?_cons, Text.isBoundary, Text.isBoundary, hlast,
          Text.isWordSide_some, hd, bne_self_eq_false, Bool.and_false]

theorem firstAt?_word (hn : ∀ k ∈ constants, IsName k.name) {w : Text}
    (hw : ∀ c ∈ w, Text.isWord c = true) :
    firstAt? constants none w = constants.find? fun k => k.name == w := by
  refine List.find?_congr fun k hk => ?_
  rw [occursAt_word (hn k hk) hw, List.isEmpty_eq_false_iff.2 (hn k hk).ne_nil]
  rfl

/-- After a word character, the rest of a run holds no name. -/
theorem scanConstants_inside {w : Text} (hw : ∀ c ∈ w, Text.isWord c = true) :
    ∀ before, Text.isWordSide before = true → scanConstants constants before w = w := by
  induction w with
  | nil => exact fun before _ => scanConstants_nil constants before
  | cons c w ih =>
    intro before hbefore
    have hc : Text.isWord c = true := hw c List.mem_cons_self
    have hnone : firstAt? constants before (c :: w) = none := by
      refine firstAt?_eq_none.2 fun k _ _ => ?_
      rw [occursAt, List.head?_cons, Text.isBoundary, hbefore, Text.isWordSide_some, hc,
        bne_self_eq_false, Bool.and_false, Bool.false_and]
    rw [scanConstants_copy hnone, ih (fun d hd => hw d (List.mem_cons_of_mem c hd)) (some c) hc]

/-- **The scan of a single run.** -/
theorem scanConstants_word (hn : ∀ k ∈ constants, IsName k.name) {w : Text}
    (hw : ∀ c ∈ w, Text.isWord c = true) :
    scanConstants constants none w = runValue constants w := by
  cases hf : firstAt? constants none w with
  | some k =>
    have hfind := hf
    rw [firstAt?_word hn hw] at hfind
    have hname : k.name = w := by simpa using List.find?_some hfind
    rw [scanConstants_replace hf, runValue, hfind, hname, List.drop_length, scanConstants_nil,
      List.append_nil]
  | none =>
    have hfind := hf
    rw [firstAt?_word hn hw] at hfind
    rw [runValue, hfind]
    cases w with
    | nil => exact scanConstants_nil constants none
    | cons c w =>
      rw [scanConstants_copy hf]
      exact congrArg (c :: ·)
        (scanConstants_inside (fun d hd => hw d (List.mem_cons_of_mem c hd)) _
          (hw c List.mem_cons_self))

theorem replaceRuns_word (hn : ∀ k ∈ constants, IsName k.name) {w : Text}
    (hw : ∀ c ∈ w, Text.isWord c = true) :
    replaceRuns constants w = runValue constants w := by
  by_cases hne : w = []
  · rw [hne, runValue_eq_self fun k hk => (hn k hk).ne_nil]
    rfl
  · rw [replaceRuns, Text.runs_word hne hw, List.flatMap_singleton]

/-- **The scan is the map over the runs**, as both are cut by every separator. -/
theorem scanConstants_eq_replaceRuns (hn : ∀ k ∈ constants, IsName k.name) (t : Text) :
    scanConstants constants none t = replaceRuns constants t := by
  induction t using Text.run_induction with
  | word w hw => rw [scanConstants_word hn hw, replaceRuns_word hn hw]
  | separated w s r hw hs ih =>
    rw [scanConstants_append_cons hn hs, replaceRuns_append_cons hs, ih,
      scanConstants_word hn hw, replaceRuns_word hn hw, runValue_separator hn hs,
      List.append_assoc]
    rfl

/-! ### Tables with the same first entries -/

theorem find?_erase_repeated {pre post : List Constant} {k : Constant}
    (h : ∃ j ∈ pre, j.name = k.name) (n : Text) :
    ((pre ++ post).find? fun e => e.name == n) =
      (pre ++ k :: post).find? fun e => e.name == n := by
  rw [List.find?_append, List.find?_append, List.find?_cons]
  by_cases hk : k.name = n
  · obtain ⟨j, hj, hname⟩ := h
    have hsome : (pre.find? fun e => e.name == n).isSome = true :=
      List.find?_isSome.2 ⟨j, hj, beq_iff_eq.2 (hname.trans hk)⟩
    obtain ⟨i, hi⟩ := Option.isSome_iff_exists.1 hsome
    rw [hi]
    rfl
  · rw [beq_eq_false_iff_ne.2 hk]

theorem find?_swap {pre post : List Constant} {j k : Constant} (h : j.name ≠ k.name) (n : Text) :
    ((pre ++ k :: j :: post).find? fun e => e.name == n) =
      (pre ++ j :: k :: post).find? fun e => e.name == n := by
  rw [List.find?_append, List.find?_append]
  congr 1
  simp only [List.find?_cons]
  by_cases hj : j.name = n
  · have hk : k.name ≠ n := fun hk => h (hj.trans hk.symm)
    rw [beq_iff_eq.2 hj, beq_eq_false_iff_ne.2 hk]
  · rw [beq_eq_false_iff_ne.2 hj]

end Expansion

open Expansion

theorem expandConstants_eq_replaceRuns {constants : List Constant}
    (hn : ∀ k ∈ constants, IsName k.name) (t : Text) :
    expandConstants constants t = replaceRuns constants t := by
  rw [expandConstants_eq_scan, scanConstants_eq_replaceRuns hn]

/-- Of the entries of one name, only the first counts. -/
theorem expandConstants_congr {ks constants : List Constant}
    (hn : ∀ k ∈ constants, IsName k.name) (hks : ks ⊆ constants)
    (h : ∀ n, (ks.find? fun k => k.name == n) = constants.find? fun k => k.name == n) (t : Text) :
    expandConstants ks t = expandConstants constants t := by
  have hvalue : runValue ks = runValue constants := by
    funext r
    rw [runValue, runValue, h r]
  rw [expandConstants_eq_replaceRuns hn, expandConstants_eq_replaceRuns fun k hk => hn k (hks hk),
    replaceRuns, replaceRuns, hvalue]

/-- **Expansion of constants is a map on words.**  Every maximal run of word characters that is the
name of a constant becomes the value of the first constant of that name, and all else is copied.
Hence an entry that repeats an earlier name can be left out, entries of distinct names can stand in
any order, and in every table two neighbours of distinct names can change places. -/
theorem expandConstants_wholeWords {constants : List Constant}
    (hn : ∀ k ∈ constants, IsName k.name) :
    (∀ t, expandConstants constants t = replaceRuns constants t) ∧
    (∀ pre k post, constants = pre ++ k :: post → (∃ j ∈ pre, j.name = k.name) →
      ∀ t, expandConstants (pre ++ post) t = expandConstants constants t) ∧
    (∀ constants' : List Constant, constants'.Perm constants →
      (constants.map Constant.name).Nodup →
      ∀ t, expandConstants constants' t = expandConstants constants t) ∧
    (∀ pre j k post, constants = pre ++ j :: k :: post → j.name ≠ k.name →
      ∀ t, expandConstants (pre ++ k :: j :: post) t = expandConstants constants t) := by
  refine ⟨expandConstants_eq_replaceRuns hn, ?_, ?_, ?_⟩
  · rintro pre k post rfl hrep
    have hsub : pre ++ post ⊆ pre ++ k :: post :=
      ((List.sublist_cons_self k post).append_left pre).subset
    exact expandConstants_congr hn hsub (find?_erase_repeated hrep)
  · intro constants' hperm hnodup
    exact expandConstants_congr hn hperm.subset (find?_perm hperm hnodup)
  · rintro pre j k post rfl hne
    have hperm : (pre ++ k :: j :: post).Perm (pre ++ j :: k :: post) :=
      (List.Perm.swap j k post).append_left pre
    exact expandConstants_congr hn hperm.subset (find?_swap hne)

/-- A constant whose value names another, that other, and a repeated name. -/
def shadowed : List Constant :=
  [⟨"A".toList, "1 B".toList⟩, ⟨"B".toList, "2".toList⟩, ⟨"A".toList, "3".toList⟩]

/-- Names within longer words stay, values are not replaced again, the repeated entry and the order
of the first two do not matter. -/
theorem expandConstants_wholeWords_shadowed :
    (∀ k ∈ shadowed, IsName k.name) ∧
    expandConstants shadowed "A, BA, A_B éA B".toList = "1 B, BA, A_B éA 2".toList ∧
    expandConstants (shadowed.take 2) "A B".toList = expandConstants shadowed "A B".toList ∧
    expandConstants (shadowed.take 2).reverse "A B".toList =
      expandConstants (shadowed.take 2) "A B".toList := by
  have hn : ∀ k ∈ shadowed, IsName k.name := by decide
  have hn₂ : ∀ k ∈ shadowed.take 2, IsName k.name := fun k hk => hn k (List.mem_of_mem_take hk)
  obtain ⟨hmap, hrep, -, -⟩ := expandConstants_wholeWords hn
  obtain ⟨-, -, hperm, -⟩ := expandConstants_wholeWords hn₂
  refine ⟨hn, ?_, ?_, ?_⟩
  · rw [hmap]
    decide +kernel
  · exact hrep (shadowed.take 2) ⟨"A".toList, "3".toList⟩ [] rfl
      ⟨⟨"A".toList, "1 B".toList⟩, List.mem_cons_self, rfl⟩ _
  · exact hperm _ (List.reverse_perm _) (by decide) _

end ScriptEmbed
