import Mathlib.Tactic
import ScriptEmbed.Build.Run
import ScriptEmbed.Proofs.Files.Writes

/-!
# What a build does to the store

A build reads everything before it writes anything, then writes the expanded modules if they are
asked for, and then the C++ file, which is refused where a module is not ASCII.  From these courses
it follows what a build leaves alone.  None of it rests on which texts are patterns, nor on how deep
expansions may go: both are arguments everywhere.

* `BuildCourse`, `buildCourse` — the four courses that a build can take;
* `build_keeps` — **the frame**: only the output and the dumped modules are written;
* `build_keeps_inputs` — an input keeps its content unless it lies where a module is dumped, and
  `build_overwrites_source` — an input that does, and is overwritten;
* `build_error_store` — **a build that fails leaves the store as it was**, apart from the dumped
  modules of a build that is refused for not being ASCII; `build_leaves_dump` — such a build.
-/

namespace ScriptEmbed

/-- The failure is one of writing a file or of making a directory. -/
def Failure.OfWriting (e : Failure) : Prop := ∃ what p, e = .unwritable what p

/-- The failure is that of a module beyond ASCII. -/
def Failure.OfAscii (e : Failure) : Prop := ∃ cause, e = .nonAscii cause

namespace BuildOptions

/-- The files that a build may read. -/
def inputs (o : BuildOptions) : List Path := o.sources ++ o.definitions.toList

/-- The paths to which the expanded modules are written where that is asked for. -/
def dumpPaths (o : BuildOptions) (c : Config) : List Path :=
  ((Sources.ofPaths o.sources c.macrosFileName o.definitions).modules.filterMap moduleId?).map
    (debugDirectory o.output).join

end BuildOptions

variable {s : Store} {o : BuildOptions} {c : Config} {pattern? : PatternReader} {depth : Nat}
  {e : Failure}

/-! ### Reading -/

theorem id_of_embed {pipeline : Pipeline} {p : Path} {m : EmbeddedModule}
    (h : embed s pipeline p = .ok m) : moduleId? p = some m.id := by
  rw [embed] at h
  split at h
  · cases h
  · rename_i id hid
    split at h
    · cases h
    · split at h
      · cases h
      · cases h
        exact hid

/-- The ids of embedded modules are the file names of their paths. -/
theorem ids_of_embedAll {pipeline : Pipeline} {ps : List Path} {ms : List EmbeddedModule}
    (h : embedAll s pipeline ps = .ok ms) :
    ms.map EmbeddedModule.id = ps.filterMap moduleId? := by
  induction ps generalizing ms with
  | nil =>
    cases h
    rfl
  | cons p ps ih =>
    cases hm : embed s pipeline p with
    | error e => simp [embedAll, hm, bind, Except.bind] at h
    | ok m =>
      cases hms : embedAll s pipeline ps with
      | error e => simp [embedAll, hm, hms, bind, Except.bind] at h
      | ok rest =>
        simp only [embedAll, hm, hms, bind, Except.bind, pure, Except.pure, Except.ok.injEq] at h
        subst h
        rw [List.map_cons, List.filterMap_cons_some (id_of_embed hm), ih hms]

theorem ids_of_expandModules {ms : List EmbeddedModule}
    (h : expandModules s o c pattern? depth = .ok ms) :
    ms.map (fun m => (debugDirectory o.output).join m.id) = o.dumpPaths c := by
  simp only [expandModules, bind, Except.bind] at h
  split at h
  · cases h
  · split at h
    · cases h
    · rw [BuildOptions.dumpPaths, ← ids_of_embedAll h, List.map_map]
      rfl

theorem embed_error {pipeline : Pipeline} {p : Path} (h : embed s pipeline p = .error e) :
    ¬ e.OfAscii := by
  rintro ⟨cause, rfl⟩
  rw [embed] at h
  repeat' split at h
  all_goals cases h

theorem embedAll_error {pipeline : Pipeline} {ps : List Path}
    (h : embedAll s pipeline ps = .error e) : ¬ e.OfAscii := by
  induction ps with
  | nil => cases h
  | cons p ps ih =>
    cases hm : embed s pipeline p with
    | error f =>
      simp only [embedAll, hm, bind, Except.bind, Except.error.injEq] at h
      exact h ▸ embed_error hm
    | ok m =>
      cases hms : embedAll s pipeline ps with
      | error f =>
        simp only [embedAll, hm, hms, bind, Except.bind, Except.error.injEq] at h
        exact ih (h ▸ hms)
      | ok rest => simp [embedAll, hm, hms, bind, Except.bind, pure, Except.pure] at h

/-- What fails before anything is written is not the check for ASCII. -/
theorem expandModules_error (h : expandModules s o c pattern? depth = .error e) : ¬ e.OfAscii := by
  simp only [expandModules, bind, Except.bind] at h
  split at h
  · rename_i f hf
    cases h
    rintro ⟨cause, rfl⟩
    rw [Sources.readDefinitions] at hf
    split at hf
    · cases hf
    · rw [readDefinitions] at hf
      repeat' split at hf
      all_goals cases hf
  · split at h
    · rename_i f hf
      cases h
      rintro ⟨cause, rfl⟩
      rw [makePipeline] at hf
      split at hf
      all_goals cases hf
    · exact embedAll_error h

/-! ### Writing -/

theorem writeModules_keeps (dir : Path) (ms : List EmbeddedModule) (s : Store) :
    s.Keeps (ms.map fun m => s.place (dir.join m.id)) (writeModules s dir ms).1 := by
  induction ms generalizing s with
  | nil => exact .refl s
  | cons m ms ih =>
    rw [writeModules]
    cases hw : s.write? (dir.join m.id) m.text with
    | none => exact (Store.Keeps.refl s).mono (List.nil_subset _)
    | some s₁ =>
      have hfirst := Store.keeps_of_write? hw
      have hrest := ih s₁
      simp only [hfirst.place_eq] at hrest
      exact hfirst.trans hrest

theorem writeModules_error {dir : Path} {ms : List EmbeddedModule}
    (h : (writeModules s dir ms).2 = .error e) : e.OfWriting := by
  induction ms generalizing s with
  | nil => cases h
  | cons m ms ih =>
    rw [writeModules] at h
    cases hw : s.write? (dir.join m.id) m.text with
    | none =>
      rw [hw] at h
      cases h
      exact ⟨_, _, rfl⟩
    | some s₁ =>
      rw [hw] at h
      exact ih h

theorem writeDebugModules_keeps (s : Store) (dir : Path) (ms : List EmbeddedModule) :
    s.Keeps (ms.map fun m => s.place (dir.join m.id)) (writeDebugModules s dir ms).1 := by
  rw [writeDebugModules]
  cases hd : s.createDirs? dir with
  | none => exact (Store.Keeps.refl s).mono (List.nil_subset _)
  | some s₁ =>
    have hdir := Store.keeps_of_createDirs? hd
    have hrest := writeModules_keeps dir ms s₁
    simp only [hdir.place_eq] at hrest
    exact hdir.trans hrest

theorem writeDebugModules_error {dir : Path} {ms : List EmbeddedModule}
    (h : (writeDebugModules s dir ms).2 = .error e) : e.OfWriting := by
  rw [writeDebugModules] at h
  cases hd : s.createDirs? dir with
  | none =>
    rw [hd] at h
    cases h
    exact ⟨_, _, rfl⟩
  | some s₁ =>
    rw [hd] at h
    exact writeModules_error h

theorem writeOutput_keeps (s : Store) (o : BuildOptions) (c : Config) (debug : Option Path)
    (ms : List EmbeddedModule) :
    s.Keeps [s.place o.output] (writeOutput s o c debug ms).1 := by
  rw [writeOutput]
  split
  · exact (Store.Keeps.refl s).mono (List.nil_subset _)
  · split
    · exact (Store.Keeps.refl s).mono (List.nil_subset _)
    · exact Store.keeps_of_write? ‹_›

/-- The C++ file is written as a whole or not at all, and is refused for nothing but a module beyond
ASCII. -/
theorem writeOutput_error {debug : Option Path} {ms : List EmbeddedModule}
    (h : (writeOutput s o c debug ms).2 = .error e) :
    (writeOutput s o c debug ms).1 = s ∧ (e.OfAscii ∨ e.OfWriting) := by
  cases hr : Cpp.render c.namespaceName c.arrayName ms with
  | error cause =>
    simp only [writeOutput, hr, Except.error.injEq] at h ⊢
    exact ⟨trivial, .inl ⟨cause, h.symm⟩⟩
  | ok file =>
    cases hw : s.write? o.output file with
    | none =>
      simp only [writeOutput, hr, hw, Except.error.injEq] at h ⊢
      exact ⟨trivial, .inr ⟨_, _, h.symm⟩⟩
    | some s₁ => simp [writeOutput, hr, hw] at h

/-! ### Courses of a build -/

/-- The courses that a build can take, each with its result: it is refused before anything is
written, it writes the C++ file only, or the expanded modules are written first, which fails or is
followed by the C++ file. -/
inductive BuildCourse (s : Store) (o : BuildOptions) (c : Config) (pattern? : PatternReader)
    (depth : Nat) : Store × Except Failure Report → Prop
  | refused {e : Failure} :
      expandModules s o c pattern? depth = .error e →
      BuildCourse s o c pattern? depth (s, .error e)
  | plain {ms : List EmbeddedModule} :
      expandModules s o c pattern? depth = .ok ms → o.debug = false →
      BuildCourse s o c pattern? depth (writeOutput s o c none ms)
  | dumpFailed {ms : List EmbeddedModule} {s₁ : Store} {e : Failure} :
      expandModules s o c pattern? depth = .ok ms → o.debug = true →
      writeDebugModules s (debugDirectory o.output) ms = (s₁, .error e) →
      BuildCourse s o c pattern? depth (s₁, .error e)
  | dumped {ms : List EmbeddedModule} {s₁ : Store} :
      expandModules s o c pattern? depth = .ok ms → o.debug = true →
      writeDebugModules s (debugDirectory o.output) ms = (s₁, .ok ()) →
      BuildCourse s o c pattern? depth (writeOutput s₁ o c (some (debugDirectory o.output)) ms)

theorem buildCourse (s : Store) (o : BuildOptions) (c : Config) (pattern? : PatternReader)
    (depth : Nat) : BuildCourse s o c pattern? depth (build s o c pattern? depth) := by
  rw [build]
  cases hm : expandModules s o c pattern? depth with
  | error e => exact .refused hm
  | ok ms =>
    cases hdebug : o.debug with
    | false => exact .plain hm hdebug
    | true =>
      cases hd : writeDebugModules s (debugDirectory o.output) ms with
      | mk s₁ r =>
        cases r with
        | error e =>
          simp only [if_true, hd]
          exact .dumpFailed hm hdebug hd
        | ok u =>
          simp only [if_true, hd]
          exact .dumped hm hdebug hd

/-- The places that a build may write. -/
def BuildOptions.written (o : BuildOptions) (c : Config) (s : Store) : List Place :=
  (if o.debug then (o.dumpPaths c).map s.place else []) ++ [s.place o.output]

/-- **The frame of a build.**  Whether it fails or not, a build changes no file but the output and,
where they are asked for, those of the expanded modules. -/
theorem build_keeps (s : Store) (o : BuildOptions) (c : Config) (pattern? : PatternReader)
    (depth : Nat) : s.Keeps (o.written c s) (build s o c pattern? depth).1 := by
  have hdump : ∀ {ms : List EmbeddedModule}, expandModules s o c pattern? depth = .ok ms →
      (ms.map fun m => s.place ((debugDirectory o.output).join m.id)) =
        (o.dumpPaths c).map s.place := fun hms => by
    rw [← ids_of_expandModules hms, List.map_map]
    rfl
  have hcourse := buildCourse s o c pattern? depth
  rw [BuildOptions.written]
  generalize build s o c pattern? depth = r at hcourse ⊢
  cases hcourse with
  | refused _ => exact (Store.Keeps.refl s).mono (List.nil_subset _)
  | plain _ hdebug =>
    rw [hdebug]
    exact writeOutput_keeps s o c none _
  | @dumpFailed ms s₁ _ hms hdebug hd =>
    have h := writeDebugModules_keeps s (debugDirectory o.output) ms
    rw [hd, hdump hms] at h
    rw [hdebug]
    exact h.mono (List.subset_append_left _ _)
  | @dumped ms s₁ hms hdebug hd =>
    have h := writeDebugModules_keeps s (debugDirectory o.output) ms
    rw [hd, hdump hms] at h
    have hout := writeOutput_keeps s₁ o c (some (debugDirectory o.output)) ms
    rw [h.place_eq] at hout
    rw [hdebug]
    exact h.trans hout

/-! ### Inputs -/

/-- **A build changes no input that lies elsewhere than where it writes.**  Whether the build fails
or not, every file among the inputs keeps its content if the output does not denote it and, where
the expanded modules are written too, none of their paths does.  A store has no links, so that nothing
else is another name of what is written. -/
theorem build_keeps_inputs (s : Store) (o : BuildOptions) (c : Config) (pattern? : PatternReader)
    (depth : Nat) :
    ∀ p ∈ o.inputs, s.place p ≠ s.place o.output →
      (o.debug = true → ∀ q ∈ o.dumpPaths c, s.place p ≠ s.place q) →
      ∀ content, s.entry? p = some (.file content) →
        Store.entry? (build s o c pattern? depth).1 p = some (.file content) := by
  intro p _ hout hdump content hfile
  refine (build_keeps s o c pattern? depth).entry?_eq (fun hmem => ?_) hfile
  rcases List.mem_append.1 hmem with hmem | hmem
  · cases hdebug : o.debug with
    | false => simp [hdebug] at hmem
    | true =>
      simp only [hdebug, if_true] at hmem
      obtain ⟨q, hq, heq⟩ := List.mem_map.1 hmem
      exact hdump hdebug q hq heq.symm
  · exact hout (List.mem_singleton.1 hmem)

/-! ### Failures -/

/-- **A build that fails leaves the store as it was**, as long as no writing fails, in all cases but
one: a build that writes the expanded modules and is then refused for a module beyond ASCII leaves
all of them written, and nothing else.  Patterns that cannot be read are among the other failures. -/
theorem build_error_store (h : (build s o c pattern? depth).2 = .error e) (hw : ¬ e.OfWriting) :
    (o.debug = false ∨ ¬ e.OfAscii → (build s o c pattern? depth).1 = s) ∧
    (o.debug = true → e.OfAscii → ∃ ms, expandModules s o c pattern? depth = .ok ms ∧
      writeDebugModules s (debugDirectory o.output) ms = ((build s o c pattern? depth).1, .ok ())) := by
  have hcourse := buildCourse s o c pattern? depth
  generalize build s o c pattern? depth = r at h hcourse ⊢
  cases hcourse with
  | refused hms =>
    cases h
    exact ⟨fun _ => rfl, fun _ hascii => absurd hascii (expandModules_error hms)⟩
  | plain hms hdebug =>
    refine ⟨fun _ => (writeOutput_error h).1, fun hdebug' => ?_⟩
    rw [hdebug] at hdebug'
    cases hdebug'
  | dumpFailed hms hdebug hd =>
    cases h
    exact absurd (writeDebugModules_error (congrArg Prod.snd hd)) hw
  | dumped hms hdebug hd =>
    obtain ⟨hstore, hascii⟩ := writeOutput_error h
    have hascii := hascii.resolve_right hw
    refine ⟨fun hor => ?_, fun _ _ => ⟨_, hms, ?_⟩⟩
    · rcases hor with hfalse | hnot
      · rw [hdebug] at hfalse
        cases hfalse
      · exact absurd hascii hnot
    · rw [hstore, hd]

/-! ### Two builds -/

/-- A module in a directory `js`, and definitions. -/
def moduleBelowOutput : Store :=
  ⟨[(["w".toList, "js".toList, "a.js".toList], .file (.text "kN".toList)),
    (["w".toList, "js".toList], .directory),
    (["w".toList, "macros.py".toList], .file (.text "const kN = 1;".toList))], ["w".toList]⟩

/-- A build of these with the output beside the directory. -/
def buildOverSource : BuildOptions :=
  ⟨.ofString "out.cc", [.ofString "macros.py", .ofString "js/a.js"], none, true⟩

/-- **A build that overwrites a module it reads**, though the output denotes none of its inputs:
the module lies in the directory in which the expanded modules are written. -/
theorem build_overwrites_source :
    (∀ p ∈ buildOverSource.inputs,
      moduleBelowOutput.place p ≠ moduleBelowOutput.place buildOverSource.output) ∧
    Path.ofString "js/a.js" ∈ buildOverSource.inputs ∧
    moduleBelowOutput.entry? (.ofString "js/a.js") = some (.file (.text "kN".toList)) ∧
    Store.entry? (build moduleBelowOutput buildOverSource .standard).1 (.ofString "js/a.js") =
      some (.file (.text "1".toList)) := by
  have hms : expandModules moduleBelowOutput buildOverSource .standard =
    .ok [⟨"a.js".toList, "1".toList⟩] := by decide +kernel
  refine ⟨fun p hp => ?_, List.mem_cons_of_mem _ List.mem_cons_self, by rfl, ?_⟩
  · rcases List.mem_cons.1 hp with rfl | hp
    · decide +kernel
    · rw [List.mem_singleton.1 hp]
      decide +kernel
  · rw [build, hms]
    rfl

/-- In the same build, the definitions file lies elsewhere and keeps its content. -/
theorem build_keeps_inputs_definitions :
    Path.ofString "macros.py" ∈ buildOverSource.inputs ∧
    moduleBelowOutput.place (.ofString "macros.py") ≠
      moduleBelowOutput.place buildOverSource.output ∧
    (∀ q ∈ buildOverSource.dumpPaths .standard,
      moduleBelowOutput.place (.ofString "macros.py") ≠ moduleBelowOutput.place q) ∧
    moduleBelowOutput.entry? (.ofString "macros.py") =
      some (.file (.text "const kN = 1;".toList)) ∧
    Store.entry? (build moduleBelowOutput buildOverSource .standard).1 (.ofString "macros.py") =
      some (.file (.text "const kN = 1;".toList)) := by
  have hmem : Path.ofString "macros.py" ∈ buildOverSource.inputs := List.mem_cons_self
  have hout : moduleBelowOutput.place (.ofString "macros.py") ≠
    moduleBelowOutput.place buildOverSource.output := by decide +kernel
  have hpaths : buildOverSource.dumpPaths .standard = [.ofString "js/a.js"] := by rfl
  have hdump : ∀ q ∈ buildOverSource.dumpPaths .standard,
      moduleBelowOutput.place (.ofString "macros.py") ≠ moduleBelowOutput.place q := by
    intro q hq
    rw [hpaths, List.mem_singleton] at hq
    rw [hq]
    decide +kernel
  have hfile : moduleBelowOutput.entry? (.ofString "macros.py") =
    some (.file (.text "const kN = 1;".toList)) := by rfl
  exact ⟨hmem, hout, hdump, hfile,
    build_keeps_inputs moduleBelowOutput buildOverSource .standard Pattern.parse? defaultDepth _
      hmem hout (fun _ => hdump) _ hfile⟩

/-- A module beyond ASCII. -/
def moduleBeyondAscii : Store :=
  ⟨[(["w".toList, "a.js".toList], .file (.text "é".toList))], ["w".toList]⟩

/-- A build of it that writes the expanded modules too. -/
def buildBeyondAscii : BuildOptions := ⟨.ofString "out.cc", [.ofString "a.js"], none, true⟩

theorem expandModules_beyondAscii :
    expandModules moduleBeyondAscii buildBeyondAscii .standard =
      .ok [⟨"a.js".toList, "é".toList⟩] := by
  decide +kernel

theorem build_beyondAscii :
    (build moduleBeyondAscii buildBeyondAscii .standard).2 =
      .error (.nonAscii ⟨"a.js".toList, 0, 0xC3⟩) := by
  rw [build, expandModules_beyondAscii]
  rfl

/-- **A build that fails and leaves a file**: nothing was below `js` before. -/
theorem build_leaves_dump :
    (build moduleBeyondAscii buildBeyondAscii .standard).2 =
      .error (.nonAscii ⟨"a.js".toList, 0, 0xC3⟩) ∧
    moduleBeyondAscii.entry? (.ofString "js") = none ∧
    Store.entry? (build moduleBeyondAscii buildBeyondAscii .standard).1 (.ofString "js/a.js") =
      some (.file (.text "é".toList)) := by
  refine ⟨build_beyondAscii, by rfl, ?_⟩
  rw [build, expandModules_beyondAscii]
  rfl

/-- What this build leaves is what writing the expanded modules alone leaves. -/
theorem build_error_store_beyondAscii :
    (build moduleBeyondAscii buildBeyondAscii .standard).2 =
      .error (.nonAscii ⟨"a.js".toList, 0, 0xC3⟩) ∧
    ¬ (Failure.nonAscii ⟨"a.js".toList, 0, 0xC3⟩).OfWriting ∧
    ∃ ms, expandModules moduleBeyondAscii buildBeyondAscii .standard = .ok ms ∧
      writeDebugModules moduleBeyondAscii (debugDirectory buildBeyondAscii.output) ms =
        ((build moduleBeyondAscii buildBeyondAscii .standard).1, .ok ()) := by
  have hw : ¬ (Failure.nonAscii ⟨"a.js".toList, 0, 0xC3⟩).OfWriting := by
    rintro ⟨what, p, h⟩
    cases h
  exact ⟨build_beyondAscii, hw, (build_error_store build_beyondAscii hw).2 rfl ⟨_, rfl⟩⟩

end ScriptEmbed
