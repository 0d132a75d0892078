import Mathlib.Tactic
import ScriptEmbed.Files.Store

/-!
# What writing to a store leaves alone

Writing a file changes the store at one place, and making directories adds them where nothing was.
A directory is never replaced, so that a path leads to the same place before and after.

* `Store.place` — the place that a path denotes, by its components alone;
* `Store.eq_place_of_resolve?` — a path that can be followed leads to the place it denotes;
* `Store.Keeps` — **the frame**: of one store and a later one, what is the same in both outside the
  places that were written;
* `Store.keeps_of_write?`, `Store.keeps_of_createDirs?` — writing and making directories keep it;
* `Store.Keeps.entry?_eq` — a file that is not written keeps its content under every path to it.
-/

namespace ScriptEmbed

/-- The place that a component leads to. -/
def Component.lead (here : Place) : Component → Place
  | .root => []
  | .current => here
  | .parent => here.dropLast
  | .name n => here ++ [n]

namespace Store

variable {s s' s'' : Store}

/-! ### The place of a path -/

/-- The place that a path denotes, whether or not the directories on the way are there. -/
def place (s : Store) (p : Path) : Place := p.components.foldl Component.lead s.working

theorem follow?_cons (s : Store) (here : Place) (c : Component) (rest : List Component) :
    s.follow? here (c :: rest) =
      if s.isDirectory here then s.follow? (c.lead here) rest else none := by
  cases c <;> rfl

theorem eq_of_follow? {here q : Place} {cs : List Component} (h : s.follow? here cs = some q) :
    q = cs.foldl Component.lead here := by
  induction cs generalizing here with
  | nil => exact (Option.some.inj h).symm
  | cons c rest ih =>
    rw [follow?_cons] at h
    split at h
    · exact ih h
    · cases h

theorem eq_place_of_resolve? {p : Path} {q : Place} (h : s.resolve? p = some q) :
    q = s.place p := by
  rw [resolve?] at h
  split at h
  · cases h
  · exact eq_of_follow? h

/-! ### The frame -/

/-- What a store has in common with a later one in which files may have been written at the given
places: the working directory, all directories, and all files at other places. -/
structure Keeps (written : List Place) (s s' : Store) : Prop where
  working : s'.working = s.working
  directory : ∀ q, s.at? q = some .directory → s'.at? q = some .directory
  file : ∀ q c, q ∉ written → s.at? q = some (.file c) → s'.at? q = some (.file c)

theorem Keeps.refl (s : Store) : Keeps [] s s := ⟨rfl, fun _ h => h, fun _ _ _ h => h⟩

theorem Keeps.mono {written written' : List Place} (h : Keeps written s s')
    (hsub : written ⊆ written') : Keeps written' s s' :=
  ⟨h.working, h.directory, fun q c hq => h.file q c fun hmem => hq (hsub hmem)⟩

theorem Keeps.trans {written written' : List Place} (h : Keeps written s s')
    (h' : Keeps written' s' s'') : Keeps (written ++ written') s s'' := by
  refine ⟨h'.working.trans h.working, fun q hq => h'.directory q (h.directory q hq), ?_⟩
  intro q c hq hfile
  rw [List.mem_append, not_or] at hq
  exact h'.file q c hq.2 (h.file q c hq.1 hfile)

/-- Where nothing was, nothing was overwritten. -/
theorem Keeps.of_absent {q : Place} (h : Keeps [q] s s') (hq : s.at? q = none) :
    Keeps [] s s' := by
  refine ⟨h.working, h.directory, fun r c _ hr => h.file r c ?_ hr⟩
  rw [List.mem_singleton]
  rintro rfl
  rw [hq] at hr
  cases hr

/-! ### Putting entries -/

theorem at?_put_of_ne {p q : Place} (h : p ≠ q) (e : Entry) :
    (s.put p e).at? q = s.at? q := by
  rw [at?, at?]
  simp only [put, List.find?_cons, beq_eq_false_iff_ne.2 h]

theorem keeps_put {p : Place} (h : s.isDirectory p = false) (e : Entry) :
    Keeps [p] s (s.put p e) := by
  refine ⟨rfl, fun q hq => ?_, fun q c hq hfile => ?_⟩
  · have hne : p ≠ q := by
      rintro rfl
      rw [isDirectory, hq] at h
      cases h
    rw [at?_put_of_ne hne, hq]
  · have hne : p ≠ q := fun heq => hq (List.mem_singleton.2 heq.symm)
    rw [at?_put_of_ne hne, hfile]

/-- Writing a file leaves everything alone but the place that the path denotes. -/
theorem keeps_of_write? {p : Path} {t : Text} (h : s.write? p t = some s') :
    Keeps [s.place p] s s' := by
  rw [write?] at h
  split at h
  · cases h
  · split at h
    · cases h
    · rename_i q hq
      split at h
      · cases h
      · rename_i hdir
        cases h
        rw [← eq_place_of_resolve? hq]
        exact keeps_put (Bool.eq_false_iff.2 hdir) _

theorem keeps_of_createFrom? {here : Place} {cs : List Component}
    (h : s.createFrom? here cs = some s') : Keeps [] s s' := by
  induction cs generalizing s here with
  | nil =>
    cases h
    exact .refl _
  | cons c rest ih =>
    cases c with
    | root => exact ih h
    | current => exact ih h
    | parent => exact ih h
    | name n =>
      rw [createFrom?] at h
      cases hat : s.at? (here ++ [n]) with
      | some e =>
        rw [hat] at h
        cases e with
        | directory => exact ih h
        | file c => cases h
      | none =>
        rw [hat] at h
        have hdir : s.isDirectory (here ++ [n]) = false := by
          rw [isDirectory, hat]
          rfl
        exact ((keeps_put hdir .directory).of_absent hat).trans (ih h)

/-- Making a directory leaves everything alone that is there. -/
theorem keeps_of_createDirs? {p : Path} (h : s.createDirs? p = some s') : Keeps [] s s' :=
  keeps_of_createFrom? h

/-! ### Paths in a store that keeps another -/

namespace Keeps

variable {written : List Place}

theorem place_eq (h : Keeps written s s') (p : Path) : s'.place p = s.place p := by
  rw [place, place, h.working]

theorem follow?_eq (h : Keeps written s s') {here q : Place} {cs : List Component}
    (hf : s.follow? here cs = some q) : s'.follow? here cs = some q := by
  induction cs generalizing here with
  | nil => exact hf
  | cons c rest ih =>
    rw [follow?_cons] at hf ⊢
    split at hf
    · rename_i hdir
      have hdir' : s'.isDirectory here = true :=
        beq_iff_eq.2 (h.directory here (beq_iff_eq.1 hdir))
      rw [if_pos hdir']
      exact ih hf
    · cases hf

theorem resolve?_eq (h : Keeps written s s') {p : Path} {q : Place}
    (hr : s.resolve? p = some q) : s'.resolve? p = some q := by
  rw [resolve?] at hr ⊢
  split at hr
  · cases hr
  · rw [if_neg ‹_›, h.working]
    exact h.follow?_eq hr

/-- A file at a place that is not written keeps its content under every path that leads to it. -/
theorem entry?_eq (h : Keeps written s s') {p : Path} {c : Content} (hp : s.place p ∉ written)
    (hc : s.entry? p = some (.file c)) : s'.entry? p = some (.file c) := by
  cases hr : s.resolve? p with
  | none => simp [hr, entry?] at hc
  | some q =>
    rw [← eq_place_of_resolve? hr] at hp
    unfold entry? at hc ⊢
    rw [hr, Option.bind_some] at hc
    rw [h.resolve?_eq hr, Option.bind_some]
    cases hq : s.at? q with
    | none => simp [hq] at hc
    | some e =>
      rw [hq] at hc
      cases e with
      | directory => cases hc
      | file d => rwa [h.file q d hp hq]

end Keeps

end Store

end ScriptEmbed
