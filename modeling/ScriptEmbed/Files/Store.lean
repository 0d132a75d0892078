import ScriptEmbed.Files.Path

/-!
# File stores

A store holds directories and files with their contents, under places counted from the root. There
are no links, symbolic or hard: nothing stands at a place but a directory or a file of its own, and
what is written at one place is seen at no other. A path is followed from the root or from the
working directory; every component but the last has to be a directory.

* `Content` — a text, or bytes that are none;
* `Store` — the entries and the working directory;
* `Store.resolve?` — the place of a path;
* `Store.readText?`, `Store.write?`, `Store.createDirs?` — the operations of a build.
-/

namespace ScriptEmbed

/-- The content of a file. -/
inductive Content where
  | text (t : Text)
  | binary (bytes : List UInt8)
  deriving DecidableEq, Repr

/-- The content that bytes make up: a text where they are valid UTF-8. -/
def Content.ofBytes (bytes : List UInt8) : Content :=
  match String.fromUTF8? ⟨bytes.toArray⟩ with
  | some s => text s.toList
  | none => binary bytes

/-- The names of the directories from the root to an entry, and the name of the entry. -/
abbrev Place := List Text

/-- What stands at a place. -/
inductive Entry where
  | file (content : Content)
  | directory
  deriving DecidableEq, Repr

/-- Entries by place, later ones first, and the working directory. No entry is a link to another. -/
structure Store where
  entries : List (Place × Entry)
  working : Place

namespace Store

/-- What stands at a place; the root and the working directory are always directories. -/
def at? (s : Store) (p : Place) : Option Entry :=
  if p = [] ∨ p = s.working then some .directory
  else (s.entries.find? fun e => e.1 == p).map Prod.snd

/-- A directory stands at a place. -/
def isDirectory (s : Store) (p : Place) : Bool := s.at? p == some .directory

/-- The store with an entry put at a place. -/
def put (s : Store) (p : Place) (e : Entry) : Store := { s with entries := (p, e) :: s.entries }

/-- Follows components from a place; each but the last leads to a directory. -/
def follow? (s : Store) : Place → List Component → Option Place
  | here, [] => some here
  | here, c :: rest =>
    if s.isDirectory here then
      match c with
      | .root => s.follow? [] rest
      | .current => s.follow? here rest
      | .parent => s.follow? here.dropLast rest
      | .name n => s.follow? (here ++ [n]) rest
    else none

/-- The place of a path. -/
def resolve? (s : Store) (p : Path) : Option Place :=
  if p.text.isEmpty then none else s.follow? s.working p.components

/-- What a path leads to. -/
def entry? (s : Store) (p : Path) : Option Entry :=
  match (s.resolve? p).bind s.at? with
  | some (.file c) => if p.asksDirectory then none else some (.file c)
  | e => e

/-- The path leads to something. -/
def doesExist (s : Store) (p : Path) : Bool := (s.entry? p).isSome

/-- The path leads to a file. -/
def isFile (s : Store) (p : Path) : Bool :=
  match s.entry? p with
  | some (.file _) => true
  | _ => false

/-- The text of a file. -/
def readText? (s : Store) (p : Path) : Option Text :=
  match s.entry? p with
  | some (.file (.text t)) => some t
  | _ => none

/-- The store with a file of the given text, which must not be a directory. -/
def write? (s : Store) (p : Path) (t : Text) : Option Store :=
  if p.asksDirectory then none
  else
    match s.resolve? p with
    | none => none
    | some place =>
      if s.isDirectory place then none else some (s.put place (.file (.text t)))

/-- Follows components from a place, making the directories that are missing. -/
def createFrom? (s : Store) : Place → List Component → Option Store
  | _, [] => some s
  | here, c :: rest =>
    match c with
    | .root => s.createFrom? [] rest
    | .current => s.createFrom? here rest
    | .parent => s.createFrom? here.dropLast rest
    | .name n =>
      match s.at? (here ++ [n]) with
      | some .directory => s.createFrom? (here ++ [n]) rest
      | some (.file _) => none
      | none => (s.put (here ++ [n]) .directory).createFrom? (here ++ [n]) rest

/-- The store with a directory and those above it. -/
def createDirs? (s : Store) (p : Path) : Option Store := s.createFrom? s.working p.components

/-- What was put into a store since an earlier state of it, in order. -/
def putSince (before after : Store) : List (Place × Entry) :=
  (after.entries.take (after.entries.length - before.entries.length)).reverse

end Store

end ScriptEmbed
