import ScriptEmbed.Config.Yaml.Token

/-!
# Nodes

The tokens of a settings file make up a tree of scalars, lists and maps. A node may carry an
anchor and a tag; a reference stands for the node that carries an anchor.

* `Node` — the trees;
* `Anchors` — the anchors so far, by name;
* `Node.read?` — a node at the start of a list of tokens;
* `Document` — a tree, with `Document.resolve`, the node that a reference stands for;
* `Document.ofTokens?`, `Document.parse?` — the only document of a file.

Recursion is bounded by a count that `Document.ofTokens?` takes from the number of tokens.
-/

namespace ScriptEmbed.Yaml

/-- What a node carries. Anchors are numbered. -/
structure Properties where
  anchor : Option Nat
  tag : Option Octets
  deriving DecidableEq, Repr

/-- A node carries nothing. -/
def Properties.none : Properties := ⟨.none, .none⟩

/-- A tree of settings. -/
inductive Node where
  | reference (anchor : Nat)
  | scalar (properties : Properties) (style : Style) (text : Text)
  | list (properties : Properties) (items : List Node)
  | map (properties : Properties) (entries : List (Node × Node))
  deriving Inhabited

namespace Node

/-- A plain scalar without text. -/
def empty : Node := scalar .none .plain []

mutual

/-- The nodes with an anchor in a tree, by the number of their anchor, from the first on. -/
def anchored (root : Node) : List (Nat × Node) :=
  match root with
  | reference _ => []
  | scalar p _ _ => p.anchor.toList.map fun a => (a, root)
  | list p items => (p.anchor.toList.map fun a => (a, root)) ++ anchoredItems items
  | map p entries => (p.anchor.toList.map fun a => (a, root)) ++ anchoredEntries entries

/-- The nodes with an anchor in the items of a list. -/
def anchoredItems : List Node → List (Nat × Node)
  | [] => []
  | v :: rest => anchored v ++ anchoredItems rest

/-- The nodes with an anchor in the entries of a map. -/
def anchoredEntries : List (Node × Node) → List (Nat × Node)
  | [] => []
  | (k, v) :: rest => anchored k ++ anchored v ++ anchoredEntries rest

end

end Node

/-! ### Anchors -/

/-- The names of anchors with their numbers. -/
abbrev Anchors := List (Text × Nat)

namespace Anchors

/-- The number that a reference to the name stands for. -/
def find? (anchors : Anchors) (name : Text) : Option Nat :=
  (List.find? (fun a => a.1 == name) anchors).map Prod.snd

/-- One more anchor, whose number is that of the names so far. A name that is used again loses
its number. -/
def bind (anchors : Anchors) (name : Text) : Anchors :=
  (name, anchors.length) :: anchors.filter fun a => a.1 != name

end Anchors

/-! ### Reading -/

/-- What is left to read: tokens, and the anchors before them. -/
structure Input where
  tokens : List Token
  anchors : Anchors

namespace Input

/-- The input without its first token. -/
def skip (s : Input) : Input := { s with tokens := s.tokens.tail }

/-- The first token is one of the given ones, if there is a token. -/
def startsWith (s : Input) (tokens : List Token) : Bool := s.tokens.head?.any tokens.contains

/-- An anchor and a tag at the start of the input, in either order. -/
def marks (s : Input) : Option Text × Option Tag.Short × List Token :=
  match s.tokens with
  | .anchor a :: .tag t :: rest => (some a, some t, rest)
  | .tag t :: .anchor a :: rest => (some a, some t, rest)
  | .anchor a :: rest => (some a, none, rest)
  | .tag t :: rest => (none, some t, rest)
  | rest => (none, none, rest)

/-- The properties at the start of the input. -/
def properties? (handles : List Tag.Handle) (s : Input) : Option (Properties × Input) := do
  let (name, short, rest) := s.marks
  let tag ← match short with
    | none => some none
    | some t => (t.resolve? handles).map some
  match name with
  | none => return (⟨none, tag⟩, ⟨rest, s.anchors⟩)
  | some a => return (⟨some s.anchors.length, tag⟩, ⟨rest, s.anchors.bind a⟩)

end Input

namespace Node

/-- A scalar as written. The tag that says nothing does not count. -/
def ofScalar (p : Properties) (style : Style) (t : Text) : Node :=
  scalar { p with tag := p.tag.filter (· != Tag.unspecific) } style t

/-- A node of which only the properties are written. -/
def ofProperties? (p : Properties) : Option Node :=
  if p.anchor.isSome || p.tag.isSome then some (scalar p .plain []) else none

/-- Tokens before which the key or value of a map may be left out. -/
def entryEnds : List Token := [.key, .value, .blockEnd]

mutual

/-- A node at the start of the input. Lists and maps without brackets may stand there if `block`
holds, and items of a list without anything around them if `bare` holds. -/
def read? (handles : List Tag.Handle) : Nat → Bool → Bool → Input → Option (Node × Input)
  | 0, _, _, _ => none
  | n + 1, block, bare, s =>
    match s.tokens with
    | .reference name :: _ => (s.anchors.find? name).map fun a => (reference a, s.skip)
    | _ =>
      match s.properties? handles with
      | none => none
      | some (p, s) =>
        let alone := (ofProperties? p).map fun v => (v, s)
        match s.tokens with
        | .scalar style t :: _ => some (ofScalar p style t, s.skip)
        | .listStart :: _ =>
          (readFlowItems? handles n true s.skip).map fun (vs, s) => (list p vs, s)
        | .mapStart :: _ =>
          (readFlowEntries? handles n true s.skip).map fun (es, s) => (map p es, s)
        | .blockList :: _ =>
          if block then (readItems? handles n s.skip).map fun (vs, s) => (list p vs, s)
          else alone
        | .blockMap :: _ =>
          if block then (readEntries? handles n s.skip).map fun (es, s) => (map p es, s)
          else alone
        | .item :: _ =>
          if bare then (readBareItems? handles n s).map fun (vs, s) => (list p vs, s) else alone
        | _ => alone

/-- A node, or an empty one if the input starts with one of the given tokens. -/
def readUnless? (handles : List Tag.Handle) (ends : List Token) :
    Nat → Bool → Bool → Input → Option (Node × Input)
  | 0, _, _, _ => none
  | n + 1, block, bare, s =>
    if s.startsWith ends then some (empty, s) else read? handles n block bare s

/-- The value after a key: the node after a value token, or an empty one. -/
def readValue? (handles : List Tag.Handle) (ends : List Token) :
    Nat → Bool → Input → Option (Node × Input)
  | 0, _, _ => none
  | n + 1, block, s =>
    if s.startsWith [.value] then readUnless? handles ends n block block s.skip
    else some (empty, s)

/-- The items of a list outside brackets, up to its end. -/
def readItems? (handles : List Tag.Handle) : Nat → Input → Option (List Node × Input)
  | 0, _ => none
  | n + 1, s =>
    if s.startsWith [.blockEnd] then some ([], s.skip)
    else if s.startsWith [.item] then do
      let (v, s) ← readUnless? handles [.item, .blockEnd] n true false s.skip
      let (vs, s) ← readItems? handles n s
      return (v :: vs, s)
    else none

/-- The items of a list in the column of the key that it belongs to. -/
def readBareItems? (handles : List Tag.Handle) : Nat → Input → Option (List Node × Input)
  | 0, _ => none
  | n + 1, s =>
    if s.startsWith [.item] then do
      let (v, s) ← readUnless? handles (.item :: entryEnds) n true false s.skip
      let (vs, s) ← readBareItems? handles n s
      return (v :: vs, s)
    else some ([], s)

/-- The entries of a map outside brackets, up to its end. -/
def readEntries? (handles : List Tag.Handle) :
    Nat → Input → Option (List (Node × Node) × Input)
  | 0, _ => none
  | n + 1, s =>
    if s.startsWith [.blockEnd] then some ([], s.skip)
    else if s.startsWith [.key] then do
      let (k, s) ← readUnless? handles entryEnds n true true s.skip
      let (v, s) ← readValue? handles entryEnds n true s
      let (es, s) ← readEntries? handles n s
      return ((k, v) :: es, s)
    else none

/-- The items of a list in brackets, up to its end. An item with a key is a map of one entry; if
its key is left out, so is the token after it. -/
def readFlowItems? (handles : List Tag.Handle) :
    Nat → Bool → Input → Option (List Node × Input)
  | 0, _, _ => none
  | n + 1, first, s =>
    if s.startsWith [.listEnd] then some ([], s.skip)
    else if !first && !s.startsWith [.separator] then none
    else
      let s := if first then s else s.skip
      if s.startsWith [.listEnd] then some ([], s.skip)
      else if s.startsWith [.key] then do
        let ends := [.value, .separator, .listEnd]
        let s := s.skip
        let (k, s) ←
          if s.startsWith ends then some (empty, s.skip) else read? handles n false false s
        let (v, s) ← readValue? handles [.separator, .listEnd] n false s
        let (vs, s) ← readFlowItems? handles n false s
        return (map .none [(k, v)] :: vs, s)
      else do
        let (v, s) ← read? handles n false false s
        let (vs, s) ← readFlowItems? handles n false s
        return (v :: vs, s)

/-- The entries of a map in brackets, up to its end. A node without a key token before it is a
key without value. -/
def readFlowEntries? (handles : List Tag.Handle) :
    Nat → Bool → Input → Option (List (Node × Node) × Input)
  | 0, _, _ => none
  | n + 1, first, s =>
    if s.startsWith [.mapEnd] then some ([], s.skip)
    else if !first && !s.startsWith [.separator] then none
    else
      let s := if first then s else s.skip
      if s.startsWith [.mapEnd] then some ([], s.skip)
      else if s.startsWith [.key] then do
        let (k, s) ← readUnless? handles [.value, .separator, .mapEnd] n false false s.skip
        let (v, s) ← readValue? handles [.separator, .mapEnd] n false s
        let (es, s) ← readFlowEntries? handles n false s
        return ((k, v) :: es, s)
      else do
        let (k, s) ← read? handles n false false s
        let (es, s) ← readFlowEntries? handles n false s
        return ((k, empty) :: es, s)

end

end Node

/-! ### Documents -/

/-- A tree with the nodes that its references stand for. -/
structure Document where
  root : Node
  anchored : List (Nat × Node)

namespace Document

/-- The document of a tree. -/
def ofNode (root : Node) : Document := ⟨root, root.anchored⟩

/-- The node that a node stands for: a reference stands for the last node with its anchor. -/
def resolve (d : Document) : Node → Node
  | .reference a => ((d.anchored.reverse.find? fun e => e.1 == a).map Prod.snd).getD .empty
  | v => v

/-- The handles that directives give besides the standard ones. Versions 1.1 and 1.2 can be read;
there is at most one version, and no handle comes twice. -/
def handles? : List Directive → Option (List Tag.Handle)
  | [] => some Tag.standardHandles
  | .version major minor :: rest =>
    let isVersion := fun d => match d with
      | Directive.version _ _ => true
      | _ => false
    if major = 1 ∧ (minor = 1 ∨ minor = 2) ∧ !rest.any isVersion then handles? rest else none
  | .handle h :: rest =>
    let isSame := fun d => match d with
      | Directive.handle h' => h'.name == h.name
      | _ => false
    if rest.any isSame then none else (handles? rest).map (h :: ·)

/-- The directives at the start of tokens. -/
def directives : List Token → List Directive
  | .directive d :: rest => d :: directives rest
  | _ => []

/-- The first document of some tokens, and the tokens after it. No tokens make up an empty
document. Directives need a start mark, and after one the document may be empty. -/
def first? (tokens : List Token) : Option (Node × List Token) := do
  let ds := directives tokens
  let rest := tokens.drop ds.length
  let handles ← handles? ds
  let read := fun ts =>
    (Node.read? handles (2 * tokens.length + 4) true false ⟨ts, []⟩).map fun (v, s) =>
      (v, s.tokens)
  match rest with
  | .documentStart :: rest =>
    match rest with
    | [] | .directive _ :: _ | .documentStart :: _ | .documentEnd :: _ => some (.empty, rest)
    | _ => read rest
  | [] => if ds.isEmpty then some (.empty, []) else none
  | rest => if ds.isEmpty then read rest else none

/-- The document of a file, of which nothing but end marks may stand after it. -/
def ofTokens? (tokens : List Token) : Option Document :=
  match first? tokens with
  | some (root, rest) => if rest.all (· == .documentEnd) then some (ofNode root) else none
  | none => none

/-- The document of a file. -/
def parse? (t : Text) : Option Document := (Token.scan? t).bind ofTokens?

end Document

end ScriptEmbed.Yaml
