import Mathlib
import ScriptEmbed.Proofs.Text.Utf8

/-!
# Reading a generated file back

A generated file is read from its front: the opening, the numerals of the bytes, the text between
the two arrays, the rows, and the closing.  Nothing of how the file was written is used, besides the
fixed texts and the two names in them.  An id may hold any characters, so that the end of a literal
is found by its escapes alone, and never by what stands in it.

* `Cpp.read?` — the bytes and the rows of a generated file;
* `Cpp.readLiteral?_escape` — a literal ends where the id in it ends;
* `Cpp.read?_layout` — reading undoes the writing of any modules;
* `Cpp.Listing.Describes` — the listing is that of the given modules: their bytes one after the
  other, a part of them for each, without gaps;
* `Cpp.render_determines` — **rendering refuses exactly what is not ASCII, and what it renders
  determines the modules**.
-/

namespace ScriptEmbed.Cpp

open Text

/-! ### The reader -/

/-- A row of the array of strings: an id, and the part of the bytes that is its text. -/
structure Row where
  id : Text
  offset : Nat
  length : Nat
  deriving DecidableEq, Repr

/-- What a generated file lists. -/
structure Listing where
  bytes : List Nat
  rows : List Row
  deriving DecidableEq, Repr

/-- A numeral at the front of a text, and what is behind it. -/
def readNumeral? (t : Text) : Option (Nat × Text) :=
  (Decimal.readNat? (t.takeWhile Decimal.isDigit)).map fun n => (n, t.dropWhile Decimal.isDigit)

/-- A numeral, with the comma behind it where there is one. -/
def readByte? (t : Text) : Option (Nat × Text) :=
  (readNumeral? t).map fun r => (r.1, (r.2.dropPrefix? ", ".toList).getD r.2)

/-- The inside of a string literal with its escapes undone, and what is behind the closing quote. -/
def readLiteral? : Text → Option (Text × Text)
  | [] => none
  | '"' :: rest => some ([], rest)
  | '\\' :: c :: rest => (readLiteral? rest).map fun r => (c :: r.1, r.2)
  | c :: rest => (readLiteral? rest).map fun r => (c :: r.1, r.2)

/-- A row at the front of a text, and what is behind it. -/
def readRow? (t : Text) : Option (Row × Text) := do
  let t ← t.dropPrefix? "std::string(\"".toList
  let (id, t) ← readLiteral? t
  let t ← t.dropPrefix? "), std::string(sources + ".toList
  let (offset, t) ← readNumeral? t
  let t ← t.dropPrefix? ", ".toList
  let (length, t) ← readNumeral? t
  let t ← t.dropPrefix? "), ".toList
  return (⟨id, offset, length⟩, t)

/-- All that can be read one after the other, and what is behind it. -/
def readMany {α : Type} (read : Text → Option (α × Text)) (t : Text) : List α × Text :=
  match read t with
  | none => ([], t)
  | some (a, rest) =>
    if rest.length < t.length then (a :: (readMany read rest).1, (readMany read rest).2) else ([], t)
termination_by t.length

/-- What stands before the bytes. -/
def opening (space : Text) : Text :=
  header ++ "\nnamespace ".toList ++ space ++ " \x7b\n\nstatic const char sources[] = \x7b ".toList

/-- What stands between the bytes and the rows. -/
def between (array : Text) : Text := " \x7d;\nstd::string ".toList ++ array ++ "[] = \x7b ".toList

/-- What stands behind the rows. -/
def closing (space : Text) : Text :=
  "std::string() \x7d;\n\n\x7d  // namespace ".toList ++ space ++ ['\n']

/-- The bytes and the rows of a generated file. -/
def read? (space array file : Text) : Option Listing := do
  let t ← file.dropPrefix? (opening space)
  let bytes := readMany readByte? t
  let t ← bytes.2.dropPrefix? (between array)
  let rows := readMany readRow? t
  if rows.2 = closing space then return ⟨bytes.1, rows.1⟩ else none

variable {α : Type} {read : Text → Option (α × Text)} {s t rest : Text} {a : α} {n : Nat}
  {space array out : Text} {ms : List EmbeddedModule}

theorem layout_eq (space array bytes rows : Text) :
    layout space array bytes rows =
      opening space ++ (bytes ++ (between array ++ (rows ++ closing space))) := by
  unfold layout opening between closing
  generalize header = h
  simp only [List.append_assoc]

theorem dropPrefix?_append (s t : Text) : (s ++ t).dropPrefix? s = some t :=
  List.dropPrefix?_append_of_beq t (beq_self_eq_true s)

/-! ### Each part is read back -/

theorem readMany_of_none (h : read t = none) : readMany read t = ([], t) := by
  rw [readMany, h]

theorem readMany_of_some (hs : s ≠ []) (h : read (s ++ t) = some (a, t)) :
    readMany read (s ++ t) = (a :: (readMany read t).1, (readMany read t).2) := by
  have hlt : t.length < (s ++ t).length := by
    have hpos := List.length_pos_iff.2 hs
    rw [List.length_append]
    omega
  rw [readMany, h]
  exact if_pos hlt

/-- A numeral is read up to the first character that is no digit. -/
theorem readNumeral?_digits {c : Char} (hc : Decimal.isDigit c = false) (n : Nat) (rest : Text) :
    readNumeral? (Decimal.digits n ++ c :: rest) = some (n, c :: rest) := by
  have hall := List.all_eq_true.1 (Decimal.all_isDigit_digits n)
  have hrest : ¬ Decimal.isDigit c = true := by
    rw [hc]
    exact Bool.false_ne_true
  rw [readNumeral?, List.takeWhile_append_of_pos hall, List.dropWhile_append_of_pos hall,
    List.takeWhile_cons_of_neg hrest, List.dropWhile_cons_of_neg hrest, List.append_nil,
    Decimal.readNat?_digits]
  rfl

theorem readNumeral?_comma (n : Nat) (rest : Text) :
    readNumeral? (Decimal.digits n ++ (", ".toList ++ rest)) = some (n, ", ".toList ++ rest) :=
  readNumeral?_digits rfl n (' ' :: rest)

theorem readNumeral?_bracket (n : Nat) (rest : Text) :
    readNumeral? (Decimal.digits n ++ ("), ".toList ++ rest)) = some (n, "), ".toList ++ rest) :=
  readNumeral?_digits rfl n (',' :: ' ' :: rest)

theorem readByte?_last (n : Nat) (rest : Text) :
    readByte? (Decimal.digits n ++ ' ' :: rest) = some (n, ' ' :: rest) := by
  rw [readByte?, readNumeral?_digits rfl]
  rfl

theorem readByte?_comma (n : Nat) (rest : Text) :
    readByte? (Decimal.digits n ++ (", ".toList ++ rest)) = some (n, rest) := by
  rw [readByte?, readNumeral?_comma, Option.map_some, dropPrefix?_append]
  rfl

/-- The numerals of some bytes are read up to the blank behind them. -/
theorem readMany_readByte? (ns : List Nat) (rest : Text) :
    readMany readByte? (Text.join ", ".toList (ns.map Decimal.digits) ++ ' ' :: rest) =
      (ns, ' ' :: rest) := by
  induction ns with
  | nil => exact readMany_of_none rfl
  | cons n ns ih =>
    cases ns with
    | nil =>
      show readMany readByte? (Decimal.digits n ++ ' ' :: rest) = _
      rw [readMany_of_some (Decimal.digits_ne_nil n) (readByte?_last n rest),
        readMany_of_none (t := ' ' :: rest) rfl]
    | cons k ns =>
      show readMany readByte? (Decimal.digits n ++ ", ".toList ++
        Text.join ", ".toList ((k :: ns).map Decimal.digits) ++ ' ' :: rest) = _
      rw [List.append_assoc, readMany_of_some (List.append_ne_nil_of_left_ne_nil
        (Decimal.digits_ne_nil n) _) (by rw [List.append_assoc]; exact readByte?_comma n _), ih]

/-- A literal ends where the id in it ends, whatever the id and what is behind it. -/
theorem readLiteral?_escape (id rest : Text) :
    readLiteral? (escape id ++ '"' :: rest) = some (id, rest) := by
  induction id with
  | nil => rfl
  | cons c id ih =>
    have hcons : escape (c :: id) ++ '"' :: rest =
        (if c == '\\' || c == '"' then ['\\', c] else [c]) ++ (escape id ++ '"' :: rest) := by
      show (_ ++ escape id) ++ _ = _
      exact List.append_assoc _ _ _
    rw [hcons]
    split_ifs with hc
    · show (readLiteral? (escape id ++ '"' :: rest)).map (fun r => (c :: r.1, r.2)) = _
      rw [ih]
      rfl
    · simp only [Bool.or_eq_true, beq_iff_eq, not_or] at hc
      rw [List.singleton_append, readLiteral?, ih]
      · rfl
      · exact hc.2
      · intro d t hslash
        exact absurd hslash hc.1

/-- An id that looks like the end of its own row. -/
example : readLiteral? (escape "\"), std::string(\"".toList ++ "\"), ".toList) =
    some ("\"), std::string(\"".toList, "), ".toList) := by decide

theorem readRow?_row (offset : Nat) (m : EmbeddedModule) (rest : Text) :
    readRow? (row offset m ++ rest) = some (⟨m.id, offset, m.text.length⟩, rest) := by
  have hrow : row offset m ++ rest = "std::string(\"".toList ++ (escape m.id ++ '"' ::
      ("), std::string(sources + ".toList ++ (Decimal.digits offset ++ (", ".toList ++
        (Decimal.digits m.text.length ++ ("), ".toList ++ rest)))))) := by
    have hquote : "\"), std::string(sources + ".toList =
      '"' :: "), std::string(sources + ".toList := rfl
    unfold row
    simp only [hquote, List.append_assoc, List.cons_append]
  rw [hrow]
  simp only [readRow?, dropPrefix?_append, readLiteral?_escape, readNumeral?_comma,
    readNumeral?_bracket, Option.bind_eq_bind, Option.bind_some, Option.pure_def]

/-- The rows of some modules whose bytes start at `offset`. -/
def rowList (offset : Nat) : List EmbeddedModule → List Row
  | [] => []
  | m :: ms => ⟨m.id, offset, m.text.length⟩ :: rowList (offset + m.text.length) ms

/-- All rows are read, and then the empty string that ends the array. -/
theorem readMany_readRow? (offset : Nat) (ms : List EmbeddedModule) (space : Text) :
    readMany readRow? (rows offset ms ++ closing space) = (rowList offset ms, closing space) := by
  induction ms generalizing offset with
  | nil => exact readMany_of_none rfl
  | cons m ms ih =>
    have hne : row offset m ≠ [] := by
      unfold row
      simp
    show readMany readRow? (row offset m ++ rows (offset + m.text.length) ms ++ closing space) = _
    rw [List.append_assoc, readMany_of_some hne (readRow?_row offset m _), ih]
    rfl

/-- All bytes are read, up to the text between the two arrays. -/
theorem readMany_byteList (ms : List EmbeddedModule) (array rest : Text) :
    readMany readByte? (byteList ms ++ (between array ++ rest)) =
      ((ms.flatMap EmbeddedModule.text).map Char.toNat, between array ++ rest) := by
  have hlist : byteList ms =
      Text.join ", ".toList (((ms.flatMap EmbeddedModule.text).map Char.toNat).map Decimal.digits) := by
    rw [List.map_map]
    rfl
  have hblank : between array ++ rest =
      ' ' :: ("\x7d;\nstd::string ".toList ++ array ++ "[] = \x7b ".toList ++ rest) := rfl
  rw [hlist, hblank]
  exact readMany_readByte? _ _

/-- Reading undoes the writing of any modules. -/
theorem read?_layout (space array : Text) (ms : List EmbeddedModule) :
    read? space array (layout space array (byteList ms) (rows 0 ms)) =
      some ⟨(ms.flatMap EmbeddedModule.text).map Char.toNat, rowList 0 ms⟩ := by
  rw [layout_eq, read?, dropPrefix?_append, Option.bind_eq_bind, Option.bind_some]
  simp only [readMany_byteList, dropPrefix?_append, readMany_readRow?, Option.bind_some,
    Option.pure_def, if_true]

/-! ### The listing describes the modules -/

/-- The part of the bytes that a row stands for. -/
def Listing.slice (l : Listing) (r : Row) : List Nat := (l.bytes.drop r.offset).take r.length

/-- The rows take up everything from `start` to `stop`, each from where the one before it ends. -/
def Tiles (stop : Nat) : Nat → List Row → Prop
  | start, [] => start = stop
  | start, r :: rest => r.offset = start ∧ Tiles stop (start + r.length) rest

/-- The listing of some modules: their bytes one after the other, and a row for each of them, with
its id and the part of the bytes that is its text. -/
structure Listing.Describes (l : Listing) (ms : List EmbeddedModule) : Prop where
  bytes : l.bytes = (ms.flatMap fun m => m.text.utf8).map UInt8.toNat
  tiles : Tiles l.bytes.length 0 l.rows
  rows : List.Forall₂ (fun r m => r.id = m.id ∧ l.slice r = m.text.utf8.map UInt8.toNat) l.rows ms

/-- A listing describes at most one list of modules. -/
theorem Listing.Describes.unique {l : Listing} {ks : List EmbeddedModule} (h : l.Describes ms)
    (h' : l.Describes ks) : ms = ks := by
  obtain ⟨-, -, hms⟩ := h
  obtain ⟨-, -, hks⟩ := h'
  generalize l.rows = rs at hms hks
  induction hms generalizing ks with
  | nil =>
    cases hks
    rfl
  | @cons r m rs ms hm _ ih =>
    cases hks with
    | @cons _ k _ ks hk hks =>
      have hutf : m.text.utf8 = k.text.utf8 :=
        List.map_injective_iff.2 (fun _ _ => UInt8.toNat_inj.1) (hm.2.symm.trans hk.2)
      have heq : m = k := by
        cases m
        cases k
        obtain rfl : _ = _ := hm.1.symm.trans hk.1
        obtain rfl : _ = _ := utf8_injective hutf
        rfl
      rw [heq, ih hks]

/-- The rows tile the texts behind what comes before them. -/
theorem tiles_rowList (start : Nat) (ms : List EmbeddedModule) :
    Tiles (start + (ms.flatMap EmbeddedModule.text).length) start (rowList start ms) := by
  induction ms generalizing start with
  | nil => rfl
  | cons m ms ih =>
    refine ⟨rfl, ?_⟩
    have hrest := ih (start + m.text.length)
    rw [List.flatMap_cons, List.length_append, ← Nat.add_assoc]
    exact hrest

/-- Each row cuts the text of its module out of all texts. -/
theorem slices_rowList (before : List Nat) (ms : List EmbeddedModule)
    (hms : ∀ m ∈ ms, m.text.IsAscii) :
    List.Forall₂ (fun r m => r.id = m.id ∧
        ((before ++ (ms.flatMap EmbeddedModule.text).map Char.toNat).drop r.offset).take r.length =
          m.text.utf8.map UInt8.toNat)
      (rowList before.length ms) ms := by
  induction ms generalizing before with
  | nil => exact .nil
  | cons m ms ih =>
    obtain ⟨hm, hms⟩ := List.forall_mem_cons.1 hms
    have hrest := ih (before ++ m.text.map Char.toNat) hms
    rw [List.length_append, List.length_map, List.append_assoc, ← List.map_append,
      ← List.flatMap_cons] at hrest
    refine .cons ⟨rfl, ?_⟩ hrest
    show ((before ++ ((m :: ms).flatMap EmbeddedModule.text).map Char.toNat).drop
      before.length).take m.text.length = _
    rw [List.drop_left, List.flatMap_cons, List.map_append, hm.utf8_eq]
    exact List.take_left' (List.length_map _)

theorem flatMap_utf8 (hms : ∀ m ∈ ms, m.text.IsAscii) :
    (ms.flatMap fun m => m.text.utf8).map UInt8.toNat =
      (ms.flatMap EmbeddedModule.text).map Char.toNat := by
  rw [List.map_flatMap, List.map_flatMap]
  exact List.flatMap_congr fun m hm => (hms m hm).utf8_eq

theorem render_eq_ok_iff :
    render space array ms = .ok out ↔
      (∀ m ∈ ms, m.text.IsAscii) ∧ layout space array (byteList ms) (rows 0 ms) = out := by
  rw [render, ← checkAscii_eq_ok_iff]
  generalize layout space array (byteList ms) (rows 0 ms) = file
  cases checkAscii ms with
  | error e => simp
  | ok _ => simp

theorem render_eq_error_iff {e : NonAscii} :
    render space array ms = .error e ↔ e.NamesFirst ms := by
  rw [render, ← checkAscii_eq_error_iff]
  generalize layout space array (byteList ms) (rows 0 ms) = file
  cases checkAscii ms with
  | error e => simp
  | ok _ => simp

/-- What is rendered can be read, and describes the modules. -/
theorem read?_render (h : render space array ms = .ok out) :
    ∃ l, read? space array out = some l ∧ l.Describes ms := by
  obtain ⟨hms, rfl⟩ := render_eq_ok_iff.1 h
  have hread := read?_layout space array ms
  generalize layout space array (byteList ms) (rows 0 ms) = file at hread ⊢
  refine ⟨_, hread, (flatMap_utf8 hms).symm, ?_, slices_rowList [] ms hms⟩
  have htiles := tiles_rowList 0 ms
  rw [Nat.zero_add, ← List.length_map Char.toNat] at htiles
  exact htiles

/-- **A generated file determines its modules.**  Modules are rendered exactly when all of them are
ASCII, and a refusal is about the first byte that is not.  From the file that is rendered, the bytes,
the parts that the texts take up and the ids are read back, so that no other modules have it. -/
theorem render_determines (space array : Text) (ms : List EmbeddedModule) :
    ((∃ out, render space array ms = .ok out) ↔ ∀ m ∈ ms, m.text.IsAscii) ∧
    (∀ e, render space array ms = .error e ↔ e.NamesFirst ms) ∧
    ∀ out, render space array ms = .ok out →
      (∃ l, read? space array out = some l ∧ l.Describes ms) ∧
      ∀ ks, render space array ks = .ok out → ks = ms := by
  refine ⟨?_, fun e => render_eq_error_iff, fun out h => ⟨read?_render h, ?_⟩⟩
  · constructor
    · rintro ⟨out, h⟩
      exact (render_eq_ok_iff.1 h).1
    · intro h
      exact ⟨_, render_eq_ok_iff.2 ⟨h, rfl⟩⟩
  · intro ks hks
    obtain ⟨l, hl, hms⟩ := read?_render h
    obtain ⟨l', hl', hks⟩ := read?_render hks
    obtain rfl := Option.some.inj (hl.symm.trans hl')
    exact hks.unique hms

end ScriptEmbed.Cpp
