/-!
# Texts

Module sources, definition lines, names and messages are all read as lists of characters.

* `Text` — a list of characters;
* `Text.byteSize` — its length in UTF-8, the unit of every reported offset;
* `Text.pieces` — the parts between the occurrences of a separator;
* `Text.replaceAll` — replacement of every occurrence of one text by another.
-/

namespace ScriptEmbed

/-- A text is the list of its characters. -/
abbrev Text := List Char

namespace Text

/-! ### Measures -/

/-- The number of bytes of a text in UTF-8. -/
def byteSize : Text → Nat
  | [] => 0
  | c :: t => c.utf8Size + byteSize t

@[simp] theorem byteSize_nil : byteSize [] = 0 := rfl

@[simp] theorem byteSize_cons (c : Char) (t : Text) :
    byteSize (c :: t) = c.utf8Size + byteSize t := rfl

@[simp] theorem byteSize_append (s t : Text) : byteSize (s ++ t) = byteSize s + byteSize t := by
  induction s with
  | nil => simp
  | cons c s ih => simp only [List.cons_append, byteSize_cons, ih, Nat.add_assoc]

/-! ### Separators -/

/-- The parts of a text between the occurrences of `sep`; there is always at least one. -/
def pieces (sep : Char) : Text → List Text
  | [] => [[]]
  | c :: rest =>
    if c = sep then [] :: pieces sep rest
    else
      match pieces sep rest with
      | [] => [[c]]
      | p :: ps => (c :: p) :: ps

theorem pieces_ne_nil (sep : Char) (t : Text) : pieces sep t ≠ [] := by
  cases t with
  | nil => simp [pieces]
  | cons c rest =>
    rw [pieces]
    split
    · simp
    · split <;> simp

/-- The characters before the first `sep`, or all of them where there is none. -/
def before (sep : Char) (t : Text) : Text := t.takeWhile (· != sep)

/-- The given texts one after the other, `sep` between neighbours. -/
def join (sep : Text) : List Text → Text
  | [] => []
  | [t] => t
  | t :: u :: rest => t ++ sep ++ join sep (u :: rest)

/-! ### Replacement -/

/-- Every occurrence of the non-empty text `old`, found from the left without overlap,
becomes `new`. -/
def replaceOccurrences (old new : Text) : Text → Text
  | [] => []
  | c :: rest =>
    if old.isPrefixOf (c :: rest) then
      new ++ replaceOccurrences old new (rest.drop (old.length - 1))
    else c :: replaceOccurrences old new rest
termination_by t => t.length
decreasing_by
  · simp only [List.length_drop, List.length_cons]; omega
  · simp

/-- Every occurrence of `old` becomes `new`. The empty text occurs before every character
and at the end. -/
def replaceAll (old new t : Text) : Text :=
  if old.isEmpty then new ++ t.flatMap fun c => c :: new
  else replaceOccurrences old new t

end Text

end ScriptEmbed
