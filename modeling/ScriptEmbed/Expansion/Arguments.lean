import ScriptEmbed.Text.Blank

/-!
# Argument lists

The arguments of a call `NAME(a, f(b, c), [d, e])` are the parts between the commas at the
outermost level. Round, square and curly brackets all nest, and are not matched against each
other; quotes mean nothing.

* `Arguments.spans?` — the parts as written, up to the bracket that closes the list;
* `Arguments.parse?` — the trimmed arguments with the text after the list;
* `Arguments.scanAt?` — the same at a byte offset of a text.
-/

namespace ScriptEmbed

/-- The arguments of a call, and the text after the call. -/
structure Arguments where
  values : List Text
  rest : Text
  deriving DecidableEq, Repr

namespace Arguments

/-- An opening bracket of any kind. -/
def isOpening (c : Char) : Bool := c == '(' || c == '[' || c == '{'

/-- A closing bracket of any kind. -/
def isClosing (c : Char) : Bool := c == ')' || c == ']' || c == '}'

/-- The parts of an argument list as written: the first, the others, and the text after the
closing bracket. -/
structure Spans where
  first : Text
  others : List Text
  rest : Text
  deriving DecidableEq, Repr

/-- Puts a character before the first part. -/
def Spans.push (c : Char) (s : Spans) : Spans := { s with first := c :: s.first }

/-- Puts an empty part before the first. -/
def Spans.split (s : Spans) : Spans := { s with first := [], others := s.first :: s.others }

/-- The parts of an argument list from a place inside as many open brackets as `depth` says, or
nothing if the list is not closed. -/
def spans? : Nat → Text → Option Spans
  | _, [] => none
  | depth, c :: t =>
    if isOpening c then (spans? (depth + 1) t).map (Spans.push c)
    else if isClosing c then
      match depth with
      | 0 => some ⟨[], [], t⟩
      | depth + 1 => (spans? depth t).map (Spans.push c)
    else if c = ',' ∧ depth = 0 then (spans? 0 t).map Spans.split
    else (spans? depth t).map (Spans.push c)

/-- The arguments that parts stand for: trimmed, and none if there is one blank part. -/
def ofSpans (s : Spans) : Arguments :=
  let values := (s.first :: s.others).map Text.trim
  ⟨if values = [[]] then [] else values, s.rest⟩

/-- The arguments of a call, given the text after its opening bracket. -/
def parse? (t : Text) : Option Arguments := (spans? 0 t).map ofSpans

/-! ### The rest is shorter -/

theorem spans?_rest_length {depth : Nat} {t : Text} {s : Spans} (h : spans? depth t = some s) :
    s.rest.length < t.length := by
  fun_induction spans? depth t generalizing s with
  | case1 => simp at h
  | case2 depth c t _ ih =>
    obtain ⟨u, hu, rfl⟩ := Option.map_eq_some_iff.1 h
    have := ih hu
    simp only [Spans.push, List.length_cons]
    omega
  | case3 c t =>
    simp only [Option.some.injEq] at h
    simp [← h]
  | case4 c t _ _ depth ih =>
    obtain ⟨u, hu, rfl⟩ := Option.map_eq_some_iff.1 h
    have := ih hu
    simp only [Spans.push, List.length_cons]
    omega
  | case5 _ c t _ _ _ ih =>
    obtain ⟨u, hu, rfl⟩ := Option.map_eq_some_iff.1 h
    have := ih hu
    simp only [Spans.split, List.length_cons]
    omega
  | case6 depth c t _ _ _ ih =>
    obtain ⟨u, hu, rfl⟩ := Option.map_eq_some_iff.1 h
    have := ih hu
    simp only [Spans.push, List.length_cons]
    omega

/-- The text after a call is shorter than the text after its opening bracket. -/
theorem parse?_rest_length {t : Text} {a : Arguments} (h : parse? t = some a) :
    a.rest.length < t.length := by
  obtain ⟨s, hs, rfl⟩ := Option.map_eq_some_iff.1 h
  exact spans?_rest_length hs

/-! ### Offsets -/

/-- A text without its first `n` bytes; `n` is the offset of a character or of the end. -/
def dropBytes : Nat → Text → Text
  | 0, t => t
  | _ + 1, [] => []
  | n + 1, c :: t => dropBytes (n + 1 - c.utf8Size) t
termination_by _ t => t.length

/-- The arguments of a call whose opening bracket ends at byte `start`, and the byte offset
after the call. -/
def scanAt? (t : Text) (start : Nat) : Option (List Text × Nat) :=
  (parse? (dropBytes start t)).map fun a =>
    (a.values, Text.byteSize t - Text.byteSize a.rest)

end Arguments

end ScriptEmbed
