import ScriptEmbed.Text.Blank

/-!
# Comments

Comments are taken out of a text in three passes: line comments, block comments, and the blanks
before line ends. Quotes mean nothing to any of them.

* `Comments.stripLine` — a line comment that ends with its line goes, the line end stays;
* `Comments.stripBlock` — a closed block comment goes;
* `Comments.stripTrailing` — blanks before a line end go, and so do repeated line ends;
* `stripComments` — the three passes in this order.
-/

namespace ScriptEmbed

namespace Comments

/-- Removes each `//` up to the line end after it. What no line end follows stays. -/
def stripLine : Text → Text
  | [] => []
  | '/' :: '/' :: rest =>
    match h : rest.dropWhile (· != '\n') with
    | [] => '/' :: '/' :: rest
    | _ :: after =>
      have : after.length < rest.length := by
        have := (List.dropWhile_sublist (l := rest) (· != '\n')).length_le
        rw [h, List.length_cons] at this
        omega
      '\n' :: stripLine after
  | c :: rest => c :: stripLine rest
termination_by t => t.length

/-- The text after the first `*/`. -/
def afterClose? : Text → Option Text
  | [] => none
  | '*' :: '/' :: rest => some rest
  | _ :: rest => afterClose? rest

theorem afterClose?_length {t rest : Text} (h : afterClose? t = some rest) :
    rest.length < t.length := by
  fun_induction afterClose? t with
  | case1 => simp at h
  | case2 rest' =>
    simp only [Option.some.injEq] at h
    simp only [h, List.length_cons]
    omega
  | case3 c t _ ih =>
    have := ih h
    simp only [List.length_cons]
    omega

/-- Removes each `/*` with everything up to the next `*/`. What is not closed stays. -/
def stripBlock : Text → Text
  | [] => []
  | '/' :: '*' :: rest =>
    match h : afterClose? rest with
    | none => '/' :: '*' :: rest
    | some after =>
      have := afterClose?_length h
      stripBlock after
  | c :: rest => c :: stripBlock rest
termination_by t => t.length

/-- A run of blanks in which a line end stands after another blank: what stands before the last
line end goes. Any other run stays. -/
def squeeze (run : Text) : Text :=
  if '\n' ∈ run.drop 1 then '\n' :: (run.reverse.takeWhile (· != '\n')).reverse else run

/-- Squeezes every longest run of blanks. -/
def stripTrailing : Text → Text
  | [] => []
  | c :: rest =>
    if Text.isBlank c then
      squeeze (c :: rest.takeWhile Text.isBlank) ++ stripTrailing (rest.dropWhile Text.isBlank)
    else c :: stripTrailing rest
termination_by t => t.length
decreasing_by
  · have := (List.dropWhile_sublist (l := rest) Text.isBlank).length_le
    simp only [List.length_cons]
    omega
  · simp

end Comments

/-- A text without comments and without blanks before line ends. -/
def stripComments (t : Text) : Text :=
  Comments.stripTrailing (Comments.stripBlock (Comments.stripLine t))

end ScriptEmbed
