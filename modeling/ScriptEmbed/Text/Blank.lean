import ScriptEmbed.Text.Basic

/-!
# Blank characters

A character is blank when it has the Unicode property White_Space. Trimming takes blank
characters from both ends of a text.

* `Text.isBlank` — the twenty-five blank characters;
* `Text.trim` — a text without blanks at its ends;
* `Text.allBlank` — a text of blanks only.
-/

namespace ScriptEmbed.Text

/-- The Unicode property White_Space. -/
def isBlank (c : Char) : Bool :=
  let n := c.toNat
  (9 ≤ n && n ≤ 13) || n == 0x20 || n == 0x85 || n == 0xA0 || n == 0x1680 ||
    (0x2000 ≤ n && n ≤ 0x200A) || n == 0x2028 || n == 0x2029 || n == 0x202F ||
    n == 0x205F || n == 0x3000

/-- A text without the blanks it starts with. -/
def trimStart (t : Text) : Text := t.dropWhile isBlank

/-- A text without the blanks it ends with. -/
def trimEnd (t : Text) : Text := (t.reverse.dropWhile isBlank).reverse

/-- A text without the blanks at its two ends. -/
def trim (t : Text) : Text := trimEnd (trimStart t)

/-- A text of blanks only. -/
def allBlank (t : Text) : Bool := t.all isBlank

/-! ### Laws -/

@[simp] theorem trim_nil : trim [] = [] := rfl

theorem trimStart_of_head {c : Char} {t : Text} (h : isBlank c = false) :
    trimStart (c :: t) = c :: t := by
  simp [trimStart, h]

theorem trimEnd_concat {c : Char} {t : Text} (h : isBlank c = false) :
    trimEnd (t ++ [c]) = t ++ [c] := by
  simp [trimEnd, h]

theorem takeWhile_append_trimStart (t : Text) : t.takeWhile isBlank ++ trimStart t = t :=
  List.takeWhile_append_dropWhile

theorem trimEnd_append_takeWhile (t : Text) :
    trimEnd t ++ (t.reverse.takeWhile isBlank).reverse = t := by
  rw [trimEnd, ← List.reverse_append, List.takeWhile_append_dropWhile, List.reverse_reverse]

/-- Trimming takes nothing but blanks away. -/
theorem exists_eq_append_trim (t : Text) :
    ∃ l r, t = l ++ trim t ++ r ∧ allBlank l = true ∧ allBlank r = true := by
  refine ⟨t.takeWhile isBlank, ((trimStart t).reverse.takeWhile isBlank).reverse, ?_, ?_, ?_⟩
  · rw [List.append_assoc, trim, trimEnd_append_takeWhile, takeWhile_append_trimStart]
  · exact List.all_takeWhile
  · rw [allBlank, List.all_reverse]
    exact List.all_takeWhile

end ScriptEmbed.Text
