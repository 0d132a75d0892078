import Mathlib
import ScriptEmbed.Build.Sources
import ScriptEmbed.Proofs.Build.CppReading
import ScriptEmbed.Proofs.Config.Names

/-!
# String literals of a generated file

A generated file is fixed text, the bytes of the modules in decimal, two names from the configuration,
and the ids of the modules in string literals.  Here it is read the way a compiler does: outside of
literals up to the next quote, and inside of one up to the first quote that no backslash stands before.
So the literals are found by their quotes alone, wherever ids hold quotes and backslashes of their own.

The texts of the modules have to be ASCII, and stand in the file as numbers.  The ids and the names
need not be: ids are written as they are but for escapes, and names are made of word characters.

* `Cpp.Parts`, `Cpp.parts?` — a text taken apart into its code and the insides of its literals;
* `Cpp.Inside` — no quote in a text ends the literal around it; `Cpp.inside_escape` — escapes see to it;
* `Cpp.adds_layout` — **the literals of a file are those of the ids**, one for each module;
* `Cpp.forall_layout` — the characters of a file;
* `Cpp.render_plain` — **in a file for a checked configuration nothing but ids and word characters of
  the two names is beyond ASCII, and each id has a literal that stands for it**;
* `Cpp.render_beyondAscii` — a file with an id, one with a name, and one with a line end in an id.
-/

namespace ScriptEmbed

namespace Cpp

open Text

variable {c x : Char} {t l id space array : Text} {m : EmbeddedModule} {ms : List EmbeddedModule}

/-! ### A text taken apart -/

/-- A text without its string literals, and the insides of these as they are written. -/
structure Parts where
  code : Text
  literals : List Text
  deriving DecidableEq, Repr

instance : Append Parts := ⟨fun p q => ⟨p.code ++ q.code, p.literals ++ q.literals⟩⟩

@[simp] theorem Parts.append_eq (p q : Parts) :
    p ++ q = ⟨p.code ++ q.code, p.literals ++ q.literals⟩ := rfl

mutual

/-- The parts of a text that starts outside of literals. -/
def parts? : Text → Option Parts
  | [] => some ⟨[], []⟩
  | c :: t => if c = '"' then literal? [] t else (parts? t).map (⟨[c], []⟩ ++ ·)

/-- The parts of a text that starts in a literal, of which `l` stands before.  A literal that does not
end makes the text ill-formed. -/
def literal? (l : Text) : Text → Option Parts
  | [] => none
  | '\\' :: c :: t => literal? (l ++ ['\\', c]) t
  | c :: t => if c = '"' then (parts? t).map (⟨[], [l]⟩ ++ ·) else literal? (l ++ [c]) t

end

/-- The text can stand inside of a literal: every quote in it is escaped, and no backslash at its end
escapes the quote behind it. -/
inductive Inside : Text → Prop
  | nil : Inside []
  | plain {c : Char} {t : Text} (hquote : c ≠ '"') (hslash : c ≠ '\\') (h : Inside t) : Inside (c :: t)
  | escaped (c : Char) {t : Text} (h : Inside t) : Inside ('\\' :: c :: t)

/-- A literal ends at the first quote behind what can stand inside of it. -/
theorem literal?_inside (hl : Inside l) (before t : Text) :
    literal? before (l ++ '"' :: t) = (parts? t).map (⟨[], [before ++ l]⟩ ++ ·) := by
  induction hl generalizing before with
  | nil => simp [literal?]
  | plain hquote hslash _ ih =>
    rw [List.cons_append, literal?, if_neg hquote, ih, List.append_assoc]
    · rfl
    · intro c t hc
      exact absurd hc hslash
  | escaped c _ ih =>
    rw [List.cons_append, List.cons_append, literal?, ih, List.append_assoc]
    rfl

/-- Put before another text, the text adds the given parts to those of the other. -/
def Adds (s : Text) (p : Parts) : Prop := ∀ t, parts? (s ++ t) = (parts? t).map (p ++ ·)

theorem Adds.parts?_eq {p : Parts} (h : Adds t p) : parts? t = some p := by
  have hparts := h []
  rw [List.append_nil] at hparts
  simpa [parts?] using hparts

theorem Adds.append {s : Text} {p q : Parts} (hs : Adds s p) (ht : Adds t q) :
    Adds (s ++ t) (p ++ q) := by
  intro r
  rw [List.append_assoc, hs, ht, Option.map_map]
  congr 1
  funext p
  simp

/-- Code adds itself. -/
theorem adds_code (h : '"' ∉ t) : Adds t ⟨t, []⟩ := by
  intro r
  induction t with
  | nil => exact (Option.map_id_apply (x := parts? r)).symm
  | cons c t ih =>
    obtain ⟨hc, ht⟩ := not_or.1 (List.mem_cons.not.1 h)
    rw [List.cons_append, parts?, if_neg (Ne.symm hc), ih ht, Option.map_map]
    rfl

/-- A literal adds its inside. -/
theorem adds_literal (hl : Inside l) : Adds ('"' :: l ++ ['"']) ⟨[], [l]⟩ := by
  intro r
  rw [List.append_assoc, List.singleton_append, List.cons_append, parts?, if_pos rfl,
    literal?_inside hl, List.nil_append]

/-- A quote in an id, and a backslash at its end. -/
example :
    parts? "f(\"a\\\"b\", \"c\\\\\")".toList =
      some ⟨"f(, )".toList, ["a\\\"b".toList, "c\\\\".toList]⟩ ∧
    parts? "f(\"a\\\")".toList = none := by decide

/-! ### Ids in literals -/

/-- An escaped id can stand inside of a literal. -/
theorem inside_escape (id : Text) : Inside (escape id) := by
  induction id with
  | nil => exact .nil
  | cons c id ih =>
    show Inside ((if c == '\\' || c == '"' then ['\\', c] else [c]) ++ escape id)
    split_ifs with hc
    · exact .escaped c ih
    · rw [Bool.or_eq_true, beq_iff_eq, beq_iff_eq, not_or] at hc
      exact .plain hc.2 hc.1 ih

/-- Escaping puts backslashes in, and nothing else. -/
theorem mem_of_mem_escape (h : x ∈ escape id) : x = '\\' ∨ x ∈ id := by
  obtain ⟨c, hc, hx⟩ := List.mem_flatMap.1 h
  split_ifs at hx with hescaped
  · rcases List.mem_cons.1 hx with rfl | hx
    · exact .inl rfl
    · exact .inr (List.mem_singleton.1 hx ▸ hc)
  · exact .inr (List.mem_singleton.1 hx ▸ hc)

theorem mem_escape_of_mem (h : x ∈ id) : x ∈ escape id := by
  refine List.mem_flatMap.2 ⟨x, h, ?_⟩
  split_ifs
  · exact List.mem_cons_of_mem _ (List.mem_singleton_self x)
  · exact List.mem_singleton_self x

/-- The inside of a literal for an id: no quote in it ends the literal, it is the id again without its
escapes, and a line end in it is one of the id. -/
structure StandsFor (id l : Text) : Prop where
  inside : Inside l
  reads : readLiteral? (l ++ ['"']) = some (id, [])
  newline : '\n' ∈ l → '\n' ∈ id

theorem standsFor_escape (id : Text) : StandsFor id (escape id) where
  inside := inside_escape id
  reads := readLiteral?_escape id []
  newline h := (mem_of_mem_escape h).resolve_left (by decide)

/-! ### The characters of a file -/

/-- An ASCII character other than a quote, as they make up the code of a file. -/
def isCode (c : Char) : Bool := decide (c.toNat < 128) && c != '"'

theorem isCode_of_isDigit (h : Decimal.isDigit c = true) : isCode c = true := by
  have hname : isNameChar c = true := by
    rw [Decimal.isDigit] at h
    rw [isNameChar, Char.isAlphanum, h, Bool.or_true, Bool.true_or]
  rw [isCode, Bool.and_eq_true, decide_eq_true_eq, bne_iff_ne]
  refine ⟨isNameChar_toNat_lt hname, ?_⟩
  rintro rfl
  cases h

/-- What stands before the literal in a row. -/
def rowHead : Text := "std::string(".toList

/-- What stands behind the literal in a row. -/
def rowTail (offset : Nat) (m : EmbeddedModule) : Text :=
  "), std::string(sources + ".toList ++ Decimal.digits offset ++ ", ".toList ++
    Decimal.digits m.text.length ++ "), ".toList

theorem row_eq (offset : Nat) (m : EmbeddedModule) :
    row offset m = rowHead ++ ('"' :: escape m.id ++ ['"']) ++ rowTail offset m := by
  have hopen : "std::string(\"".toList = rowHead ++ ['"'] := rfl
  have hclose : "\"), std::string(sources + ".toList = '"' :: "), std::string(sources + ".toList := rfl
  unfold row rowTail
  simp only [hopen, hclose, List.append_assoc, List.cons_append, List.nil_append]

theorem header_all : header.all isCode = true := by
  unfold header
  rw [String.toList_append, String.toList_append, String.toList_append]
  decide +kernel

section Forall

-- One property for all parts of a file, to be taken as "is ASCII", "is no quote" and "is ASCII or
-- stands in a name" below.
variable {P : Char → Prop} (hcode : ∀ c, isCode c = true → P c)

include hcode

theorem forall_of_all (h : t.all isCode = true) : ∀ x ∈ t, P x :=
  fun x hx => hcode x (List.all_eq_true.1 h x hx)

theorem forall_digits (n : Nat) : ∀ x ∈ Decimal.digits n, P x := fun x hx =>
  hcode x (isCode_of_isDigit (List.all_eq_true.1 (Decimal.all_isDigit_digits n) x hx))

theorem forall_byteList (ms : List EmbeddedModule) : ∀ x ∈ byteList ms, P x := by
  intro x hx
  rcases mem_join hx with hx | ⟨p, hp, hx⟩
  · exact forall_of_all hcode (by decide) x hx
  · obtain ⟨c, -, rfl⟩ := List.mem_map.1 hp
    exact forall_digits hcode c.toNat x hx

theorem forall_opening (hspace : ∀ x ∈ space, P x) : ∀ x ∈ opening space, P x := by
  unfold opening
  rw [List.forall_mem_append, List.forall_mem_append, List.forall_mem_append]
  refine ⟨⟨⟨forall_of_all hcode header_all, forall_of_all hcode ?_⟩, hspace⟩, forall_of_all hcode ?_⟩
  all_goals decide +kernel

theorem forall_between (harray : ∀ x ∈ array, P x) : ∀ x ∈ between array, P x := by
  unfold between
  rw [List.forall_mem_append, List.forall_mem_append]
  refine ⟨⟨forall_of_all hcode ?_, harray⟩, forall_of_all hcode ?_⟩
  all_goals decide +kernel

theorem forall_closing (hspace : ∀ x ∈ space, P x) : ∀ x ∈ closing space, P x := by
  unfold closing
  rw [List.forall_mem_append, List.forall_mem_append]
  refine ⟨⟨forall_of_all hcode ?_, hspace⟩, forall_of_all hcode ?_⟩
  all_goals decide +kernel

theorem forall_rowHead : ∀ x ∈ rowHead, P x := forall_of_all hcode (by decide +kernel)

theorem forall_rowTail (offset : Nat) (m : EmbeddedModule) : ∀ x ∈ rowTail offset m, P x := by
  unfold rowTail
  rw [List.forall_mem_append, List.forall_mem_append, List.forall_mem_append, List.forall_mem_append]
  refine ⟨⟨⟨⟨forall_of_all hcode ?_, forall_digits hcode offset⟩, forall_of_all hcode ?_⟩,
    forall_digits hcode m.text.length⟩, forall_of_all hcode ?_⟩
  all_goals decide +kernel

/-- In the rows stand the ids of the modules. -/
theorem forall_rows (hquote : P '"') (hids : ∀ m ∈ ms, ∀ x ∈ m.id, P x) (offset : Nat) :
    ∀ x ∈ rows offset ms, P x := by
  induction ms generalizing offset with
  | nil => exact fun x hx => absurd hx List.not_mem_nil
  | cons m ms ih =>
    obtain ⟨hm, hms⟩ := List.forall_mem_cons.1 hids
    have hescape : ∀ x ∈ escape m.id, P x := by
      intro x hx
      rcases mem_of_mem_escape hx with rfl | hx
      · exact hcode '\\' (by decide)
      · exact hm x hx
    have hliteral : ∀ x ∈ '"' :: escape m.id ++ ['"'], P x := by
      rw [List.forall_mem_append, List.forall_mem_cons, List.forall_mem_singleton]
      exact ⟨⟨hquote, hescape⟩, hquote⟩
    show ∀ x ∈ row offset m ++ rows (offset + m.text.length) ms, P x
    rw [row_eq, List.forall_mem_append, List.forall_mem_append, List.forall_mem_append]
    exact ⟨⟨⟨forall_rowHead hcode, hliteral⟩, forall_rowTail hcode offset m⟩, ih hms _⟩

/-- In a file stand ASCII characters, the two names and the ids. -/
theorem forall_layout (hquote : P '"') (hspace : ∀ x ∈ space, P x) (harray : ∀ x ∈ array, P x)
    (hids : ∀ m ∈ ms, ∀ x ∈ m.id, P x) :
    ∀ x ∈ layout space array (byteList ms) (rows 0 ms), P x := by
  rw [layout_eq, List.forall_mem_append, List.forall_mem_append, List.forall_mem_append,
    List.forall_mem_append]
  exact ⟨forall_opening hcode hspace, forall_byteList hcode ms, forall_between hcode harray,
    forall_rows hcode hquote hids 0, forall_closing hcode hspace⟩

end Forall

/-! ### The literals of a file -/

theorem toNat_lt_of_isCode (h : isCode c = true) : c.toNat < 128 :=
  of_decide_eq_true (Bool.and_eq_true _ _ ▸ h).1

theorem ne_of_isCode (h : isCode c = true) : c ≠ '"' := by
  rintro rfl
  cases h

/-- The rows add a literal for each id. -/
theorem adds_rows (offset : Nat) (ms : List EmbeddedModule) :
    ∃ code : Text, (∀ x ∈ code, isCode x = true) ∧
      Adds (rows offset ms) ⟨code, ms.map fun m => escape m.id⟩ := by
  induction ms generalizing offset with
  | nil => exact ⟨[], fun x hx => absurd hx List.not_mem_nil, adds_code List.not_mem_nil⟩
  | cons m ms ih =>
    obtain ⟨code, hcode, hadds⟩ := ih (offset + m.text.length)
    have hhead : ∀ x ∈ rowHead, isCode x = true := forall_rowHead fun _ h => h
    have htail : ∀ x ∈ rowTail offset m, isCode x = true := forall_rowTail (fun _ h => h) offset m
    refine ⟨rowHead ++ rowTail offset m ++ code, ?_, ?_⟩
    · rw [List.forall_mem_append, List.forall_mem_append]
      exact ⟨⟨hhead, htail⟩, hcode⟩
    · -- the quotes are split off the head and the tail, so that these are code
      have hliteral := adds_literal (inside_escape m.id)
      have hrow := ((adds_code fun h => ne_of_isCode (hhead _ h) rfl).append hliteral).append
        (adds_code fun h => ne_of_isCode (htail _ h) rfl)
      have hall := hrow.append hadds
      rw [← row_eq] at hall
      show Adds (row offset m ++ rows (offset + m.text.length) ms) _
      simpa only [Parts.append_eq, List.append_nil, List.nil_append, List.append_assoc,
        List.singleton_append, List.map_cons] using hall

/-- The literals of a file are those of the ids, one for each module, and outside of them stand ASCII
characters and the two names. -/
theorem adds_layout (hspace : '"' ∉ space) (harray : '"' ∉ array) (ms : List EmbeddedModule) :
    ∃ code : Text, (∀ x ∈ code, x.toNat < 128 ∨ x ∈ space ∨ x ∈ array) ∧
      Adds (layout space array (byteList ms) (rows 0 ms)) ⟨code, ms.map fun m => escape m.id⟩ := by
  obtain ⟨code, hcode, hadds⟩ := adds_rows 0 ms
  have hquotes : ∀ {s : Text}, (∀ x ∈ s, x ≠ '"') → '"' ∉ s := fun hs h => hs _ h rfl
  have hspace' : ∀ x ∈ space, x ≠ '"' := fun x hx h => hspace (h ▸ hx)
  have harray' : ∀ x ∈ array, x ≠ '"' := fun x hx h => harray (h ▸ hx)
  have hne : ∀ c, isCode c = true → c ≠ '"' := fun _ => ne_of_isCode
  refine ⟨opening space ++ (byteList ms ++ (between array ++ (code ++ closing space))), ?_, ?_⟩
  · have hlt : ∀ c, isCode c = true → c.toNat < 128 ∨ c ∈ space ∨ c ∈ array :=
      fun _ h => .inl (toNat_lt_of_isCode h)
    have hin : ∀ c ∈ space, c.toNat < 128 ∨ c ∈ space ∨ c ∈ array := fun _ h => .inr (.inl h)
    rw [List.forall_mem_append, List.forall_mem_append, List.forall_mem_append,
      List.forall_mem_append]
    exact ⟨forall_opening hlt hin, forall_byteList hlt ms,
      forall_between hlt fun _ h => .inr (.inr h), fun x hx => hlt x (hcode x hx),
      forall_closing hlt hin⟩
  · -- the parts of the layout from its end to its start; only the rows add literals
    have hclosing := adds_code (hquotes (forall_closing hne hspace'))
    have hbetween := adds_code (hquotes (forall_between hne harray'))
    have hbytes := adds_code (hquotes (forall_byteList hne ms))
    have hopening := adds_code (hquotes (forall_opening hne hspace'))
    have hall := hopening.append (hbytes.append (hbetween.append (hadds.append hclosing)))
    rw [layout_eq]
    simpa only [Parts.append_eq, List.append_nil, List.nil_append] using hall

/-! ### Files of checked configurations -/

theorem mem_rows_of_mem (hm : m ∈ ms) (hx : x ∈ m.id) (offset : Nat) : x ∈ rows offset ms := by
  induction ms generalizing offset with
  | nil => cases hm
  | cons k ms ih =>
    show x ∈ row offset k ++ rows (offset + k.text.length) ms
    rcases List.mem_cons.1 hm with rfl | hm
    · have hliteral : x ∈ '"' :: escape m.id ++ ['"'] :=
        List.mem_append_left _ (List.mem_cons_of_mem _ (mem_escape_of_mem hx))
      rw [row_eq]
      exact List.mem_append_left _ (List.mem_append_left _ (List.mem_append_right _ hliteral))
    · exact List.mem_append_right _ (ih hm _)

/-- A file is ASCII exactly when the two names and the ids are. -/
theorem isAscii_layout_iff : (layout space array (byteList ms) (rows 0 ms)).IsAscii ↔
    space.IsAscii ∧ array.IsAscii ∧ ∀ m ∈ ms, m.id.IsAscii := by
  simp only [isAscii_iff]
  constructor
  · intro h
    rw [layout_eq, List.forall_mem_append, List.forall_mem_append, List.forall_mem_append,
      List.forall_mem_append] at h
    obtain ⟨hopening, -, hbetween, hrows, -⟩ := h
    refine ⟨fun x hx => hopening x ?_, fun x hx => hbetween x ?_, fun m hm x hx => hrows x ?_⟩
    · exact List.mem_append_left _ (List.mem_append_right _ hx)
    · exact List.mem_append_left _ (List.mem_append_right _ hx)
    · exact mem_rows_of_mem hm hx 0
  · rintro ⟨hspace, harray, hids⟩
    exact forall_layout (fun _ => toNat_lt_of_isCode) (by decide) hspace harray hids

/-- **The files of checked configurations**, whatever notation their patterns are checked in.  Outside of
the string literals of a file stand ASCII characters, and besides these only word characters of the
namespace and of the name of the array.  The literals stand for the ids, one for each module in order: no
quote in one ends it early, and a line end in one is a line end of the id.  The file is ASCII when the
two names and the ids are. -/
theorem render_plain {c : Config} {pattern? : PatternReader} {out : Text}
    (hc : c.check pattern? = .ok ())
    (hout : render c.namespaceName c.arrayName ms = .ok out) :
    (∃ p, parts? out = some p ∧
      (∀ x ∈ p.code,
        x.toNat < 128 ∨ isWord x = true ∧ (x ∈ c.namespaceName ∨ x ∈ c.arrayName)) ∧
      List.Forall₂ (fun l m => StandsFor m.id l) p.literals ms) ∧
    (c.namespaceName.IsAscii → c.arrayName.IsAscii → (∀ m ∈ ms, m.id.IsAscii) → out.IsAscii) := by
  obtain ⟨-, hnamespace, harrayName, -⟩ := Config.check_eq_ok_iff.1 hc
  obtain ⟨-, rfl⟩ := render_eq_ok_iff.1 hout
  have hspace : ∀ x ∈ c.namespaceName, x = ':' ∨ isWord x = true :=
    fun _ => Config.isWord_of_isNamespace hnamespace
  have harray : ∀ x ∈ c.arrayName, isWord x = true :=
    fun _ => Config.isWord_of_isArrayName harrayName
  have hquote : ¬ ('"' = ':' ∨ isWord '"' = true) := by decide
  obtain ⟨code, hcode, hadds⟩ := adds_layout (fun h => hquote (hspace _ h))
    (fun h => hquote (.inr (harray _ h))) ms
  refine ⟨⟨_, hadds.parts?_eq, ?_, ?_⟩, fun hs ha hids => isAscii_layout_iff.2 ⟨hs, ha, hids⟩⟩
  · intro x hx
    rcases hcode x hx with hx | hx | hx
    · exact .inl hx
    · rcases hspace x hx with rfl | hword
      · exact .inl (by decide)
      · exact .inr ⟨hword, .inl hx⟩
    · exact .inr ⟨harray x hx, .inr hx⟩
  · rw [List.forall₂_map_left_iff, List.forall₂_same]
    exact fun m _ => standsFor_escape m.id

/-- A module whose id looks like the end of its own literal. -/
def quotedModule : EmbeddedModule := ⟨"\"\\\"), \".js".toList, "x".toList⟩

theorem render_plain_quoted :
    Config.standard.check = .ok () ∧
    ∃ out, render Config.standard.namespaceName Config.standard.arrayName [quotedModule] = .ok out ∧
      (∃ p, parts? out = some p ∧
        (∀ x ∈ p.code, x.toNat < 128 ∨ isWord x = true ∧
          (x ∈ Config.standard.namespaceName ∨ x ∈ Config.standard.arrayName)) ∧
        List.Forall₂ (fun l m => StandsFor m.id l) p.literals [quotedModule]) ∧
      Config.standard.namespaceName.IsAscii ∧ Config.standard.arrayName.IsAscii ∧
      quotedModule.id.IsAscii ∧ out.IsAscii := by
  have hspace : Config.standard.namespaceName.IsAscii := by decide
  have harray : Config.standard.arrayName.IsAscii := by decide
  have hid : quotedModule.id.IsAscii := by decide
  have hout : render Config.standard.namespaceName Config.standard.arrayName [quotedModule] =
      .ok _ := render_eq_ok_iff.2 ⟨List.forall_mem_singleton.2 (by decide), rfl⟩
  obtain ⟨hparts, hascii⟩ := render_plain Config.check_standard hout
  exact ⟨Config.check_standard, _, hout, hparts, hspace, harray, hid,
    hascii hspace harray (List.forall_mem_singleton.2 hid)⟩

/-- A configuration whose namespace has letters that are not ASCII. -/
def umlauts : Config := { Config.standard with namespaceName := "größe".toList }

/-- **What checks let through.**  File names beyond ASCII are ids, letters of any script may stand in a
namespace, and a file name with a line end puts that into a literal. -/
theorem render_beyondAscii :
    (Config.standard.check = .ok () ∧
      moduleId? (Path.ofString "js/é.js") = some "é.js".toList ∧
      ∃ out, render Config.standard.namespaceName Config.standard.arrayName
        [⟨"é.js".toList, []⟩] = .ok out ∧ ¬ out.IsAscii) ∧
    (umlauts.check = .ok () ∧
      ∃ out, render umlauts.namespaceName umlauts.arrayName [] = .ok out ∧ ¬ out.IsAscii) ∧
    moduleId? (Path.ofString "js/a\nb.js") = some "a\nb.js".toList ∧
      ∃ out p, render Config.standard.namespaceName Config.standard.arrayName
        [⟨"a\nb.js".toList, []⟩] = .ok out ∧ parts? out = some p ∧ ∃ l ∈ p.literals, '\n' ∈ l := by
  -- a module without text is never refused
  have hrender : ∀ space array id : Text, render space array [⟨id, []⟩] =
      .ok (layout space array (byteList [⟨id, []⟩]) (rows 0 [⟨id, []⟩])) := fun _ _ _ => rfl
  refine ⟨⟨Config.check_standard, by decide, _, hrender _ _ _, ?_⟩,
    ⟨by decide +kernel, _, rfl, ?_⟩, by decide, ?_⟩
  · intro h
    exact absurd ((isAscii_layout_iff.1 h).2.2 _ List.mem_cons_self) (by decide)
  · intro h
    exact absurd (isAscii_layout_iff.1 h).1 (by decide)
  · have hspace : '"' ∉ Config.standard.namespaceName := by decide
    have harray : '"' ∉ Config.standard.arrayName := by decide
    obtain ⟨code, -, hadds⟩ := adds_layout hspace harray [⟨"a\nb.js".toList, []⟩]
    exact ⟨_, _, hrender _ _ _, hadds.parts?_eq, _, List.mem_cons_self, by decide⟩

end Cpp

end ScriptEmbed
