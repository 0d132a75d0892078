import ScriptEmbed.Text.Basic

/-!
# Arguments of commands

Options start with one or two hyphens; the value of one follows it as the next argument or after
an equals sign. After a lone `--` every argument is a file.

* `OptionName` — the options;
* `Command.Item` — an option with its value, or a file;
* `Command.scan?` — options and files in the order given;
* `Command.areValid` — whether each of them can be accepted.
-/

namespace ScriptEmbed

/-- The options of all commands. -/
inductive OptionName where
  | verbose | config | output | debug | definitions | stripComments | substitution | namespaceName
  | format
  deriving DecidableEq, Repr

namespace OptionName

/-- All options. -/
def all : List OptionName :=
  [verbose, config, output, debug, definitions, stripComments, substitution, namespaceName, format]

/-- The long name of an option. -/
def long : OptionName → Text
  | verbose => "verbose".toList
  | config => "config".toList
  | output => "output".toList
  | debug => "debug".toList
  | definitions => "macros".toList
  | stripComments => "strip-comments".toList
  | substitution => "substitution".toList
  | namespaceName => "namespace".toList
  | format => "format".toList

/-- The one-letter name of an option. -/
def short : OptionName → Option Char
  | verbose => some 'v'
  | output => some 'o'
  | _ => none

/-- The option is followed by a value. -/
def takesValue : OptionName → Bool
  | verbose | debug | stripComments => false
  | _ => true

/-- The option may come more than once. -/
def repeats : OptionName → Bool
  | verbose => true
  | _ => false

/-- Whether a text is a value of the option: paths are not empty, and choices are among those
offered. -/
def accepts (value : Text) : OptionName → Bool
  | config | output | definitions => !value.isEmpty
  | substitution => value == "substring".toList || value == "token".toList
  | format => value == "text".toList || value == "json".toList
  | _ => true

end OptionName

namespace Command

/-! ### Scanning -/

/-- An option with its value, or a file. -/
inductive Item where
  | option (name : OptionName) (value : Text)
  | file (path : Text)
  deriving DecidableEq, Repr

/-- An argument that is no option: it does not start with a hyphen, or is a lone hyphen. -/
def isPlain (arg : Text) : Bool := arg.head? != some '-' || arg == ['-']

/-- The value of an option from the next argument. -/
def nextValue? : List Text → Option (Text × List Text)
  | [] => none
  | arg :: rest => if isPlain arg then some (arg, rest) else none

/-- A text without an equals sign at its start. -/
def dropEquals : Text → Text
  | '=' :: rest => rest
  | t => t

/-- The options in a group of letters after one hyphen. An option with a value takes the rest of
the group as its value, or the next argument if the group ends. -/
def cluster? (allowed : List OptionName) : Text → List Text → Option (List Item × List Text)
  | [], args => some ([], args)
  | c :: rest, args =>
    match allowed.find? fun o => o.short == some c with
    | none => none
    | some o =>
      if o.takesValue then
        if rest.isEmpty then
          (nextValue? args).map fun (v, args) => ([.option o v], args)
        else some ([.option o (dropEquals rest)], args)
      else (cluster? allowed rest args).map fun (items, args) => (.option o [] :: items, args)

/-- An option by its long name, which an equals sign and the value may follow. -/
def long? (allowed : List OptionName) (t : Text) (args : List Text) :
    Option (Item × List Text) :=
  match allowed.find? fun o => o.long == Text.before '=' t with
  | none => none
  | some o =>
    match t.drop o.long.length with
    | '=' :: value => if o.takesValue then some (.option o value, args) else none
    | _ =>
      if o.takesValue then (nextValue? args).map fun (v, args) => (.option o v, args)
      else some (.option o [], args)

theorem nextValue?_length {args rest : List Text} {v : Text}
    (h : nextValue? args = some (v, rest)) : rest.length ≤ args.length := by
  cases args with
  | nil => simp [nextValue?] at h
  | cons a r =>
    simp only [nextValue?] at h
    split at h
    · simp only [Option.some.injEq, Prod.mk.injEq] at h
      simp [← h.2]
    · simp at h

theorem cluster?_length {allowed : List OptionName} {t : Text} {args rest : List Text}
    {items : List Item} (h : cluster? allowed t args = some (items, rest)) :
    rest.length ≤ args.length := by
  induction t generalizing items with
  | nil =>
    simp only [cluster?, Option.some.injEq, Prod.mk.injEq] at h
    simp [← h.2]
  | cons c t ih =>
    rw [cluster?] at h
    split at h
    · simp at h
    · split at h
      · split at h
        · obtain ⟨⟨v, r⟩, hv, heq⟩ := Option.map_eq_some_iff.1 h
          simp only [Prod.mk.injEq] at heq
          rw [← heq.2]
          exact nextValue?_length hv
        · simp only [Option.some.injEq, Prod.mk.injEq] at h
          simp [← h.2]
      · obtain ⟨⟨is, r⟩, hr, heq⟩ := Option.map_eq_some_iff.1 h
        obtain ⟨_, rfl⟩ := Prod.mk.inj heq
        exact ih hr

theorem long?_length {allowed : List OptionName} {t : Text} {args rest : List Text} {item : Item}
    (h : long? allowed t args = some (item, rest)) : rest.length ≤ args.length := by
  unfold long? at h
  split at h
  · simp at h
  · split at h
    · split at h
      · simp only [Option.some.injEq, Prod.mk.injEq] at h
        simp [← h.2]
      · simp at h
    · split at h
      · obtain ⟨⟨v, r⟩, hv, heq⟩ := Option.map_eq_some_iff.1 h
        simp only [Prod.mk.injEq] at heq
        rw [← heq.2]
        exact nextValue?_length hv
      · simp only [Option.some.injEq, Prod.mk.injEq] at h
        simp [← h.2]

/-- All options and files, unless one of them is not allowed or lacks its value. -/
def scan? (allowed : List OptionName) (args : List Text) : Option (List Item) :=
  match args with
  | [] => some []
  | ['-', '-'] :: rest => some (rest.map .file)
  | ('-' :: '-' :: t) :: rest =>
    match h : long? allowed t rest with
    | none => none
    | some (item, rest') =>
      have := long?_length h
      (scan? allowed rest').map (item :: ·)
  | ('-' :: c :: t) :: rest =>
    match h : cluster? allowed (c :: t) rest with
    | none => none
    | some (items, rest') =>
      have := cluster?_length h
      (scan? allowed rest').map (items ++ ·)
  | arg :: rest => (scan? allowed rest).map (.file arg :: ·)
termination_by args.length

/-- The files among items. -/
def files (items : List Item) : List Text :=
  items.filterMap fun
    | .file p => some p
    | _ => none

/-- The values given for an option. -/
def values (items : List Item) (o : OptionName) : List Text :=
  items.filterMap fun
    | .option p v => if p = o then some v else none
    | _ => none

/-- The value of an option, if it is given. -/
def value? (items : List Item) (o : OptionName) : Option Text := (values items o).head?

/-- The option is given. -/
def has (items : List Item) (o : OptionName) : Bool := (value? items o).isSome

/-- Every option has an acceptable value and comes at most once, unless it may come again, and
no file is an empty text. -/
def areValid (items : List Item) : Bool :=
  (items.all fun
    | .option o v => o.accepts v
    | .file p => !p.isEmpty) &&
  OptionName.all.all fun o => o.repeats || (values items o).length ≤ 1

end Command

end ScriptEmbed
