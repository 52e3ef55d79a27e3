import Mathlib.Data.List.Basic

/-!
# Assignments in a shell file

What a POSIX shell takes for assignments in a text. The text is cut into words and operators
(`lex`): a quotation or a substitution may span blanks and lines, the parts of a word may be quoted
in several ways, a comment ends with its line. Of the words of a command (`Command`) those in front
of its name are assignments, and so are the operands of `export` and `readonly`. In front of any
other name but a special built-in's they hold for that command only, and are not counted.

Expansions are left as they are written. Here-documents, aliases, the patterns of `case`, and
comments within a substitution are not told apart, and an assignment counts whether or not its
command is reached, and in a subshell too. What `eval`, `.`, `command` and other utilities make of
their operands is not followed.

A text may have gaps (`none`), each of which stands for a text that is not known yet.
-/

set_option autoImplicit false

namespace Shell

/-- Characters and gaps. -/
abbrev Text := List (Option Char)

/-- A text without gaps. -/
def chars (l : List Char) : Text := l.map some

def dquote : Char := '\x22'

def squote : Char := '\x27'

def backquote : Char := '\x60'

def backslash : Char := '\x5c'

def isBlank (c : Char) : Bool := c = ' ' || c = '\t'

/-- The operators that end a command. -/
def isControl (c : Char) : Bool := c ∈ ['|', '&', ';', '(', ')', '\n']

def isRedirection (c : Char) : Bool := c ∈ ['<', '>']

/-- The characters that a backslash takes the meaning of between double quotes. -/
def isEscapable (c : Char) : Bool := c ∈ ['$', backquote, dquote, backslash]

def isDigit (c : Char) : Bool := '0' ≤ c && c ≤ '9'

def isLetter (c : Char) : Bool := ('a' ≤ c && c ≤ 'z') || ('A' ≤ c && c ≤ 'Z') || c = '_'

/-- The name of a variable. -/
def isName (l : List Char) : Bool :=
  l.head?.any isLetter && l.all fun c => isLetter c || isDigit c

/-! ## Quotations and substitutions -/

inductive Context where
  | double
  | single
  | backquote
  | command
  | parameter
  deriving DecidableEq, Repr

def Context.closing : Context → Char
  | .double => dquote
  | .single => squote
  | .backquote => Shell.backquote
  | .command => ')'
  | .parameter => '}'

/-- What a character opens outside of all quotations, behind a `$` or not. -/
def opening (dollar : Bool) (c : Char) : Option Context :=
  if c = dquote then some .double
  else if c = squote then some .single
  else if c = backquote then some .backquote
  else if dollar = true ∧ c = '(' then some .command
  else if dollar = true ∧ c = '{' then some .parameter
  else none

/-- What it opens in the innermost of some contexts, `outer` around it. -/
def Context.opening (outer : List Context) (dollar : Bool) (c : Char) : Context → Option Context
  | .single | .backquote => none
  | .double => if c = squote then none else Shell.opening dollar c
  | .command => if c = '(' then some .command else Shell.opening dollar c
  | .parameter =>
    if c = squote ∧ outer.head? = some .double then none else Shell.opening dollar c

/-- The contexts behind a character, innermost first. -/
def contextsAfter (dollar : Bool) (c : Char) : List Context → List Context
  | [] => (opening dollar c).toList
  | k :: ks => if c = k.closing then ks else (k.opening ks dollar c).toList ++ k :: ks

/-- Within a substitution everything is left as it is written. -/
def isRaw (ks : List Context) : Bool := ks.any fun k => k ≠ .double && k ≠ .single

/-! ## Words -/

/-- A word: literal characters, an assignment, or a word that has something quoted or substituted
in it. Of the latter two, the text without the quotes. -/
inductive Word where
  | literal (cs : List Char)
  | assign (var : List Char) (value : Text)
  | quoted (text : Text)
  deriving DecidableEq, Repr

def Word.append (t : Text) : Word → Word
  | .literal cs => .quoted (chars cs ++ t)
  | .assign var value => .assign var (value ++ t)
  | .quoted text => .quoted (text ++ t)

/-- Add quoted text to the word at hand, if there is one. -/
def addQuoted (t : Text) (w : Option Word) : Word := (w.getD (.quoted [])).append t

/-- Add a character that is not quoted. -/
def addLiteral (c : Char) : Option Word → Word
  | none => .literal [c]
  | some (.literal cs) =>
    if c = '=' ∧ isName cs = true then .assign cs [] else .literal (cs ++ [c])
  | some w => w.append [some c]

/-- The number of a descriptor in front of a redirection. -/
def Word.isNumber : Word → Bool
  | .literal cs => cs.all isDigit
  | .assign _ _ | .quoted _ => false

inductive Token where
  | word (w : Word)
  | control
  | redirection
  deriving DecidableEq, Repr

/-- What a character does to the word at hand. -/
inductive Action where
  | skip
  | add (t : List Char)
  | literal (c : Char)
  | blank
  | control
  | redirection

def Action.word (w : Option Word) : Action → Option Word
  | .skip => w
  | .add t => some (addQuoted (chars t) w)
  | .literal c => some (addLiteral c w)
  | .blank | .control | .redirection => none

def Action.tokens (w : Option Word) : Action → List Token
  | .skip | .add _ | .literal _ => []
  | .blank => (w.map Token.word).toList
  | .control => (w.map Token.word).toList ++ [.control]
  | .redirection => ((w.filter (!·.isNumber)).map Token.word).toList ++ [.redirection]

/-! ## Characters -/

/-- How the next character is read: in which contexts, behind a backslash, behind a `$`, in a
comment. -/
structure Mode where
  contexts : List Context
  escaped : Bool
  dollar : Bool
  comment : Bool

def Mode.fresh : Mode := ⟨[], false, false, false⟩

/-- A character behind a backslash. -/
def escape (ks : List Context) (c : Char) : Action :=
  if isRaw ks = true then .add [c]
  else if c = '\n' then .skip
  else if ks = [] ∨ isEscapable c = true then .add [c]
  else .add [backslash, c]

/-- A character outside of all contexts. -/
def unquoted (c : Char) : Action :=
  if isBlank c = true then .blank
  else if isRedirection c = true then .redirection
  else if isControl c = true then .control
  else if c = '$' then .add [c]
  else .literal c

def Mode.next (m : Mode) (inWord : Bool) (c : Char) : Mode × Action :=
  if m.comment = true then
    if c = '\n' then (.fresh, .control) else (m, .skip)
  else if m.escaped = true then
    ({ m with escaped := false, dollar := false }, escape m.contexts c)
  else if c = backslash ∧ m.contexts.head? ≠ some .single then
    ({ m with escaped := true, dollar := false },
      if isRaw m.contexts = true then .add [c] else .skip)
  else
    let ks := contextsAfter m.dollar c m.contexts
    let m' := { m with contexts := ks, dollar := c = '$' && !m.dollar }
    if isRaw m.contexts = true ∨ isRaw ks = true then (m', .add [c])
    else if ks ≠ m.contexts then (m', .add [])
    else if ks ≠ [] then (m', .add [c])
    else if c = '#' ∧ inWord = false then ({ m' with comment := true }, .skip)
    else (m', unquoted c)

/-- A gap is read like a quoted character. -/
def Mode.gap (m : Mode) : Mode := { m with escaped := false, dollar := false }

/-- The words and operators of a text, behind the word at hand. -/
def lex : Mode → Option Word → Text → List Token
  | _, w, [] => (w.map Token.word).toList
  | m, w, none :: t =>
    if m.comment = true then lex m w t else lex m.gap (some (addQuoted [none] w)) t
  | m, w, some c :: t =>
    (m.next w.isSome c).2.tokens w ++
      lex (m.next w.isSome c).1 ((m.next w.isSome c).2.word w) t

/-! ## Commands -/

/-- The words behind which a command may begin. -/
def reserved : List (List Char) :=
  [['!'], ['{'], ['i', 'f'], ['t', 'h', 'e', 'n'], ['e', 'l', 's', 'e'], ['e', 'l', 'i', 'f'],
    ['w', 'h', 'i', 'l', 'e'], ['u', 'n', 't', 'i', 'l'], ['d', 'o']]

/-- The utilities whose operands are assignments. -/
def declaring : List (List Char) :=
  [['e', 'x', 'p', 'o', 'r', 't'], ['r', 'e', 'a', 'd', 'o', 'n', 'l', 'y']]

/-- The other special built-in utilities. -/
def special : List (List Char) :=
  [[':'], ['.'], ['b', 'r', 'e', 'a', 'k'], ['c', 'o', 'n', 't', 'i', 'n', 'u', 'e'],
    ['e', 'v', 'a', 'l'], ['e', 'x', 'e', 'c'], ['e', 'x', 'i', 't'],
    ['r', 'e', 't', 'u', 'r', 'n'], ['s', 'e', 't'], ['s', 'h', 'i', 'f', 't'],
    ['t', 'i', 'm', 'e', 's'], ['t', 'r', 'a', 'p'], ['u', 'n', 's', 'e', 't']]

/-- Where in a command the next word stands. -/
inductive Position where
  | first
  | assigning
  | operand
  | declared
  deriving DecidableEq, Repr

/-- A command as far as it has been read: whether the next word names the file of a redirection,
and the values that the command gives to a variable. -/
structure Command where
  position : Position
  redirected : Bool
  values : List Text

def Command.fresh : Command := ⟨.first, false, []⟩

/-- The value that an operand of `export` or `readonly` gives to the variable. -/
def Word.declared (var : List Char) : Word → Option Text
  | .literal _ => none
  | .assign x value => if x = var then some value else none
  | .quoted text =>
    if chars (var ++ ['=']) <+: text then some (text.drop (var.length + 1)) else none

/-- The name of the command has been read. -/
def Command.named (s : Command) (name : Text) : Command :=
  if name ∈ declaring.map chars then { s with position := .declared }
  else if name ∈ special.map chars then { s with position := .operand }
  else { s with position := .operand, values := [] }

def Command.word (var : List Char) (s : Command) (w : Word) : Command :=
  match s.position with
  | .operand => s
  | .declared => { s with values := s.values ++ (w.declared var).toList }
  | .first | .assigning =>
    match w with
    | .assign x value =>
      { s with
        position := .assigning
        values := if x = var then s.values ++ [value] else s.values }
    | .literal cs =>
      if s.position = .first ∧ cs ∈ reserved then s else s.named (chars cs)
    | .quoted text => s.named text

/-- The values that a variable is given, in a command and those behind it. -/
def assigned (var : List Char) : Command → List Token → List Text
  | s, [] => s.values
  | s, .word w :: ts =>
    if s.redirected = true then assigned var { s with redirected := false } ts
    else assigned var (s.word var w) ts
  | s, .redirection :: ts =>
    assigned var
      { s with
        redirected := true
        position := if s.position = .first then .assigning else s.position } ts
  | s, .control :: ts =>
    -- the second character of `>&` or `>|`
    if s.redirected = true then assigned var s ts
    else s.values ++ assigned var .fresh ts

/-- The values that a text gives to a variable. -/
def assignments (var : List Char) (t : Text) : List Text := assigned var .fresh (lex .fresh none t)

end Shell
