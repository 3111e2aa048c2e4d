/-!
Styles of a text on a terminal, which control sequences in the text switch on and off. Where no
style can be shown the text goes without these sequences, and without control characters other
than blanks. A tab or the end of a line is shown even inside a sequence; what follows it is text
up to the next control character, which leads back into the sequence.
-/
namespace Stencil.Text

/-- A text in bold. -/
def bold (s : String) : String :=
  "\x1b[1m" ++ s ++ "\x1b[0m"

/-- What has been read of a control sequence. -/
inductive Sequence where
  /-- The escape character. -/
  | escape
  /-- A sequence without a bracket, which ends with its first letter or digit. -/
  | short
  /-- The parameters in front of a letter that ends the sequence. -/
  | parameters
  /-- A command for the system, which a bell ends. -/
  | command
  /-- The start of a string for a device. -/
  | device
  /-- Parameters in front of such a string. -/
  | deviceParameters
  /-- Marks behind these parameters. -/
  | deviceMarks
  /-- A string, which has a terminator of its own. -/
  | string
  deriving DecidableEq, Repr

/-- Where a character of a text stands. -/
inductive Place where
  | text
  | inside (s : Sequence)
  /-- In text that interrupts a sequence. -/
  | interrupting (s : Sequence)
  deriving DecidableEq, Repr

def isLayout (c : Char) : Bool :=
  c == '\t' || c == '\n' || c == '\x0c' || c == '\r'

/-- Whether a character of text is shown. -/
def isShown (c : Char) : Bool :=
  isLayout c || (0x20 ≤ c.toNat && c.toNat ≠ 0x7F)

def isBetween (first last : Char) (c : Char) : Bool :=
  first ≤ c && c ≤ last

namespace Sequence

/-- Sequences that layout can interrupt: those without a text of their own. -/
def isInterruptible : Sequence → Bool
  | escape | short | parameters => true
  | _ => false

/-- The place behind a character that is neither layout nor a control which ends every
sequence. -/
def next (s : Sequence) (c : Char) : Place :=
  let stay := Place.inside s
  match s with
  | escape =>
    if c = '[' then .inside parameters
    else if c = ']' then .inside command
    else if c = 'P' then .inside device
    else if c = 'X' ∨ c = '^' ∨ c = '_' then .inside string
    else if isBetween ' ' '/' c then .inside short
    else if isBetween '0' '~' c then .text
    else stay
  | short => if isBetween '0' '~' c then .text else stay
  | parameters => if isBetween '@' '~' c then .text else stay
  | command => if c = '\x07' then .text else stay
  | device =>
    if isBetween ' ' '/' c then .inside deviceMarks
    else if isBetween '0' '?' c then .inside deviceParameters
    else if isBetween '@' '~' c then .inside string
    else stay
  | deviceParameters =>
    if isBetween ' ' '/' c then .inside deviceMarks
    else if isBetween '<' '~' c then .inside string
    else stay
  | deviceMarks => if isBetween '0' '~' c then .inside string else stay
  | string =>
    -- the terminator is a byte, also where it is a part of a character
    if (String.utf8EncodeChar c).contains 0x9C then .text else stay

end Sequence

namespace Place

/-- Whether a character at this place is shown. -/
def shows : Place → Char → Bool
  | text, c | interrupting _, c => isShown c
  | inside s, c => s.isInterruptible && isLayout c

/-- The place behind a character. A new escape character starts another sequence, two of the
controls end every sequence, and a character beyond ASCII ends an interrupted one. -/
def step (p : Place) (c : Char) : Place :=
  if c = '\x1b' then inside .escape
  else if c = '\x18' ∨ c = '\x1a' then text
  else match p with
    | text => text
    | inside s => if p.shows c then interrupting s else s.next c
    | interrupting s =>
      if !isShown c then inside s else if c.toNat < 0x80 then interrupting s else text

end Place

/-- What is shown of a text that begins at a place. -/
def shownFrom : Place → List Char → List Char
  | _, [] => []
  | p, c :: cs =>
    if p.shows c then c :: shownFrom (p.step c) cs else shownFrom (p.step c) cs

/-- A text as it is shown without styles. -/
def unstyled (s : String) : String :=
  String.ofList (shownFrom .text s.toList)

end Stencil.Text
