import Stencil.Span
import Stencil.Token
import Stencil.Text.Blank
import Stencil.Text.Position

/-!
Splits template markup into tokens. Outside a tag everything up to the next `<` is text; inside
one, blanks separate names, values and marks. Each step takes at least one character, so the
text runs out.
-/
namespace Stencil.Token

inductive Mode where
  | content
  | tag
  deriving DecidableEq, Repr

/-- What starts at a character: its token, unless it is skipped, how many characters it has
after that one, and the mode that follows. -/
structure Piece where
  token : Option Token
  extra : Nat
  mode : Mode
  deriving DecidableEq, Repr

/-- The text before the first `-->`. -/
def commentBody : List Char → Option (List Char)
  | '-' :: '-' :: '>' :: _ => some []
  | c :: cs => (commentBody cs).map (c :: ·)
  | [] => none

/-- The text before the brace that closes `depth + 1` open ones; braces in quotes count. -/
def expressionBody : Nat → List Char → Option (List Char)
  | _, [] => none
  | depth, c :: cs =>
    if c = '{' then (expressionBody (depth + 1) cs).map (c :: ·)
    else if c = '}' then
      match depth with
      | 0 => some []
      | d + 1 => (expressionBody d cs).map (c :: ·)
    else (expressionBody depth cs).map (c :: ·)

def isTagBlank (c : Char) : Bool :=
  c == ' ' || c == '\t' || c == '\n' || c == '\r'

def isNameStart (c : Char) : Bool :=
  c.isAlpha || c == '_'

def isNameChar (c : Char) : Bool :=
  c.isAlphanum || c == '_' || c == ':' || c == '.' || c == '-'

/-- Between tags: a comment that is never closed costs its four opening characters. -/
def contentPiece (c : Char) (cs : List Char) : Piece :=
  if c = '<' then
    match cs with
    | '!' :: '-' :: '-' :: rest =>
      match commentBody rest with
      | some body => ⟨some (.comment (String.ofList body)), 3 + body.length + 3, .content⟩
      | none => ⟨some .invalid, 3, .content⟩
    | '/' :: _ => ⟨some .closeTagOpen, 1, .tag⟩
    | _ => ⟨some .tagOpen, 0, .tag⟩
  else
    let more := cs.takeWhile (· ≠ '<')
    ⟨some (.text (String.ofList (c :: more))), more.length, .content⟩

/-- A quote without its partner takes the rest of the input. -/
def literalPiece (quote : Char) (cs : List Char) : Piece :=
  let body := cs.takeWhile (· ≠ quote)
  if body.length < cs.length then
    ⟨some (.literal (String.ofList body)), body.length + 1, .tag⟩
  else ⟨some .invalid, cs.length, .tag⟩

/-- A brace without its partner is invalid by itself. -/
def expressionPiece (cs : List Char) : Piece :=
  match expressionBody 0 cs with
  | some body =>
    ⟨some (.expression (String.ofList (Text.trimChars body))), body.length + 1, .tag⟩
  | none => ⟨some .invalid, 0, .tag⟩

def tagPiece (c : Char) (cs : List Char) : Piece :=
  if isTagBlank c then ⟨none, 0, .tag⟩
  else if isNameStart c then
    let more := cs.takeWhile isNameChar
    ⟨some (.name (String.ofList (c :: more))), more.length, .tag⟩
  else if c = '=' then ⟨some .equals, 0, .tag⟩
  else if c = '"' ∨ c = '\x27' then literalPiece c cs
  else if c = '{' then expressionPiece cs
  else if c = '>' then ⟨some .tagClose, 0, .content⟩
  else if c = '/' ∧ cs.head? = some '>' then ⟨some .selfClose, 1, .content⟩
  else ⟨some .invalid, 0, .tag⟩

def Mode.piece : Mode → Char → List Char → Piece
  | content => contentPiece
  | tag => tagPiece

/-- The tokens of a text that starts at offset `pos`. -/
def lexFrom (mode : Mode) (pos : Nat) : List Char → List (Located Token)
  | [] => []
  | c :: cs =>
    let piece := mode.piece c cs
    let stop := pos + Text.byteLength (c :: cs.take piece.extra)
    let rest := lexFrom piece.mode stop (cs.drop piece.extra)
    match piece.token with
    | some token => ⟨token, ⟨pos, stop⟩⟩ :: rest
    | none => rest
termination_by cs => cs.length

def lex (source : String) : List (Located Token) :=
  lexFrom .content 0 source.toList

end Stencil.Token
