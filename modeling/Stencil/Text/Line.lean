import Stencil.Text.Position

/-!
Division of a text into lines. A line keeps its terminator, and a return followed by a line feed
is one terminator. A text that ends with a terminator has no empty line behind it.
-/
namespace Stencil.Text

/-- Line feed, vertical tab, form feed, return, next line, and the two separators. -/
def isTerminator (c : Char) : Bool :=
  let n := c.toNat
  (0x0A ≤ n && n ≤ 0x0D) || n == 0x85 || n == 0x2028 || n == 0x2029

def splitLines : List Char → List (List Char)
  | [] => []
  | '\r' :: '\n' :: cs => ['\r', '\n'] :: splitLines cs
  | c :: cs =>
    if isTerminator c then [c] :: splitLines cs
    else
      match splitLines cs with
      | [] => [[c]]
      | line :: lines => (c :: line) :: lines

/-- A line with its number, from 1, and the number of characters in front of it. -/
structure Line where
  number : Nat
  start : Nat
  chars : List Char
  deriving DecidableEq, Repr

def numberLines (number start : Nat) : List (List Char) → List Line
  | [] => []
  | chars :: rest => ⟨number, start, chars⟩ :: numberLines (number + 1) (start + chars.length) rest

def lines (cs : List Char) : List Line :=
  numberLines 1 0 (splitLines cs)

/-- The last line that starts at the offset or before it. -/
def lineAt? (lines : List Line) (offset : Nat) : Option Line :=
  (lines.filter (·.start ≤ offset)).getLast?

/-- Lines that line feeds end, without their ends; a return in front of a line feed belongs to the
end. -/
def feedLines : List Char → List (List Char)
  | [] => []
  | '\n' :: cs => [] :: feedLines cs
  | '\r' :: '\n' :: cs => [] :: feedLines cs
  | c :: cs =>
    match feedLines cs with
    | [] => [[c]]
    | line :: lines => (c :: line) :: lines

end Stencil.Text
