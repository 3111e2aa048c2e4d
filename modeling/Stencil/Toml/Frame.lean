import Stencil.Span
import Stencil.Text.Position

/-!
A message about a TOML document with the line that it points at.
-/
namespace Stencil.Toml

/-- A place as line and column from 0, and the text of the line. -/
structure Place where
  line : Nat
  column : Nat
  content : List Char
  deriving DecidableEq, Repr

/-- The place of a byte. A column counts characters, but at a character of several bytes it counts
bytes. The end of the text lies one column behind the last character. -/
def placeOf (text : List Char) (offset : Nat) : Place :=
  let index := min (Text.charOffset text offset) (text.length - 1)
  let before := text.take index
  let sameLine := (before.reverse.takeWhile (· ≠ '\n')).reverse
  let behind := text.drop index
  let column :=
    if Text.byteLength text ≤ offset then sameLine.length + (if text = [] then 0 else 1)
    else if behind.head?.any (1 < ·.utf8Size) then Text.byteLength sameLine
    else sameLine.length
  ⟨before.count '\n', column, sameLine ++ behind.takeWhile (· ≠ '\n')⟩

/-- The message under its line, with a mark below the span. The mark ends with the line, whose
length is counted in bytes, and is never empty. -/
def frame (text : String) (span : Span) (message : String) : String :=
  let place := placeOf text.toList span.start
  let number := Nat.repr (place.line + 1)
  let margin := String.ofList (List.replicate (number.length + 1) ' ') ++ "|"
  let marked := min (span.stop - span.start) (Text.byteLength place.content - place.column)
  "TOML parse error at line " ++ number ++ ", column " ++ Nat.repr (place.column + 1) ++ "\n" ++
    margin ++ "\n" ++ number ++ " | " ++ String.ofList place.content ++ "\n" ++
    margin ++ String.ofList (List.replicate (place.column + 1) ' ' ++
      List.replicate (max marked 1) '^') ++ "\n" ++ message ++ "\n"

end Stencil.Toml
