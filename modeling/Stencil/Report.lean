import Stencil.Source
import Stencil.Text.Line
import Stencil.Text.Width

/-!
An error shown with the lines of the source that it points at: a frame with the place, the
source, a mark under the span, and a label at the mark. Offsets here count characters. A span
whose end lies before its start cannot be shown.
-/
namespace Stencil.Report

def spaces (n : Nat) : String :=
  String.ofList (List.replicate n ' ')

def repeated (n : Nat) (c : Char) : String :=
  String.ofList (List.replicate n c)

def tabWidth : Nat :=
  4

/-- The cells of a character that stands in a column. A tab reaches to the next tab stop, and
any other blank takes one cell. -/
def cellsAt (column : Nat) (c : Char) : Nat :=
  if c = '\t' then (column / tabWidth + 1) * tabWidth - column
  else if Text.isBlank c then 1
  else Text.cells c

/-- The cells of a column of a line; columns behind its end have one. -/
def columnCells (text : List Char) (column : Nat) : Nat :=
  (text[column]?.map (cellsAt column)).getD 1

/-- A line as it is shown, with blanks as spaces. -/
def shown (line : List Char) : String :=
  String.ofList (line.zipIdx.flatMap fun (c, column) =>
    if Text.isBlank c then List.replicate (cellsAt column c) ' ' else [c])

/-- A mark that begins with one character and fills its cells with another. -/
def mark (cells : Nat) (first more : Char) : List Char :=
  match cells with
  | 0 => []
  | n + 1 => first :: List.replicate n more

/-- One mark per column, as wide as the column. -/
def marks (line : List Char) (columns : Nat) (f : Nat → Char × Char) : String :=
  String.ofList ((List.range columns).flatMap fun column =>
    mark (columnCells line column) (f column).1 (f column).2)

/-- The start of a row: the number of its line, or nothing, right-aligned in the margin. -/
def margin (width : Nat) (number : String) : String :=
  " " ++ spaces (width - number.length) ++ number ++ " "

/-- A span within one line: a mark under its middle, a line under the rest, and the label. -/
def single (width : Nat) (line : Text.Line) (start stop : Nat) (label : String) : List String :=
  let text := Text.trimEnd line.chars
  let middle := (start + stop) / 2 - line.start
  let columns := stop - line.start + 2
  let under (column : Nat) : Char × Char :=
    if column = middle then (if start = stop then ('│', ' ') else ('┬', '─'))
    else if start ≤ line.start + column ∧ line.start + column < stop then ('─', '─')
    else (' ', ' ')
  let hook (column : Nat) : Char × Char :=
    if column < middle then (' ', ' ') else if column = middle then ('╰', '─') else ('─', '─')
  [margin width (Nat.repr line.number) ++ "│ " ++ shown text,
    margin width "" ++ "│ " ++ marks text columns under,
    margin width "" ++ "│ " ++ marks text columns hook ++ " " ++ label]

/-- A span over several lines: its first and its last line with an arrow to each. -/
def several (width : Nat) (first last : Text.Line) (label : String) : List String :=
  let text := Text.trimEnd last.chars
  let columns := last.chars.length + 2
  let between :=
    if last.number = first.number + 1 then [] else [margin width "" ++ "┆ ┆   "]
  [margin width (Nat.repr first.number) ++ "│ ╭─▶ " ++ shown (Text.trimEnd first.chars)] ++
    between ++
    [margin width (Nat.repr last.number) ++ "│ ├─▶ " ++ shown text,
      margin width "" ++ "│ │   " ++ marks text columns fun _ => (' ', ' '),
      margin width "" ++ "│ ╰───" ++ (marks text columns fun _ => ('─', '─')) ++ " " ++ label]

/-- The rows below the message. A source without lines has none. -/
def frame (file : String) (lines : List Text.Line) (start stop : Nat) (label : String) :
    List String :=
  match Text.lineAt? lines start, Text.lineAt? lines (max (stop - 1) start) with
  | some first, some last =>
    let width := (Nat.repr last.number).length
    let place := s!"{file}:{first.number}:{start - first.start + 1}"
    [spaces (width + 2) ++ "╭─[" ++ place ++ "]", spaces (width + 2) ++ "│"] ++
      (if first.number = last.number then single width first start stop label
        else several width first last label) ++
      [repeated (width + 2) '─' ++ "╯"]
  | _, _ => []

/-- The report of one error, unless its span is reversed. -/
def render? (source file : String) (span : Span) (message label : String) : Option String :=
  let chars := source.toList
  let start := Text.charOffset chars span.start
  let stop := Text.charOffset chars span.stop
  if stop < start then none
  else
    let rows := ("Error: " ++ message) :: frame file (Text.lines chars) start stop label
    some (String.join (rows.map (· ++ "\n")))

end Stencil.Report

namespace Stencil

def SyntaxError.report? (e : SyntaxError) (source file : String) : Option String :=
  Report.render? source file e.span e.message e.label

def CompileError.report? (e : CompileError) (source file : String) : Option String :=
  Report.render? source file e.span e.message e.label

/-- The reports of all errors, with a blank line between two. -/
def SourceError.report? (e : SourceError) (source file : String) : Option String :=
  match e with
  | .parse error => error.report? source file
  | .compile errors =>
    (errors.mapM (CompileError.report? · source file)).map ("\n".intercalate ·)

end Stencil
