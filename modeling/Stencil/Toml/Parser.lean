import Stencil.Toml.Key
import Stencil.Toml.Scalar

/-!
Reads a TOML document: its statements line by line, and the value that they build.
-/
namespace Stencil.Toml

open Reader

/-- Arrays and braces may stand in each other less deep than this, and a key has fewer parts. -/
def depthLimit : Nat :=
  80

def comment : Reader Unit := do
  char '#'
  discard (many (satisfy isPlain))

def simpleKey : Reader Key :=
  located do
    let cs ← basicString <|> literalString <|> (do
      let first ← satisfy isBareKeyChar
      let others ← many (satisfy isBareKeyChar)
      pure (first :: others))
    pure (String.ofList cs)

/-- A dotted key: the path in front of its last part, and that part. -/
def dottedKey : Reader (List Key × Key) := do
  let start ← offset
  let parts ← named "key"
    (separated (do blanks; let k ← simpleKey; blanks; pure k) (char '.'))
  match parts.reverse with
  | last :: before =>
    if parts.length < depthLimit then pure (before.reverse, last)
    else refuseAt start (some .tooDeep)
  | [] => refuse

/-- A key and its value, each read by a given reader. -/
def assignment (value : Reader Value) : Reader (List Key × Key × Value) := do
  let (path, key) ← dottedKey
  commit do
    wanting ["`.`", "`=`"] (char '=')
    blanks
    let v ← value
    blanks
    pure (path, key, v)

/-- Blanks, line ends and comments with their line ends, up to a number of lines. -/
def interspaceWithin : Nat → Reader Unit
  | 0 => blanks
  | lines + 1 => do
    blanks
    match ← remaining with
    | '#' :: _ => do
      comment
      newline
      interspaceWithin lines
    | '\n' :: _ | '\r' :: _ => do
      newline
      interspaceWithin lines
    | _ => pure ()

/-- What may stand between the items of an array. A line takes at least one character. -/
def interspace : Reader Unit := do
  interspaceWithin (← remaining).length

def array (value : Reader Value) : Reader Value := do
  let ⟨items, span⟩ ← located do
    char '['
    commit do
      let items ← optional (separated (do interspace; let v ← value; interspace; pure v)
        (char ','))
      let items := items.getD []
      if !items.isEmpty then discard (optional (char ','))
      interspace
      named "array" (wanting ["`]`"] (char ']'))
      pure items
  pure (.array items span)

def braces (value : Reader Value) : Reader Value := do
  let ⟨entries, span⟩ ← located do
    char '{'
    commit do
      let start ← offset
      let items ← optional (separated (assignment value) (char ','))
      blanks
      let entries ← ofExcept start (Value.inlineTable (items.getD []))
      named "inline table" (wanting ["`\x7d`"] (char '}'))
      pure entries
  pure (.table .inline entries (some span))

def tooDeep : Reader Value := do
  commit (refuseAt (← offset) (some .tooDeep))

/-- A value in which arrays and braces may be nested to a depth. -/
def value : Nat → Reader Value
  | 0 => anyValue tooDeep tooDeep
  | depth + 1 => anyValue (array (value depth)) (braces (value depth))
where
  anyValue (array braces : Reader Value) : Reader Value := do
    match ← remaining with
    | '[' :: _ => array
    | '{' :: _ => braces
    | _ =>
      let ⟨s, span⟩ ← located scalar
      pure (.scalar s span)

/-- What may follow a statement on its line. -/
def lineEnd : Reader Unit :=
  wanting ["newline", "`#`"] do
    blanks
    let _ ← optional comment
    newline <|> atEnd

/-- The key between the brackets of a header, which are as many as `repeated` says. -/
def headerKey (repeated : Bool) : Reader (Located (List Key × Key)) :=
  located do
    word (if repeated then ['[', '['] else ['['])
    let key ← dottedKey
    wanting ["`.`", if repeated then "`]]`" else "`]`"]
      (word (if repeated then [']', ']'] else [']']))
    pure key

def header (d : Document) : Reader Document :=
  named "table header" do
    let start ← offset
    match ← remaining with
    | '[' :: '[' :: _ =>
      let ⟨(path, key), span⟩ ← headerKey true
      lineEnd
      ofExcept start (d.add (.repeatedHeader path key span))
    | '[' :: _ :: _ =>
      let ⟨(path, key), span⟩ ← headerKey false
      lineEnd
      ofExcept start (d.add (.header path key span))
    | _ => refuse

def keyValue (d : Document) : Reader Document := do
  let start ← offset
  let (path, key, v) ← assignment (value (depthLimit - 1))
  lineEnd
  ofExcept start (d.add (.assignment path key v))

/-- The document with what stands in front of the next blanks: a comment, a statement with its
line end, or a line end alone. -/
def step (d : Document) : Reader Document := do
  match ← remaining with
  | [] => refuse
  | '#' :: _ => commit do
    comment
    newline <|> atEnd
    pure d
  | '[' :: _ => commit (header d)
  | '\n' :: _ | '\r' :: _ => do
    newline
    pure d
  | _ => commit (keyValue d)

/-- A document up to the end of the text. -/
def document : Reader Document := do
  let _ ← optional (char '\uFEFF')
  blanks
  let size := (← remaining).length
  iterate (fun d => do let d ← step d; blanks; pure d) size .empty

/-- The root table of a document, unless the text is not TOML. -/
def parse (text : String) : Except Refusal Value :=
  (readAll document text.toList).map (·.root)

end Stencil.Toml
