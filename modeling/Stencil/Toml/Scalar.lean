import Stencil.Toml.Reader
import Stencil.Toml.Value

/-!
Scalars of TOML: strings in their four forms, numbers, truth values, dates and times.
-/
namespace Stencil.Toml

open Reader

/-- Blanks within a line. -/
def isInlineBlank (c : Char) : Bool :=
  c == ' ' || c == '\t'

def blanks : Reader Unit :=
  discard (many (satisfy isInlineBlank))

/-- A line feed, or a return and a line feed. A refusal comes behind the first character. -/
def newline : Reader Unit := do
  match ← satisfy fun _ => true with
  | '\n' => pure ()
  | '\r' => char '\n'
  | _ => refuse

/-! Strings. -/

def hexValue (cs : List Char) : Nat :=
  cs.foldl (fun n c =>
    let digit := if c.isDigit then c.toNat - 0x30 else (c.toNat ||| 0x20) - 0x61 + 10
    16 * n + digit) 0

def isHex (c : Char) : Bool :=
  c.isDigit || ('a' ≤ c && c ≤ 'f') || ('A' ≤ c && c ≤ 'F')

/-- A character by its code, which must be that of a character. -/
def coded (digits : Nat) : Reader Char := do
  let start ← offset
  let n := hexValue (← whole (exactly digits (satisfy isHex)))
  if n.isValidChar then pure (Char.ofNat n) else refuseAt start (some .outOfRange)

/-- The letters of escape sequences, as messages list them. -/
def escapeLetters : List String :=
  ["b", "f", "n", "r", "t", "u", "U", "\\", "\""].map ("`" ++ · ++ "`")

def escapeSequence : Reader Char := do
  char '\\'
  let start ← offset
  let c ← satisfy fun _ => true
  match c with
  | 'b' => pure '\x08'
  | 't' => pure '\t'
  | 'n' => pure '\n'
  | 'f' => pure '\x0c'
  | 'r' => pure '\r'
  | '"' => pure '"'
  | '\\' => pure '\\'
  | 'u' => commit (named "unicode 4-digit hex code" (coded 4))
  | 'U' => commit (named "unicode 8-digit hex code" (coded 8))
  | _ =>
    -- one byte has been read, which need not be the whole character
    commit (named "escape sequence" (wanting escapeLetters (refuseAt (start + 1) none)))

def basicChar : Reader Char :=
  satisfy (fun c => isPlain c && c != '"' && c != '\\') <|> escapeSequence

def basicString : Reader (List Char) := do
  char '"'
  let body ← many basicChar
  commit (named "basic string" (char '"'))
  pure body

def literalChar : Reader Char :=
  satisfy fun c => isPlain c && c != '\x27'

def literalString : Reader (List Char) :=
  named "literal string" do
    char '\x27'
    let body ← many literalChar
    commit (char '\x27')
    pure body

/-- A line end that a backslash takes out of a string, with all blanks behind it. -/
def escapedNewline : Reader (List Char) := do
  char '\\'
  blanks
  newline
  let _ ← many (discard (satisfy isInlineBlank) <|> newline)
  pure []

/-- One or two quotes that another character follows, so that they do not close the string. -/
def innerQuotes (quote : Char) : Reader (List Char) := do
  let quotes ← atMost (satisfy (· == quote)) 2
  match quotes, ← remaining with
  | _ :: _, c :: _ => if c = quote then refuse else pure quotes
  | _, _ => refuse

/-- The three quotes at the end of a string, and up to two in front of them that belong to it. -/
def closingQuotes (quote : Char) : Reader (List Char) := do
  let start ← offset
  let quotes ← atMost (satisfy (· == quote)) 5
  if quotes.length < 3 then refuseAt start none else pure (quotes.drop 3)

/-- A string over several lines, in pieces. -/
def multiline (quote : Char) (piece : Reader (List Char)) : Reader (List Char) := do
  word [quote, quote, quote]
  let _ ← optional newline
  commit do
    let body ← many piece
    let others ← closingQuotes quote
    pure (body.flatten ++ others)

def lineBreak : Reader (List Char) := do
  newline
  pure ['\n']

def multilineBasic : Reader (List Char) :=
  let plain := satisfy fun c => isPlain c && c != '"' && c != '\\'
  named "multiline basic string" (multiline '"'
    ((do pure [← plain]) <|> escapedNewline <|> (do pure [← escapeSequence]) <|> lineBreak <|>
      innerQuotes '"'))

/-- Quotes inside such a string have a character of it behind them. -/
def multilineLiteral : Reader (List Char) :=
  let piece := (do pure [← literalChar]) <|> lineBreak
  named "multiline literal string" (multiline '\x27'
    (piece <|> (do pure ((← innerQuotes '\x27') ++ (← piece)))))

def string : Reader Scalar := do
  let cs ← multilineBasic <|> basicString <|> multilineLiteral <|> literalString
  pure (.string (String.ofList cs))

/-! Numbers. -/

/-- Digits, with single underscores between them. -/
def digits (p : Char → Bool) : Reader (List Char) := do
  let first ← satisfy p
  let others ← many (satisfy p <|> (do
    char '_'
    commit (wanting ["digit"] (satisfy p))))
  pure (first :: others)

/-- Whether there is a minus sign. -/
def minus : Reader Bool :=
  (do char '-'; pure true) <|> (do char '+'; pure false) <|> pure false

/-- A sign and the digits of a whole number, which has no superfluous zero in front. -/
def wholePart : Reader (Bool × List Char) :=
  named "integer" do
    let negative ← minus
    match ← remaining with
    | '0' :: _ => pure (negative, ← exactly 1 (satisfy (· == '0')))
    | _ => pure (negative, ← digits Char.isDigit)

/-- The value of digits in a base up to sixteen. -/
def valueIn (base : Nat) (cs : List Char) : Nat :=
  cs.foldl (fun n c => base * n + hexValue [c]) 0

/-- An integer in sixty-four bits that begins at an offset. -/
def bounded (start : Nat) (n : Int) : Reader Scalar :=
  commit <|
    if n < -0x8000000000000000 then refuseAt start (some .tooSmall)
    else if 0x8000000000000000 ≤ n then refuseAt start (some .tooLarge)
    else pure (.integer n)

def inBase (mark : Char) (base : Nat) (name : String) (p : Char → Bool) : Reader Scalar := do
  let start ← offset
  word ['0', mark]
  let n := valueIn base (← commit (named name (digits p)))
  bounded start n

def decimalInteger : Reader Scalar := do
  let start ← offset
  let (negative, whole) ← wholePart
  let n : Int := valueIn 10 whole
  bounded start (if negative then -n else n)

def integer : Reader Scalar :=
  inBase 'x' 16 "hexadecimal integer" isHex <|>
    inBase 'o' 8 "octal integer" (fun c => '0' ≤ c && c ≤ '7') <|>
    inBase 'b' 2 "binary integer" (fun c => c == '0' || c == '1') <|> decimalInteger

/-- The number nearest to `n * 10 ^ exponent`. What is far beyond the range of the format is
settled by the number of digits. -/
def nearest (n : Nat) (exponent : Int) : Float :=
  let size := ((Nat.toDigits 10 n).length : Int) + exponent
  if n = 0 ∨ size < -400 then 0.0
  else if 400 < size then 1.0 / 0.0
  else Float.ofScientific n (exponent < 0) exponent.natAbs

def exponentPart : Reader Int := do
  let _ ← satisfy fun c => c == 'e' || c == 'E'
  let negative ← minus
  let n : Int := valueIn 10 (← commit (digits Char.isDigit))
  pure (if negative then -n else n)

def fractionPart : Reader (List Char) := do
  char '.'
  commit (wanting ["digit"] (digits Char.isDigit))

/-- A number with a fraction, an exponent, or both. Only a negative one may be too large. -/
def decimalFloat : Reader Scalar := do
  let start ← offset
  let (negative, whole) ← wholePart
  let (fraction, exponent) ← (do pure ([], ← exponentPart)) <|> (do
    let fraction ← fractionPart
    let exponent ← optional exponentPart
    pure (fraction, exponent.getD 0))
  let x := nearest (valueIn 10 (whole ++ fraction)) (exponent - fraction.length)
  if x.isInf && !negative then commit (refuseAt start none)
  else pure (.float (if negative then -x else x))

def infinity : Reader Scalar := do
  word ['i', 'n', 'f']
  pure (.float (1.0 / 0.0))

def notANumber : Reader Scalar := do
  word ['n', 'a', 'n']
  pure (.float (0.0 / 0.0))

def specialFloat : Reader Scalar := do
  let negative ← minus
  match ← infinity <|> notANumber with
  | .float x => pure (.float (if negative then -x else x))
  | s => pure s

def float : Reader Scalar :=
  named "floating-point number" (decimalFloat <|> specialFloat)

def boolean (text : String) (b : Bool) : Reader Scalar := do
  commit (word text.toList)
  pure (.boolean b)

/-! Dates and times. -/

/-- A number of a fixed count of digits, in a range. -/
def field (count low high : Nat) : Reader Nat := do
  let start ← offset
  let n := valueIn 10 (← whole (exactly count (satisfy Char.isDigit)))
  if low ≤ n ∧ n ≤ high then pure n else refuseAt start (some .outOfRange)

def isLeap (year : Nat) : Bool :=
  year % 4 == 0 && (year % 100 != 0 || year % 400 == 0)

def daysIn (year month : Nat) : Nat :=
  if month = 2 then (if isLeap year then 29 else 28)
  else if month = 4 ∨ month = 6 ∨ month = 9 ∨ month = 11 then 30
  else 31

def date : Reader Unit := do
  let year ← field 4 0 9999
  char '-'
  commit do
    let month ← field 2 1 12
    char '-'
    discard (field 2 1 (daysIn year month))

def time : Reader Unit := do
  discard (field 2 0 23)
  char ':'
  commit do
    discard (field 2 0 59)
    char ':'
    discard (field 2 0 60)
    discard (optional (do
      char '.'
      let _ ← satisfy Char.isDigit
      many (satisfy Char.isDigit)))

def timeOffset : Reader Unit :=
  named "time offset" (discard (satisfy fun c => c == 'Z' || c == 'z') <|> (do
    let _ ← satisfy fun c => c == '+' || c == '-'
    commit do
      discard (field 2 0 23)
      char ':'
      discard (field 2 0 59)))

def dateTime : Reader Scalar := do
  named "date-time" (do
    date
    discard (optional (do
      let _ ← satisfy fun c => c == 'T' || c == 't' || c == ' '
      time
      optional timeOffset))) <|> named "time" time
  pure .dateTime

def number : Reader Scalar :=
  dateTime <|> float <|> integer

/-- A scalar, told by its first character. What could be nothing else is taken for a string. -/
def scalar : Reader Scalar := do
  match ← remaining with
  | [] => refuse
  | c :: _ =>
    if c = '"' ∨ c = '\x27' then string
    else if c = '+' ∨ c = '-' ∨ c.isDigit then number
    else if c = '_' then wanting ["leading digit"] integer
    else if c = '.' then wanting ["leading digit"] float
    else named "string" (wanting ["`\"`", "`'`"] (
      if c = 't' then boolean "true" true
      else if c = 'f' then boolean "false" false
      else if c = 'i' then infinity
      else if c = 'n' then notANumber
      else refuse))

end Stencil.Toml
