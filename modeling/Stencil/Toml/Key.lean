import Stencil.Span

/-!
Keys of TOML, and how a key is spelled: bare where its characters allow that, in double quotes where
nothing has to be escaped, else in single quotes, and with escapes where that fails too.
-/
namespace Stencil.Toml

abbrev Key := Located String

def isBareKeyChar (c : Char) : Bool :=
  c.isAlphanum || c == '_' || c == '-'

/-- Characters that may stand in comments and in strings: no controls of ASCII but the tab. -/
def isPlain (c : Char) : Bool :=
  c == '\t' || (0x20 ≤ c.toNat && c.toNat ≠ 0x7F)

/-- A control character by its code in four digits. -/
def controlEscape (c : Char) : List Char :=
  let digits := (Nat.toDigits 16 c.toNat).map Char.toUpper
  ['\\', 'u'] ++ List.replicate (4 - digits.length) '0' ++ digits

/-- A character between double quotes. -/
def basicSpelling (c : Char) : List Char :=
  if c = '\x08' then ['\\', 'b']
  else if c = '\t' then ['\\', 't']
  else if c = '\n' then ['\\', 'n']
  else if c = '\x0c' then ['\\', 'f']
  else if c = '\r' then ['\\', 'r']
  else if c = '"' ∨ c = '\\' then ['\\', c]
  else if isPlain c then [c]
  else controlEscape c

/-- A key as it may be written in a document. -/
def spelled (key : String) : String :=
  let cs := key.toList
  let quoted := String.ofList ('"' :: cs.flatMap basicSpelling ++ ['"'])
  if !cs.isEmpty && cs.all isBareKeyChar then key
  else if cs.all fun c => isPlain c && c != '\\' && c != '"' then quoted
  else if cs.all fun c => isPlain c && c != '\x27' then
    String.ofList ('\x27' :: cs ++ ['\x27'])
  else quoted

end Stencil.Toml
