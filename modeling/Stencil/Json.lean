/-!
JSON values without fractions, and their indented text: two spaces a level, one member a line,
members in the order given.
-/
namespace Stencil

inductive Json where
  | null
  | bool (b : Bool)
  | nat (n : Nat)
  | str (s : String)
  | arr (items : List Json)
  | obj (members : List (String × Json))
  deriving Repr

namespace Json

/-- Digits of a control character's code, four in all. -/
def hex4 (n : Nat) : List Char :=
  let digits := Nat.toDigits 16 n
  List.replicate (4 - digits.length) '0' ++ digits

/-- A character inside quotes: what JSON forbids there is escaped, and nothing else. -/
def escape (c : Char) : List Char :=
  if c = '"' then ['\\', '"']
  else if c = '\\' then ['\\', '\\']
  else if c = '\n' then ['\\', 'n']
  else if c = '\r' then ['\\', 'r']
  else if c = '\t' then ['\\', 't']
  else if c = '\x08' then ['\\', 'b']
  else if c = '\x0c' then ['\\', 'f']
  else if c.toNat < 0x20 then '\\' :: 'u' :: hex4 c.toNat
  else [c]

def quote (s : String) : String :=
  String.ofList ('"' :: s.toList.flatMap escape ++ ['"'])

def indent (depth : Nat) : String :=
  String.ofList (List.replicate (2 * depth) ' ')

/-- Items between brackets, one a line; none leave the brackets empty. -/
def bracket (depth : Nat) (opening closing : String) : List String → String
  | [] => opening ++ closing
  | items =>
    let line := "\n" ++ indent (depth + 1)
    opening ++ line ++ ("," ++ line).intercalate items ++ "\n" ++ indent depth ++ closing

mutual
def prettyAt (depth : Nat) : Json → String
  | null => "null"
  | bool b => if b then "true" else "false"
  | nat n => Nat.repr n
  | str s => quote s
  | arr items => bracket depth "[" "]" (prettyItems (depth + 1) items)
  | obj members => bracket depth "\x7b" "\x7d" (prettyMembers (depth + 1) members)

def prettyItems (depth : Nat) : List Json → List String
  | [] => []
  | v :: vs => prettyAt depth v :: prettyItems depth vs

def prettyMembers (depth : Nat) : List (String × Json) → List String
  | [] => []
  | (k, v) :: ms => (quote k ++ ": " ++ prettyAt depth v) :: prettyMembers depth ms
end

def pretty (v : Json) : String :=
  prettyAt 0 v

/-- A member only when there is a value for it. -/
def member? (name : String) (v : Option Json) : List (String × Json) :=
  v.toList.map (name, ·)

end Json
end Stencil
