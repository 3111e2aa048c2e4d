import Stencil.Span

/-!
Why a text is not a TOML document: where reading came to an end, and what is wrong there.
-/
namespace Stencil.Toml

/-- A rule that is broken by something which is well formed in itself. -/
inductive Violation where
  /-- In a table with this path, where it is known. -/
  | duplicateKey (key : String) (table : Option (List String))
  /-- A path leads through a value that is no table. -/
  | noTable (path : List String) (kind : String)
  | outOfRange
  | tooDeep
  | tooLarge
  | tooSmall
  deriving DecidableEq, Repr

def Violation.message : Violation → String
  | duplicateKey key none => "duplicate key `" ++ key ++ "`"
  | duplicateKey key (some []) => "duplicate key `" ++ key ++ "` in document root"
  | duplicateKey key (some path) =>
    "duplicate key `" ++ key ++ "` in table `" ++ ".".intercalate path ++ "`"
  | noTable path kind =>
    "dotted key `" ++ ".".intercalate path ++ "` attempted to extend non-table type (" ++ kind ++
      ")"
  | outOfRange => "value is out of range"
  | tooDeep => "recursion limit exceeded"
  | tooLarge => "number too large to fit in target type"
  | tooSmall => "number too small to fit in target type"

structure Refusal where
  /-- The offset at which reading came to an end. -/
  pos : Nat
  /-- The smallest named thing that was being read. -/
  inside : Option String
  /-- What could have stood there. -/
  wanted : List String
  violation : Option Violation
  /-- What was read so far has no other reading. -/
  isFinal : Bool
  deriving DecidableEq, Repr

/-- A line for each thing that is known. -/
def Refusal.message (r : Refusal) : String :=
  "\n".intercalate ((r.inside.map ("invalid " ++ ·)).toList ++
    (if r.wanted.isEmpty then [] else ["expected " ++ ", ".intercalate r.wanted]) ++
    (r.violation.map Violation.message).toList)

/-- The character that holds the byte at an offset, where characters begin at `start`. Behind
them it is nothing. -/
def characterAt (offset start : Nat) : List Char → Span
  | [] => ⟨start, start⟩
  | c :: cs =>
    if offset < start + c.utf8Size then ⟨start, start + c.utf8Size⟩
    else characterAt offset (start + c.utf8Size) cs

def Refusal.span (r : Refusal) (text : String) : Span :=
  characterAt r.pos 0 text.toList

end Stencil.Toml
