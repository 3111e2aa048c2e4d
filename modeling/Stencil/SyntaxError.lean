import Stencil.Span
import Stencil.Token
import Stencil.Text.Blank

/-!
Syntax errors: where reading stopped, why, and what could have followed.
-/
namespace Stencil

namespace SyntaxError

inductive Cause where
  /-- A token, or the end of input, that cannot come next. -/
  | unexpected (found : Option Token) (expected : List String)
  | mismatchedClosing (closing opening : String)
  | duplicateAttribute (name tag : String)
  | nestedDeeper (limit : Nat)
  /-- In the words of whoever found the error. -/
  | stated (message : String) (expected : List String)
  deriving DecidableEq, Repr

/-- A found token in a message: texts are shown trimmed. -/
def found : Token → String
  | .text s =>
    if Text.isBlankText s then "whitespace" else "text \"" ++ Text.trim s ++ "\""
  | t => t.describe

def Cause.message : Cause → String
  | unexpected none _ => "Unexpected end of input"
  | unexpected (some t) _ => "Unexpected " ++ found t
  | mismatchedClosing closing opening =>
    s!"closing tag </{closing}> does not match <{opening}>"
  | duplicateAttribute name tag => s!"duplicate attribute '{name}' on <{tag}>"
  | nestedDeeper limit => s!"elements nested deeper than {limit} levels"
  | stated message _ => message

/-- What could have come instead. -/
def Cause.expected : Cause → List String
  | unexpected _ expected => expected
  | stated _ expected => expected
  | mismatchedClosing .. | duplicateAttribute .. | nestedDeeper _ => []

end SyntaxError

structure SyntaxError where
  span : Span
  cause : SyntaxError.Cause
  deriving DecidableEq, Repr

namespace SyntaxError

def message (e : SyntaxError) : String :=
  e.cause.message

def expected (e : SyntaxError) : List String :=
  e.cause.expected

/-- The error in one line, with its place. -/
def display (e : SyntaxError) : String :=
  s!"Parse error at {e.span.start}..{e.span.stop}: {e.message}"

/-- The error beside the source it points at. -/
def label (e : SyntaxError) : String :=
  match e.expected with
  | [] => e.message
  | expected => e.message ++ "\nExpected: " ++ ", ".intercalate expected

end SyntaxError
end Stencil
