import Stencil.Span

/-!
What can be wrong with the directives of an element: the cause, the element, and the place to
point at.
-/
namespace Stencil

/-- The form that a directive's value must have. -/
inductive ValueShape where
  | expression
  | literal
  deriving DecidableEq, Repr

def ValueShape.describe : ValueShape → String
  | expression => "an \x7bexpression\x7d value"
  | literal => "a non-empty string literal"

namespace CompileError

inductive Cause where
  /-- Several of `if`, `elseif` and `else` on one element. -/
  | multipleConditionals (directives : List String)
  | wrongValue (directive : String) (expected : ValueShape)
  | elseWithValue
  /-- A `ref` on an element that is never rendered as one. -/
  | refNotAllowed (reason : String)
  /-- An `elseif` or `else` without an `if` before it that it could continue. -/
  | orphaned (directive : String)
  /-- An `elseif` or `else` that content separates from its chain. -/
  | notAdjacent (directive : String)
  deriving DecidableEq, Repr

end CompileError

structure CompileError where
  cause : CompileError.Cause
  tag : String
  span : Span
  node : Nat
  deriving DecidableEq, Repr

namespace CompileError

def message (e : CompileError) : String :=
  match e.cause with
  | .multipleConditionals directives =>
    s!"<{e.tag}> carries multiple conditional directives: " ++ ", ".intercalate directives
  | .wrongValue directive expected =>
    s!"'{directive}' on <{e.tag}> requires {expected.describe}"
  | .elseWithValue => s!"'else' on <{e.tag}> must not have a value"
  | .refNotAllowed reason => s!"'ref' is not allowed on <{e.tag}>: {reason}"
  | .orphaned directive => s!"'{directive}' on <{e.tag}> has no preceding 'if' on the same level"
  | .notAdjacent directive =>
    s!"'{directive}' on <{e.tag}> is not adjacent to the preceding conditional"

/-- The hint beside the source. -/
def label (e : CompileError) : String :=
  match e.cause with
  | .multipleConditionals _ => "keep exactly one of if, elseif or else"
  | .wrongValue _ expected => s!"expected {expected.describe}"
  | .elseWithValue => "remove the value"
  | .refNotAllowed _ => "ref declared here"
  | .orphaned _ => "move this directly after an element with if:true or if:false"
  | .notAdjacent _ => "only whitespace may separate chained conditionals"

end CompileError
end Stencil
