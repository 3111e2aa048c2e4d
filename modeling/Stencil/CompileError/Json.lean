import Stencil.CompileError
import Stencil.Node.Json

/-!
Compile errors as JSON values: the kind, what the cause tells, and the place.
-/
namespace Stencil

def ValueShape.json : ValueShape → Json
  | .expression => .str "expression"
  | .literal => .str "literal"

namespace CompileError

/-- The kind of a cause and the members that only this kind has. -/
def Cause.json : Cause → String × List (String × Json)
  | multipleConditionals directives =>
    ("multiple_conditional_directives", [("directives", .arr (directives.map .str))])
  | wrongValue directive expected =>
    ("dynamic_ref_value", [("directive", .str directive), ("expected", expected.json)])
  | elseWithValue => ("else_with_value", [])
  | refNotAllowed reason => ("ref_on_disallowed_element", [("reason", .str reason)])
  | orphaned directive => ("orphaned_else_directive", [("directive", .str directive)])
  | notAdjacent directive => ("non_adjacent_conditional", [("directive", .str directive)])

def json (e : CompileError) : Json :=
  let (kind, members) := Cause.json e.cause
  .obj ([("error", .str kind), ("tag", .str e.tag)] ++ members ++
    [("span", e.span.json), ("node", .nat e.node), ("display", .str e.message)])

end CompileError
end Stencil
