import Stencil.Directive
import Stencil.Node.Json

/-!
Directives as JSON values.
-/
namespace Stencil

def Polarity.json (p : Polarity) : Json :=
  .str p.describe

def Condition.members (c : Condition) : List (String × Json) :=
  [("expression", c.expression.json), ("polarity", c.polarity.json)]

def Condition.json (c : Condition) : Json :=
  .obj c.members

def Directive.json : Directive → Json
  | plain => .obj [("directive", .str "none")]
  | conditional (.opens c) => .obj (("directive", .str "if") :: c.members)
  | conditional (.continues c) => .obj (("directive", .str "else_if") :: c.members)
  | conditional .otherwise => .obj [("directive", .str "else")]
  | ref name => .obj [("directive", .str "ref"), ("name", .str name)]

end Stencil
