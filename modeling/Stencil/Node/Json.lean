import Stencil.Json
import Stencil.Node

/-!
Source trees as JSON values.
-/
namespace Stencil

def Span.json (s : Span) : Json :=
  .obj [("start", .nat s.start), ("end", .nat s.stop)]

def Located.json {α : Type} (f : α → Json) (l : Located α) : Json :=
  .obj [("node", f l.value), ("span", l.span.json)]

def Expression.json (e : Expression) : Json :=
  .obj [("source", .str e.source), ("span", e.span.json)]

def AttributeValue.json : AttributeValue → Json
  | literal s => .obj [("kind", .str "literal"), ("value", .str s)]
  | expression e => .obj [("kind", .str "expression"), ("value", e.json)]

def Attribute.json (a : Attribute) : Json :=
  .obj [("name", a.name.json .str),
    ("value", (a.value.map (·.json AttributeValue.json)).getD .null), ("span", a.span.json)]

namespace Node

def located (id : Nat) (span : Span) (kind : Json) : Json :=
  .obj [("id", .nat id), ("span", span.json), ("kind", kind)]

mutual
def json : Node → Json
  | element id span tag preserve children =>
    located id span (.obj [("kind", .str "element"), ("tag", tag.name.json .str),
      ("attributes", .arr (tag.attributes.map (·.json))),
      ("children", .arr (jsonAll children)), ("preserve_comments", .bool preserve)])
  | text id span content =>
    located id span (.obj [("kind", .str "text"), ("content", .str content)])
  | comment id span content =>
    located id span (.obj [("kind", .str "comment"), ("content", .str content)])

def jsonAll : List Node → List Json
  | [] => []
  | n :: ns => n.json :: jsonAll ns
end

end Node
end Stencil
