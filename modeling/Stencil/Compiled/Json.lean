import Stencil.Compile
import Stencil.Directive.Json

/-!
Compiled templates as JSON values. A ref or a final arm that is absent is left out.
-/
namespace Stencil

namespace Compiled

mutual
def json : Compiled → Json
  | element id tag attributes reference children span =>
    .obj ([("kind", .str "element"), ("id", .nat id), ("tag", .str tag),
      ("attributes", .arr (attributes.map (·.json)))] ++
      Json.member? "ref" (reference.map .str) ++
      [("children", .arr (jsonAll children)), ("span", span.json)])
  | text id content span =>
    .obj [("kind", .str "text"), ("id", .nat id), ("content", .str content), ("span", span.json)]
  | comment id content span =>
    .obj [("kind", .str "comment"), ("id", .nat id), ("content", .str content),
      ("span", span.json)]
  | branch arms otherwise span =>
    .obj ([("kind", .str "branch"), ("entries", .arr (jsonArms arms))] ++
      Json.member? "default" (jsonOption otherwise) ++ [("span", span.json)])

def jsonAll : List Compiled → List Json
  | [] => []
  | n :: ns => n.json :: jsonAll ns

def jsonArms : List (Condition × Compiled) → List Json
  | [] => []
  | (c, n) :: arms => .obj [("condition", c.json), ("subtree", n.json)] :: jsonArms arms

def jsonOption : Option Compiled → Option Json
  | none => none
  | some n => some n.json
end

end Compiled

def RefEntry.json (e : RefEntry) : Json :=
  .obj [("name", .str e.last.name), ("node", .nat e.last.node), ("tag", .str e.last.tag),
    ("span", e.last.span.json), ("candidates", .arr (e.candidates.map .nat))]

def RefTable.json (t : RefTable) : Json :=
  .obj [("entries", .obj (t.entries.entries.map fun (name, e) => (name, e.json)))]

def CompiledTemplate.json (c : CompiledTemplate) : Json :=
  .obj [("nodes", .arr (Compiled.jsonAll c.nodes)), ("refs", c.refs.json)]

end Stencil
