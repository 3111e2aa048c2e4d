import Stencil.Compiled
import Stencil.SortedMap

/-!
Which names a compiled tree declares by `ref`, and which nodes declare them. Declarations are
taken depth first, through every arm of every branch; the last one of a name stands for it.
-/
namespace Stencil

/-- An element with a ref. -/
structure Declaration where
  name : String
  node : Nat
  tag : String
  span : Span
  deriving DecidableEq, Repr

namespace Compiled

def declaration? : Compiled → Option Declaration
  | element id tag _ (some name) _ span => some ⟨name, id, tag, span⟩
  | _ => none

/-- All declarations, depth first. -/
def declarations (nodes : List Compiled) : List Declaration :=
  (walkAll nodes).filterMap declaration?

end Compiled

/-- What a name stands for: its last declaration, and the nodes of all of them in order. -/
structure RefEntry where
  last : Declaration
  candidates : List Nat
  deriving DecidableEq, Repr

structure RefTable where
  entries : SortedMap String RefEntry
  /-- The name that a node declares. -/
  byNode : SortedMap Nat String
  deriving Repr

namespace RefTable

def empty : RefTable :=
  ⟨.empty, .empty⟩

/-- The nodes that have declared a name so far. -/
def candidates (t : RefTable) (name : String) : List Nat :=
  ((t.entries.get? name).map (·.candidates)).getD []

def declare (t : RefTable) (d : Declaration) : RefTable :=
  ⟨t.entries.insert d.name ⟨d, t.candidates d.name ++ [d.node]⟩, t.byNode.insert d.node d.name⟩

def build (nodes : List Compiled) : RefTable :=
  (Compiled.declarations nodes).foldl declare empty

def get? (t : RefTable) (name : String) : Option RefEntry :=
  t.entries.get? name

def contains (t : RefTable) (name : String) : Bool :=
  t.entries.contains name

def nameOf? (t : RefTable) (node : Nat) : Option String :=
  t.byNode.get? node

end RefTable
end Stencil
