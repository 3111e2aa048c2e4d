import Stencil.Compile

/-!
The refs that one render pass made live. A renderer reports the nodes it rendered, each with a
handle, in any order; a name is bound to the reported node that comes last in the template. The
binding can be read only: every attempt to write is refused.
-/
namespace Stencil

/-- A node that was rendered, and what the renderer holds for it. -/
structure Rendered (η : Type) where
  node : Nat
  handle : η
  deriving DecidableEq, Repr

abbrev Binding (η : Type) := SortedMap String (Rendered η)

namespace Binding
variable {η : Type}

/-- Takes a report into account. A later report of the same node counts, one of an earlier node
does not. -/
def report (names : Nat → Option String) (b : Binding η) (r : Rendered η) : Binding η :=
  match names r.node with
  | none => b
  | some name =>
    match b.get? name with
    | some bound => if r.node < bound.node then b else b.insert name r
    | none => b.insert name r

/-- The binding of a pass over a template. -/
def ofPass (c : CompiledTemplate) (reports : List (Rendered η)) : Binding η :=
  let refs := c.refs
  reports.foldl (report refs.nameOf?) SortedMap.empty

def handle? (b : Binding η) (name : String) : Option η :=
  (b.get? name).map (·.handle)

def node? (b : Binding η) (name : String) : Option Nat :=
  (b.get? name).map (·.node)

def handles (b : Binding η) : List (String × η) :=
  b.entries.map fun (name, r) => (name, r.handle)

inductive Mutation where
  | insert
  | update
  | delete
  deriving DecidableEq, Repr

def Mutation.describe : Mutation → String
  | insert => "insert"
  | update => "update"
  | delete => "delete"

/-- Why a write is refused. -/
structure ReadOnly where
  name : String
  operation : Mutation
  deriving DecidableEq, Repr

def ReadOnly.message (e : ReadOnly) : String :=
  s!"cannot {e.operation.describe} ref '{e.name}': refs are read-only"

/-- The refusal of a write: an update where the name is bound, otherwise an insertion. -/
def write (b : Binding η) (name : String) (_handle : η) : Except ReadOnly (Binding η) :=
  .error ⟨name, if b.contains name then .update else .insert⟩

def remove (_b : Binding η) (name : String) : Except ReadOnly (Binding η) :=
  .error ⟨name, .delete⟩

end Binding
end Stencil
