import Stencil.Binding

/-!
The refs of a component instance over its life. They are those of its last completed render
pass; before the first, and after it was disconnected, there are none.
-/
namespace Stencil

/-- A template as components share it. Two equal templates differ when their keys do. -/
structure SharedTemplate where
  key : Nat
  template : CompiledTemplate
  deriving Repr

structure Component (η : Type) where
  active : Option SharedTemplate
  refs : Binding η

namespace Component
variable {η : Type}

def new : Component η :=
  ⟨none, SortedMap.empty⟩

/-- A pass over a template is complete. The refs of an earlier pass go, and so does its template
unless the pass was over the very same one. -/
def complete (component : Component η) (t : SharedTemplate) (reports : List (Rendered η)) :
    Component η :=
  let swapped := component.active.all (·.key ≠ t.key)
  ⟨if swapped then some t else component.active, Binding.ofPass t.template reports⟩

def disconnect (_component : Component η) : Component η :=
  new

end Component
end Stencil
