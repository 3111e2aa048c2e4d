/-!
What a caller may ask of compilation.
-/
namespace Stencil

structure Options where
  /-- The component renders into the tree around it, so a `<slot>` has no element to refer to. -/
  lightMode : Bool
  /-- Comments are significant everywhere, so they separate conditionals. -/
  preserveComments : Bool
  deriving DecidableEq, Repr

namespace Options

/-- Both off. -/
def standard : Options :=
  ⟨false, false⟩

end Options
end Stencil
