/-!
Places in a source text, as offsets in bytes. A span may be reversed: at the end of input the
place of a syntax error runs from the length of the source back to the end of the last token.
-/
namespace Stencil

structure Span where
  start : Nat
  stop : Nat
  deriving DecidableEq, Repr, Inhabited

/-- A value and the place it was read from. -/
structure Located (α : Type) where
  value : α
  span : Span
  deriving DecidableEq, Repr

end Stencil
