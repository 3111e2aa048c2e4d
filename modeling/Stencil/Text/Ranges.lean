/-!
Sets of characters as ascending ranges of their code points.
-/
namespace Stencil.Text

def inRanges (ranges : List (Nat × Nat)) (c : Char) : Bool :=
  ranges.any fun (first, last) => first ≤ c.toNat && c.toNat ≤ last

end Stencil.Text
