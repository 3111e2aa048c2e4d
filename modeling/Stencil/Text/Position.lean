/-!
Two coordinates of a text: offsets count bytes of its UTF-8 form, columns and reports count
characters. `charOffset` leads from the first to the second.
-/
namespace Stencil.Text

/-- Bytes of the UTF-8 form. -/
def byteLength : List Char → Nat
  | [] => 0
  | c :: cs => c.utf8Size + byteLength cs

@[simp] theorem byteLength_nil : byteLength [] = 0 := rfl
@[simp] theorem byteLength_cons (c : Char) (cs : List Char) :
    byteLength (c :: cs) = c.utf8Size + byteLength cs := rfl
@[simp] theorem byteLength_append (a b : List Char) :
    byteLength (a ++ b) = byteLength a + byteLength b := by
  induction a with
  | nil => simp
  | cons c a ih => simp [ih]; omega

/-- The number of characters whose first byte lies before byte `index`. -/
def charOffset : List Char → Nat → Nat
  | [], _ => 0
  | c :: cs, index => if index = 0 then 0 else charOffset cs (index - c.utf8Size) + 1

@[simp] theorem charOffset_zero (cs : List Char) : charOffset cs 0 = 0 := by
  cases cs <;> simp [charOffset]

end Stencil.Text
