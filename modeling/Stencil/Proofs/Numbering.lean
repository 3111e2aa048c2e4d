import Stencil.Node.Numbering

/-!
# Numbered trees

Numbering a template gives a tree that needs no numbering, and leaves such a tree as it is. Depth
first, the numbers of a numbered list are consecutive.
-/
namespace Stencil.Node

/-- Induction over a sibling list, with the list below an element as well as the list behind it. -/
@[elab_as_elim]
theorem siblings_induction {P : List Node → Prop} (nil : P [])
    (element : ∀ id span tag preserve children ns, P children → P ns →
      P (.element id span tag preserve children :: ns))
    (text : ∀ id span content ns, P ns → P (.text id span content :: ns))
    (comment : ∀ id span content ns, P ns → P (.comment id span content :: ns))
    (ns : List Node) : P ns :=
  @Node.rec_1 (fun n => ∀ ns, P ns → P (n :: ns)) P
    (fun id span tag preserve children hc ns hn => element id span tag preserve children ns hc hn)
    (fun id span content ns hn => text id span content ns hn)
    (fun id span content ns hn => comment id span content ns hn)
    nil (fun _ ns h hn => h ns hn) ns

@[simp] theorem walkAll_append (a b : List Node) : walkAll (a ++ b) = walkAll a ++ walkAll b := by
  induction a with
  | nil => rfl
  | cons n a ih => simp [walkAll, ih]

/-- Numbering changes no shape. -/
@[simp] theorem sizeAll_numberAll (scope : Bool) (next : Nat) (ns : List Node) :
    sizeAll (numberAll scope next ns) = sizeAll ns := by
  induction ns using siblings_induction generalizing scope next with
  | nil => rfl
  | element id span tag preserve children ns hc hn =>
    simp [numberAll, number, sizeAll, size, hc, hn]
  | text id span content ns hn | comment id span content ns hn =>
    simp [numberAll, number, sizeAll, size, hn]

theorem isNumberedAll_element {scope : Bool} {next id : Nat} {span : Span} {tag : StartTag}
    {preserve : Bool} {children ns : List Node} :
    isNumberedAll scope next (element id span tag preserve children :: ns) = true ↔
      id = next ∧ preserve = (scope || tag.preservesComments) ∧
        isNumberedAll preserve (next + 1) children = true ∧
        isNumberedAll scope (next + (sizeAll children + 1)) ns = true := by
  simp [isNumberedAll, isNumbered, size, and_assoc]

theorem isNumberedAll_cons {scope : Bool} {next : Nat} {n : Node} {ns : List Node} :
    isNumberedAll scope next (n :: ns) = true ↔
      n.isNumbered scope next = true ∧ isNumberedAll scope (next + n.size) ns = true := by
  rw [isNumberedAll, Bool.and_eq_true]

@[simp] theorem isNumberedAll_numberAll (scope : Bool) (next : Nat) (ns : List Node) :
    isNumberedAll scope next (numberAll scope next ns) = true := by
  induction ns using siblings_induction generalizing scope next with
  | nil => rfl
  | element id span tag preserve children ns hc hn =>
    simp [numberAll, number, isNumberedAll, isNumbered, size, hc, hn]
  | text id span content ns hn | comment id span content ns hn =>
    simp [numberAll, number, isNumberedAll, isNumbered, size, hn]

theorem numberAll_of_isNumbered {scope : Bool} {next : Nat} {ns : List Node}
    (h : isNumberedAll scope next ns = true) : numberAll scope next ns = ns := by
  induction ns using siblings_induction generalizing scope next with
  | nil => rfl
  | element id span tag preserve children ns hc hn =>
    obtain ⟨rfl, rfl, hb, hr⟩ := isNumberedAll_element.mp h
    simp [numberAll, number, size, hc hb, hn hr]
  | text id span content ns hn | comment id span content ns hn =>
    simp only [isNumberedAll, isNumbered, Bool.and_eq_true, beq_iff_eq] at h
    obtain ⟨rfl, hr⟩ := h
    simpa [numberAll, number] using hn hr

/-- Depth first, a numbered list counts from its first number on. -/
theorem ids_of_isNumbered {scope : Bool} {next : Nat} {ns : List Node}
    (h : isNumberedAll scope next ns = true) :
    (walkAll ns).map id = List.range' next (sizeAll ns) := by
  induction ns using siblings_induction generalizing scope next with
  | nil => rfl
  | element id span tag preserve children ns hc hn =>
    obtain ⟨rfl, rfl, hb, hr⟩ := isNumberedAll_element.mp h
    simp only [walkAll, walk, List.map_append, List.map_cons, hc hb, hn hr, size, sizeAll]
    rw [← List.range'_append_1]
    simp [Node.id, List.range'_succ]
  | text id span content ns hn | comment id span content ns hn =>
    simp only [isNumberedAll, isNumbered, Bool.and_eq_true, beq_iff_eq] at h
    simp [walkAll, walk, hn h.2, size, sizeAll, h.1, Node.id, Nat.add_comm 1, List.range'_succ]

/-- The number of a node is its place in a walk. -/
theorem getElem?_walkAll {scope : Bool} {ns : List Node} (h : isNumberedAll scope 0 ns = true)
    {n : Node} (hn : n ∈ walkAll ns) : (walkAll ns)[n.id]? = some n := by
  obtain ⟨i, hi, rfl⟩ := List.mem_iff_getElem.mp hn
  have hid : (walkAll ns)[i].id = i := by
    have hmap : ((walkAll ns).map id)[i]? = (List.range' 0 (sizeAll ns))[i]? := by
      rw [ids_of_isNumbered h]
    rw [List.getElem?_map, List.getElem?_eq_getElem hi, Option.map_some] at hmap
    have hrange := List.getElem?_eq_some_iff.mp hmap.symm
    simpa using hrange.2.symm
  rw [hid]
  exact List.getElem?_eq_getElem hi

end Stencil.Node

namespace Stencil.Template

@[simp] theorem sizeAll_number (t : Template) : Node.sizeAll t.number = Node.sizeAll t :=
  Node.sizeAll_numberAll false 0 t

theorem isNumbered_number (t : Template) : t.number.isNumbered = true :=
  Node.isNumberedAll_numberAll false 0 t

theorem number_of_isNumbered {t : Template} (h : t.isNumbered = true) : t.number = t :=
  Node.numberAll_of_isNumbered h

/-- Compilation works on the numbered tree, whether or not it has to number it. -/
theorem compile_input (t : Template) : (if t.isNumbered then t else t.number) = t.number := by
  split
  · exact (number_of_isNumbered ‹_›).symm
  · rfl

end Stencil.Template
