import Mathlib.Data.List.Nodup
import Stencil.Proofs.Node.Relocation
import Stencil.Proofs.Node.Stored

/-!
# Visible nodes

A comment is visible when one of the elements around it is a `<template>` with `preserve-comments`.
Without the others a template has fewer nodes, so the ones behind them move up: numbering what is
left gives each node its place among the numbers that are left.
-/
namespace Stencil

/-- Changes numbers only. -/
def Relocation.ofNumbers (node : Nat → Nat) : Relocation :=
  ⟨node, id⟩

@[simp] theorem Relocation.node_ofNumbers (node : Nat → Nat) : (ofNumbers node).node = node := rfl
@[simp] theorem Relocation.offset_ofNumbers (node : Nat → Nat) :
    (ofNumbers node).offset = id := rfl

/-- Everything but a comment, and comments that an element around them keeps. -/
def Enclosed.isVisible (e : Enclosed) : Bool :=
  !e.node.isComment || e.around.any (·.preservesComments)

namespace Node

section Constructors
variable (around : List StartTag) (id : Nat) (span : Span) (content : String)

@[simp] theorem id_element (tag : StartTag) (preserve : Bool) (children : List Node) :
    (element id span tag preserve children).id = id := rfl
@[simp] theorem id_text : (text id span content).id = id := rfl
@[simp] theorem id_comment : (comment id span content).id = id := rfl
@[simp] theorem isVisible_element (tag : StartTag) (preserve : Bool) (children : List Node) :
    Enclosed.isVisible ⟨around, element id span tag preserve children⟩ = true := rfl
@[simp] theorem isVisible_text :
    Enclosed.isVisible ⟨around, text id span content⟩ = true := rfl
@[simp] theorem isVisible_comment :
    Enclosed.isVisible ⟨around, comment id span content⟩ =
      around.any (·.preservesComments) := rfl

end Constructors

mutual
/-- What is visible of a node, where `keep` says whether an element around it keeps comments. -/
def visible (keep : Bool) : Node → List Node
  | element id span tag preserve children =>
    [element id span tag preserve (visibleAll (keep || tag.preservesComments) children)]
  | text id span content => [text id span content]
  | comment id span content => if keep then [comment id span content] else []

def visibleAll (keep : Bool) : List Node → List Node
  | [] => []
  | n :: ns => n.visible keep ++ visibleAll keep ns
end

/-- What is stored does not decide on what is visible. -/
theorem eraseAll_visibleAll (keep : Bool) (ns : List Node) :
    eraseAll (visibleAll keep ns) = visibleAll keep (eraseAll ns) := by
  induction ns using siblings_induction generalizing keep with
  | nil => rfl
  | element id span tag preserve children ns hc hn =>
    simp [visibleAll, visible, eraseAll, erase, hc, hn]
  | text id span content ns hn => simp [visibleAll, visible, eraseAll, erase, hn]
  | comment id span content ns hn =>
    cases keep <;> simp [visibleAll, visible, eraseAll, erase, hn]

theorem sizeAll_visibleAll_numberAll (keep scope : Bool) (next : Nat) (ns : List Node) :
    sizeAll (visibleAll keep (numberAll scope next ns)) = sizeAll (visibleAll keep ns) := by
  rw [← sizeAll_eraseAll, eraseAll_visibleAll, eraseAll_numberAll, ← eraseAll_visibleAll,
    sizeAll_eraseAll]

/-- The numbers that are left are those of the visible nodes. -/
theorem ids_visibleAll (around : List StartTag) (ns : List Node) :
    (walkAll (visibleAll (around.any (·.preservesComments)) ns)).map id =
      ((enclosedAll around ns).filter (·.isVisible)).map (·.node.id) := by
  induction ns using siblings_induction generalizing around with
  | nil => rfl
  | element id span tag preserve children ns hc hn =>
    have hchildren := hc (tag :: around)
    rw [any_preserving_cons] at hchildren
    simp [visibleAll, visible, walkAll, walk, enclosedAll, enclosed, List.filter_cons, hchildren, hn]
  | text id span content ns hn =>
    simp [visibleAll, visible, walkAll, walk, enclosedAll, enclosed, List.filter_cons, hn]
  | comment id span content ns hn =>
    have hsiblings := hn around
    cases hk : around.any (·.preservesComments) with
    | false =>
      rw [hk] at hsiblings
      simpa [visibleAll, visible, enclosedAll, enclosed, hk] using hsiblings
    | true =>
      rw [hk] at hsiblings
      simpa [visibleAll, visible, walkAll, walk, enclosedAll, enclosed, hk] using hsiblings

/-- Where `count` counts the numbers that are left, it leads to the numbers of what is left. -/
theorem numberAll_visibleAll {count : Nat → Nat} {keep : Bool} {next start : Nat}
    {ns : List Node}
    (h : (walkAll (visibleAll keep (numberAll keep next ns))).map (fun n => count n.id) =
      List.range' start (sizeAll (visibleAll keep ns))) :
    numberAll keep start (visibleAll keep ns) =
      relocateAll (.ofNumbers count) (visibleAll keep (numberAll keep next ns)) := by
  induction ns using siblings_induction generalizing keep next start with
  | nil => rfl
  | element id span tag preserve children ns hc hn =>
    simp only [visibleAll, visible, numberAll, number, walkAll, walk, List.map_append,
      List.map_cons, List.cons_append, sizeAll, size, id_element] at h
    rw [Nat.add_right_comm, List.range'_succ, ← List.range'_append_1] at h
    obtain ⟨hid, hrest⟩ := List.cons.inj h
    obtain ⟨hchildren, hsiblings⟩ :=
      List.append_inj hrest (by simp [sizeAll_visibleAll_numberAll])
    rw [Nat.add_right_comm] at hsiblings
    simp [visibleAll, visible, numberAll, number, relocateAll, relocate, size, hid, hc hchildren,
      ← hn hsiblings, Nat.add_assoc]
  | text id span content ns hn =>
    simp only [visibleAll, visible, numberAll, number, List.singleton_append, walkAll, walk,
      List.map_cons, sizeAll, size, id_text] at h
    rw [Nat.add_comm 1, List.range'_succ] at h
    obtain ⟨hid, hsiblings⟩ := List.cons.inj h
    simp [visibleAll, visible, numberAll, number, relocateAll, relocate, size, hid, hn hsiblings]
  | comment id span content ns hn =>
    cases keep with
    | false => exact hn h
    | true =>
      simp only [visibleAll, visible, numberAll, number, if_true, List.singleton_append, walkAll,
        walk, List.map_cons, sizeAll, size, id_comment] at h
      rw [Nat.add_comm 1, List.range'_succ] at h
      obtain ⟨hid, hsiblings⟩ := List.cons.inj h
      simp [visibleAll, visible, numberAll, number, relocateAll, relocate, size, hid, hn hsiblings]

end Node

/-! ## Moving up -/

/-- Their places are the numbers from 0 on. -/
theorem map_idxOf_of_nodup {l : List Nat} (h : l.Nodup) : l.map l.idxOf = List.range l.length := by
  refine List.ext_getElem (by simp) fun i hi _ => ?_
  simp [h.idxOf_getElem i (by simpa using hi)]

/-- Places in an increasing list are in the order of its members. -/
theorem idxOf_le_idxOf_iff {l : List Nat} (h : l.Pairwise (· < ·)) {a b : Nat} (ha : a ∈ l)
    (hb : b ∈ l) : l.idxOf a ≤ l.idxOf b ↔ a ≤ b := by
  obtain ⟨i, hi, rfl⟩ := List.getElem_of_mem ha
  obtain ⟨j, hj, rfl⟩ := List.getElem_of_mem hb
  have hnodup : l.Nodup := h.imp Nat.ne_of_lt
  rw [hnodup.idxOf_getElem i hi, hnodup.idxOf_getElem j hj]
  have hlt := List.pairwise_iff_getElem.mp h
  rcases Nat.lt_trichotomy i j with hij | rfl | hij
  · have := hlt i j hi hj hij
    omega
  · simp
  · have := hlt j i hj hi hij
    omega

namespace Template

/-- A template without its invisible comments. -/
def visible (t : Template) : Template :=
  Node.visibleAll false t

/-- The numbers of the visible nodes. -/
def kept (t : Template) : List Nat :=
  ((Node.enclosedAll [] t.number).filter (·.isVisible)).map (·.node.id)

/-- Each visible node moves up to its place among them. -/
def movesUp (t : Template) : Relocation :=
  .ofNumbers t.kept.idxOf

theorem kept_eq (t : Template) : t.kept = (Node.walkAll (visible t.number)).map Node.id :=
  (Node.ids_visibleAll [] t.number).symm

theorem kept_increase (t : Template) : t.kept.Pairwise (· < ·) := by
  have hids := Node.ids_of_isNumbered t.isNumbered_number
  rw [← Node.enclosedAll_nodes [], List.map_map] at hids
  have hsub : t.kept.Sublist (List.range' 0 (Node.sizeAll t.number)) := by
    rw [← hids]
    exact List.filter_sublist.map _
  exact List.Pairwise.sublist hsub List.pairwise_lt_range'

theorem map_kept (t : Template) :
    t.kept.map t.movesUp.node = List.range (Node.sizeAll (visible t)) := by
  have hlength : t.kept.length = Node.sizeAll (visible t) := by
    rw [kept_eq, List.length_map, Node.length_walkAll]
    exact Node.sizeAll_visibleAll_numberAll false false 0 t
  rw [← hlength]
  exact map_idxOf_of_nodup (t.kept_increase.imp Nat.ne_of_lt)

/-- Numbered by themselves, the visible nodes have moved up. -/
theorem number_visible (t : Template) :
    number (visible t) = Node.relocateAll t.movesUp (visible t.number) := by
  refine Node.numberAll_visibleAll ?_
  have h := map_kept t
  rwa [kept_eq, List.map_map, List.range_eq_range'] at h

end Template
end Stencil
