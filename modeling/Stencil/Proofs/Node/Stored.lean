import Stencil.Compile
import Stencil.Proofs.Numbering

/-!
# What a node stores

The number and the flag that a node stores follow from its place in the tree: the number counts the
nodes in front of it, and the flag tells of the elements around it. Numbering puts them right and
changes nothing else. So trees that differ only in what they store are numbered alike, and compiled
alike.
-/
namespace Stencil

namespace Node

mutual
/-- The tree with nothing stored in it. -/
def erase : Node → Node
  | element _ span tag _ children => element 0 span tag false (eraseAll children)
  | text _ span content => text 0 span content
  | comment _ span content => comment 0 span content

def eraseAll : List Node → List Node
  | [] => []
  | n :: ns => n.erase :: eraseAll ns
end

theorem walkAll_eraseAll (ns : List Node) : walkAll (eraseAll ns) = (walkAll ns).map erase := by
  induction ns using siblings_induction with
  | nil => rfl
  | element id span tag preserve children ns hc hn =>
    simp [eraseAll, erase, walkAll, walk, hc, hn]
  | text id span content ns hn | comment id span content ns hn =>
    simp [eraseAll, erase, walkAll, walk, hn]

@[simp] theorem sizeAll_eraseAll (ns : List Node) : sizeAll (eraseAll ns) = sizeAll ns := by
  induction ns using siblings_induction with
  | nil => rfl
  | element id span tag preserve children ns hc hn =>
    simp [eraseAll, erase, sizeAll, size, hc, hn]
  | text id span content ns hn | comment id span content ns hn =>
    simp [eraseAll, erase, sizeAll, size, hn]

@[simp] theorem eraseAll_numberAll (keep : Bool) (next : Nat) (ns : List Node) :
    eraseAll (numberAll keep next ns) = eraseAll ns := by
  induction ns using siblings_induction generalizing keep next with
  | nil => rfl
  | element id span tag preserve children ns hc hn =>
    simp [numberAll, number, eraseAll, erase, hc, hn]
  | text id span content ns hn | comment id span content ns hn =>
    simp [numberAll, number, eraseAll, erase, hn]

@[simp] theorem numberAll_eraseAll (keep : Bool) (next : Nat) (ns : List Node) :
    numberAll keep next (eraseAll ns) = numberAll keep next ns := by
  induction ns using siblings_induction generalizing keep next with
  | nil => rfl
  | element id span tag preserve children ns hc hn =>
    simp [numberAll, number, eraseAll, erase, size, hc, hn]
  | text id span content ns hn | comment id span content ns hn =>
    simp [numberAll, number, eraseAll, erase, size, hn]

/-- What was stored before does not matter. -/
theorem numberAll_of_erase_eq {ms ns : List Node} (h : eraseAll ms = eraseAll ns) (keep : Bool)
    (next : Nat) : numberAll keep next ms = numberAll keep next ns := by
  rw [← numberAll_eraseAll keep next ms, h, numberAll_eraseAll]

/-- What does not depend on what is stored holds of a numbered tree, too. -/
theorem forall_walkAll_numberAll {P : Node → Prop} (hP : ∀ n : Node, P n.erase ↔ P n)
    {ns : List Node} (h : ∀ n ∈ walkAll ns, P n) (keep : Bool) (next : Nat) :
    ∀ n ∈ walkAll (numberAll keep next ns), P n := by
  intro n hn
  have herase : n.erase ∈ (walkAll ns).map erase := by
    rw [← walkAll_eraseAll, ← eraseAll_numberAll keep next, walkAll_eraseAll]
    exact List.mem_map_of_mem hn
  obtain ⟨m, hm, hmn⟩ := List.mem_map.mp herase
  rw [← hP, ← hmn, hP]
  exact h m hm

@[simp] theorem length_walkAll (ns : List Node) : (walkAll ns).length = sizeAll ns := by
  induction ns using siblings_induction with
  | nil => rfl
  | element id span tag preserve children ns hc hn =>
    simp [walkAll, walk, sizeAll, size, hc, hn]
    omega
  | text id span content ns hn | comment id span content ns hn =>
    simp [walkAll, walk, sizeAll, size, hn]
    omega

end Node

/-- A node with the start tags of the elements around it, the innermost one first. -/
structure Enclosed where
  around : List StartTag
  node : Node

namespace Node

mutual
/-- The node and all below it, depth first, with what is around each. -/
def enclosed (around : List StartTag) : Node → List Enclosed
  | element id span tag preserve children =>
    ⟨around, element id span tag preserve children⟩ :: enclosedAll (tag :: around) children
  | text id span content => [⟨around, text id span content⟩]
  | comment id span content => [⟨around, comment id span content⟩]

def enclosedAll (around : List StartTag) : List Node → List Enclosed
  | [] => []
  | n :: ns => n.enclosed around ++ enclosedAll around ns
end

@[simp] theorem enclosedAll_nodes (around : List StartTag) (ns : List Node) :
    (enclosedAll around ns).map (·.node) = walkAll ns := by
  induction ns using siblings_induction generalizing around with
  | nil => rfl
  | element id span tag preserve children ns hc hn =>
    simp [enclosedAll, enclosed, walkAll, walk, hc, hn]
  | text id span content ns hn | comment id span content ns hn =>
    simp [enclosedAll, enclosed, walkAll, walk, hn]

end Node

theorem StartTag.preservesComments_iff (tag : StartTag) :
    tag.preservesComments = true ↔
      tag.name.value = "template" ∧ ∃ a ∈ tag.attributes, a.name.value = "preserve-comments" := by
  simp [preservesComments, isTemplate, attribute?, preserveComments]

/-- The flag of an element is set when the element, or one around it, is a `<template>` with
`preserve-comments`, and only then. -/
def Enclosed.FlagFits (e : Enclosed) : Prop :=
  match e.node with
  | .element _ _ tag preserve _ =>
    preserve = true ↔ ∃ t ∈ tag :: e.around,
      t.name.value = "template" ∧ ∃ a ∈ t.attributes, a.name.value = "preserve-comments"
  | .text .. | .comment .. => True

namespace Node

theorem flagFits_element {around : List StartTag} {id : Nat} {span : Span} {tag : StartTag}
    {preserve : Bool} {children : List Node} :
    Enclosed.FlagFits ⟨around, element id span tag preserve children⟩ ↔
      preserve = (tag :: around).any (·.preservesComments) := by
  simp only [Enclosed.FlagFits, ← StartTag.preservesComments_iff, ← List.any_eq_true]
  exact Bool.eq_iff_iff.symm

theorem any_preserving_cons (tag : StartTag) (around : List StartTag) :
    (tag :: around).any (·.preservesComments) =
      (around.any (·.preservesComments) || tag.preservesComments) := by
  rw [List.any_cons, Bool.or_comm]

/-- A tree is numbered exactly when its numbers count and its flags fit. -/
theorem isNumberedAll_iff {around : List StartTag} {next : Nat} {ns : List Node} :
    isNumberedAll (around.any (·.preservesComments)) next ns = true ↔
      (walkAll ns).map id = List.range' next (sizeAll ns) ∧
        ∀ e ∈ enclosedAll around ns, e.FlagFits := by
  refine ⟨fun h => ⟨ids_of_isNumbered h, ?_⟩, ?_⟩
  · induction ns using siblings_induction generalizing around next with
    | nil => intro e he; cases he
    | element id span tag preserve children ns hc hn =>
      obtain ⟨rfl, rfl, hb, hr⟩ := isNumberedAll_element.mp h
      rw [← any_preserving_cons] at hb
      simp only [enclosedAll, enclosed, List.cons_append, List.forall_mem_cons,
        List.forall_mem_append, flagFits_element]
      exact ⟨(any_preserving_cons tag around).symm, hc hb, hn hr⟩
    | text id span content ns hn | comment id span content ns hn =>
      simp only [enclosedAll, enclosed, List.cons_append, List.nil_append, List.forall_mem_cons]
      exact ⟨trivial, hn (isNumberedAll_cons.mp h).2⟩
  · rintro ⟨hids, hflags⟩
    induction ns using siblings_induction generalizing around next with
    | nil => rfl
    | element id span tag preserve children ns hc hn =>
      simp only [enclosedAll, enclosed, List.cons_append, List.forall_mem_cons,
        List.forall_mem_append, flagFits_element] at hflags
      obtain ⟨hpreserve, hbelow, hbehind⟩ := hflags
      have hsize : sizeAll (element id span tag preserve children :: ns) =
          (sizeAll children + sizeAll ns) + 1 := by
        simp only [sizeAll, size]
        omega
      rw [hsize, List.range'_succ, ← List.range'_append_1] at hids
      simp only [walkAll, walk, List.map_append, List.map_cons, List.cons_append,
        List.cons.injEq] at hids
      obtain ⟨hid, hrest⟩ := hids
      obtain ⟨hchildren, hsiblings⟩ := List.append_inj hrest (by simp)
      rw [Nat.add_right_comm] at hsiblings
      rw [isNumberedAll_element, hpreserve]
      exact ⟨hid, any_preserving_cons tag around, hc hchildren hbelow, hn hsiblings hbehind⟩
    | text id span content ns hn | comment id span content ns hn =>
      simp only [enclosedAll, enclosed, List.cons_append, List.nil_append,
        List.forall_mem_cons] at hflags
      simp only [walkAll, walk, List.cons_append, List.nil_append, List.map_cons, sizeAll, size,
        Nat.add_comm 1, List.range'_succ, List.cons.injEq] at hids
      rw [isNumberedAll_cons]
      exact ⟨by simpa [isNumbered, Node.id] using hids.1, hn hids.2 hflags.2⟩

end Node

namespace Template

theorem isNumbered_iff_number_eq (t : Template) : t.isNumbered = true ↔ t.number = t := by
  refine ⟨Node.numberAll_of_isNumbered, fun h => ?_⟩
  rw [← h]
  exact isNumbered_number t

theorem compile_of_erase_eq {t u : Template} (h : Node.eraseAll u = Node.eraseAll t)
    (options : Options) : u.compile options = t.compile options := by
  have hnumber : u.number = t.number := Node.numberAll_of_erase_eq h false 0
  rw [compile, compile, compile_input, compile_input, hnumber]

/-- Numbering changes only what is stored: the numbers count from 0, depth first, and the flags fit.
It changes nothing exactly where there is nothing to put right, so a second time it never does. And
compilation does not see what is stored. -/
theorem stored_determined (t : Template) :
    Node.eraseAll t.number = Node.eraseAll t ∧
      (Node.walkAll t.number).map Node.id = List.range (Node.sizeAll t) ∧
      (Node.enclosedAll [] t.number).map (·.node) = Node.walkAll t.number ∧
      (∀ e ∈ Node.enclosedAll [] t.number, e.FlagFits) ∧
      (t.isNumbered = true ↔ t.number = t) ∧
      t.number.isNumbered = true ∧
      t.number.number = t.number ∧
      ∀ u : Template, Node.eraseAll u = Node.eraseAll t →
        ∀ options, u.compile options = t.compile options := by
  have hnumbered := isNumbered_number t
  obtain ⟨hids, hflags⟩ := (@Node.isNumberedAll_iff [] 0 t.number).mp hnumbered
  refine ⟨Node.eraseAll_numberAll false 0 t, ?_, Node.enclosedAll_nodes [] _, hflags,
    isNumbered_iff_number_eq t, hnumbered, (isNumbered_iff_number_eq _).mp hnumbered,
    fun u h options => compile_of_erase_eq h options⟩
  rw [hids, sizeAll_number, List.range_eq_range']

/-- A `<template>` that keeps comments, an element in it, and a comment in that. The inner flag is
stale, and so is the last number. -/
def stale : Template :=
  let kept : StartTag :=
    ⟨⟨"template", ⟨0, 0⟩⟩, [⟨⟨"preserve-comments", ⟨0, 0⟩⟩, none, ⟨0, 0⟩⟩]⟩
  [.element 0 ⟨0, 0⟩ kept true
    [.element 1 ⟨0, 0⟩ ⟨⟨"p", ⟨0, 0⟩⟩, []⟩ false [.comment 7 ⟨0, 0⟩ "c"]]]

/-- It compiles as if it were numbered, and the comment is kept under its right number. -/
theorem stored_determined_stale :
    stale.isNumbered = false ∧
      stale.compile .standard = stale.number.compile .standard ∧
      ∃ c, stale.compile .standard = .ok c ∧ c.ids = [0, 1, 2] := by
  obtain ⟨herase, -, -, -, -, -, -, hcompile⟩ := stored_determined stale
  have h := hcompile stale.number herase .standard
  refine ⟨rfl, h.symm, ?_⟩
  rw [← h]
  exact ⟨_, rfl, rfl⟩

end Template
end Stencil
