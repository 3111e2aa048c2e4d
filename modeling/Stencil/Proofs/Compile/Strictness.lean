import Stencil.Proofs.Compile.Misplaced
import Stencil.Proofs.Compile.Visible
import Stencil.Proofs.Compiled.Without

/-!
# Options only make compilation stricter

Light mode refuses more refs, and significant comments separate more members from their chains. So
what compiles with an option compiles without it: to the same tree in light mode, and to the tree
without the invisible comments where comments were significant.
-/
namespace Stencil

/-! ## Light mode -/

/-- An element that is right in light mode is right. -/
theorem StartTag.errors_of_light {preserve : Bool} {id : Nat} {tag : StartTag}
    (h : tag.errors ⟨true, preserve⟩ id = []) : tag.errors ⟨false, preserve⟩ id = [] := by
  rw [errors_eq_nil_iff] at h ⊢
  simp only [faults, List.append_eq_nil_iff] at h ⊢
  obtain ⟨⟨hshape, hhost⟩, hvalue⟩ := h
  refine ⟨⟨hshape, ?_⟩, hvalue⟩
  cases ha : tag.attribute? refName with
  | none => simp [faults.badHost, ha]
  | some a =>
    cases ht : tag.isTemplate <;> simp_all [faults.badHost, refusesRef?]

namespace Node

theorem compileAll_of_light {preserve keep : Bool} {ns : List Node}
    (h : Clean ⟨true, preserve⟩ keep ns) :
    compileAll ⟨false, preserve⟩ keep ns = compileAll ⟨true, preserve⟩ keep ns := by
  induction ns using siblings_induction generalizing keep with
  | nil => rfl
  | element id span tag flag children ns hc hn =>
    obtain ⟨he, hbelow, -, hbehind⟩ := clean_element h
    have hf := StartTag.errors_of_light he
    have hreference : tag.reference ⟨false, preserve⟩ = tag.reference ⟨true, preserve⟩ := by
      rw [StartTag.reference_of_errors he, StartTag.reference_of_errors hf]
    simp only [compileAll, compile, StartTag.compiled, hc hbelow, hn hbehind, hreference, he, hf]
  | text id span content ns hn | comment id span content ns hn =>
    simp only [compileAll, compile, hn (clean_cons.mp h).2]

/-! ## Significant comments -/

/-- Where every comment is visible anyway, it does not matter that all of them are significant. -/
theorem compileAll_preserving (light : Bool) {scope : Bool} {next : Nat} {ns : List Node}
    (hn : isNumberedAll scope next ns = true) :
    compileAll ⟨light, true⟩ true (visibleAll scope ns) =
      compileAll ⟨light, false⟩ scope (visibleAll scope ns) := by
  induction ns using siblings_induction generalizing scope next with
  | nil => rfl
  | element id span tag preserve children ns hc hs =>
    obtain ⟨rfl, rfl, hbelow, hbehind⟩ := isNumberedAll_element.mp hn
    simp only [visibleAll, visible, List.singleton_append, compileAll, compile, Bool.or_true,
      Bool.or_false, hc hbelow, hs hbehind]
    rfl
  | text id span content ns hs =>
    have hbehind := hs (isNumberedAll_cons.mp hn).2
    simp only [visibleAll, visible, List.singleton_append, compileAll, compile, hbehind]
  | comment id span content ns hs =>
    have hbehind := hs (isNumberedAll_cons.mp hn).2
    cases scope <;> simp [visibleAll, visible, compileAll, compile, hbehind]

/-- Gaps that are emitted are texts. -/
theorem isHidden_of_gap {hidden : Nat → Bool} {options : Options} {keep : Bool} {ns : List Node}
    {n : Compiled} (h : .gap (some n) ∈ (compileAll options keep ns).1) :
    n.isHidden hidden = false := by
  rw [compileAll_siblings, List.map_map, List.mem_map] at h
  obtain ⟨m, -, hm⟩ := h
  cases m with
  | element id span tag preserve children =>
    simp only [Function.comp_apply, sibling] at hm
    split at hm <;> cases hm
  | text id span content =>
    simp only [Function.comp_apply, sibling] at hm
    split at hm <;> cases hm
    rfl
  | comment id span content =>
    simp only [Function.comp_apply, sibling] at hm
    split at hm <;> cases hm

theorem compiled_without (hidden : Nat → Bool) (options : Options) (tag : StartTag) (id : Nat)
    (span : Span) (children : List Compiled) :
    tag.compiled options id span (Compiled.withoutAll hidden children) =
      (tag.compiled options id span children).map (Compiled.without hidden) := by
  simp only [StartTag.compiled]
  cases tag.conditional? <;> rfl

/-- Where comments are significant and nothing is wrong, invisible comments can be taken out of the
source or out of what it is compiled to. -/
theorem compileAll_without (light : Bool) {hidden : Nat → Bool} {around : List StartTag}
    {ns : List Node} (hh : ∀ e ∈ enclosedAll around ns, hidden e.node.id = !e.isVisible)
    (h : Clean ⟨light, true⟩ true ns) :
    compileAll ⟨light, true⟩ true (visibleAll (around.any (·.preservesComments)) ns) =
      (((compileAll ⟨light, true⟩ true ns).1.filter
          (!·.isContent (Compiled.isHidden hidden))).map (Sibling.map (Compiled.without hidden)),
        []) := by
  induction ns using siblings_induction generalizing around with
  | nil => rfl
  | element id span tag preserve children ns hc hs =>
    obtain ⟨he, hbelow, hplaced, hbehind⟩ := clean_element h
    simp only [enclosedAll, enclosed, List.cons_append, List.forall_mem_cons,
      List.forall_mem_append] at hh
    simp only [Bool.or_true] at hbelow hplaced
    have hchildren := hc hh.2.1 hbelow
    rw [any_preserving_cons] at hchildren
    have hgrouped : (Compiled.ofSiblings (compileAll ⟨light, true⟩ true children)).2 = [] := by
      rw [ofSiblings_compileAll, hbelow, hplaced]
      rfl
    have hwithout := Compiled.ofSiblings_without hidden (fun n hn => isHidden_of_gap hn) hgrouped
    simp only [visibleAll, visible, List.singleton_append, compileAll, compile, Bool.or_true,
      hchildren, hwithout, hs hh.2.2 hbehind, he, compiled_without, List.append_nil]
    simp only [StartTag.compiled]
    cases tag.conditional? <;> simp
  | text id span content ns hs =>
    simp only [enclosedAll, enclosed, List.singleton_append, List.forall_mem_cons] at hh
    have hbehind := hs hh.2 (clean_cons.mp h).2
    simp only [visibleAll, visible, List.singleton_append, compileAll, compile, hbehind]
    split <;> simp [Sibling.map, Compiled.without]
  | comment id span content ns hs =>
    simp only [enclosedAll, enclosed, List.singleton_append, List.forall_mem_cons] at hh
    have hbehind := hs hh.2 (clean_cons.mp h).2
    have hid : hidden id = !around.any (·.preservesComments) := hh.1
    cases hk : around.any (·.preservesComments) with
    | false =>
      rw [hk] at hbehind hid
      simp [visibleAll, visible, compileAll, compile, hbehind, hid]
    | true =>
      rw [hk] at hbehind hid
      simp [visibleAll, visible, compileAll, compile, hbehind, hid, Sibling.map, Compiled.without]

end Node

namespace Template

/-- The comments that no element around them keeps, by their numbers. -/
def hides (t : Template) (id : Nat) : Bool :=
  (Node.enclosedAll [] t.number).any fun e => e.node.id == id && !e.isVisible

theorem hides_id {t : Template} {e : Enclosed} (he : e ∈ Node.enclosedAll [] t.number) :
    t.hides e.node.id = !e.isVisible := by
  have hnodup : ((Node.enclosedAll [] t.number).map (·.node.id)).Nodup := by
    have hids := Node.ids_of_isNumbered t.isNumbered_number
    rw [← Node.enclosedAll_nodes [], List.map_map] at hids
    exact hids ▸ List.nodup_range'
  rw [Bool.eq_iff_iff, hides, List.any_eq_true]
  constructor
  · rintro ⟨d, hd, hboth⟩
    rw [Bool.and_eq_true, beq_iff_eq] at hboth
    exact List.inj_on_of_nodup_map hnodup hd he hboth.1 ▸ hboth.2
  · intro hinvisible
    exact ⟨e, he, by simpa using hinvisible⟩

theorem hides_of_mem {t : Template} {m : Node} (hm : m ∈ Node.walkAll t.number)
    (hcomment : m.isComment = false) : t.hides m.id = false := by
  rw [← Node.enclosedAll_nodes []] at hm
  obtain ⟨e, he, rfl⟩ := List.mem_map.mp hm
  simp [hides_id he, Enclosed.isVisible, hcomment]

theorem spares_nodes {options : Options} {t : Template} {c : CompiledTemplate}
    (h : t.compile options = .ok c) : ∀ n ∈ Compiled.walkAll c.nodes, n.Spares t.hides := by
  intro n hn
  rcases accounts_nodes h n hn with ⟨hid, hproper⟩ | ⟨m, hm, rfl⟩
  · cases n with
    | branch arms otherwise span =>
      intro m hm
      have helement := hproper.2 m hm
      cases m <;> first | rfl | cases helement
    | element id tag attributes reference children span => cases hid
    | text id content span => cases hid
    | comment id content span => cases hid
  · cases m with
    | element id span tag preserve children => exact hides_of_mem hm rfl
    | text id span content => exact hides_of_mem hm rfl
    | comment id span content => trivial

/-- Without significant comments the same tree comes out, less the comments that no element around
them keeps. -/
theorem compile_preserving {light : Bool} {t : Template} {c : CompiledTemplate}
    (h : t.compile ⟨light, true⟩ = .ok c) :
    t.compile ⟨light, false⟩ = .ok ⟨Compiled.withoutAll t.hides c.nodes⟩ := by
  obtain ⟨hclean, -, -⟩ := compile_ok h
  rw [compile_eq_ok_iff] at h ⊢
  have hvisible := Node.compileAll_visibleAll light t.isNumbered_number
  have hsame := Node.compileAll_preserving light t.isNumbered_number
  have hwithout := Node.compileAll_without light (fun e he => hides_id he) hclean
  have hgrouped := Compiled.ofSiblings_without t.hides
    (fun n hn => Node.isHidden_of_gap hn) (congrArg Prod.snd h)
  calc Compiled.ofSiblings (Node.compileAll ⟨light, false⟩ false t.number)
    _ = Compiled.ofSiblings (Node.compileAll ⟨light, false⟩ false
          (Node.visibleAll false t.number)) := by
        rw [hvisible, Compiled.ofSiblings_filter_nothing]
    _ = Compiled.ofSiblings (Node.compileAll ⟨light, true⟩ true
          (Node.visibleAll false t.number)) := by rw [hsame]
    _ = (Compiled.withoutAll t.hides (Compiled.ofSiblings
          (Node.compileAll ⟨light, true⟩ true t.number)).1, []) :=
        (congrArg Compiled.ofSiblings hwithout).trans hgrouped
    _ = (Compiled.withoutAll t.hides c.nodes, []) := by rw [h]

theorem refs_without (hidden : Nat → Bool) (nodes : List Compiled) :
    (CompiledTemplate.mk (Compiled.withoutAll hidden nodes)).refs =
      (CompiledTemplate.mk nodes).refs := by
  have h := Compiled.declarations_withoutAll hidden nodes
  rw [CompiledTemplate.refs_eq, CompiledTemplate.refs_eq, Compiled.declarations, h]
  rfl

/-- Options only reject. What compiles in light mode compiles without it, to the same tree. What
compiles with significant comments compiles without them, to the tree without the comments that no
element around them keeps: its table of refs is the same, and a pass leaves out these comments. And
a node that is misplaced without significant comments is misplaced with them. -/
theorem compile_stricter (t : Template) :
    (∀ preserve c, t.compile ⟨true, preserve⟩ = .ok c → t.compile ⟨false, preserve⟩ = .ok c) ∧
      (∀ light c, t.compile ⟨light, true⟩ = .ok c →
        ∃ c', t.compile ⟨light, false⟩ = .ok c' ∧
          c'.nodes = Compiled.withoutAll t.hides c.nodes ∧
          c'.refs = c.refs ∧
          ∀ (σ : Type) (ask : Evaluator σ),
            c'.render ask = List.filter (!t.hides ·) <$> c.render ask) ∧
      ∀ light id, Misplaced ⟨light, false⟩ t id → Misplaced ⟨light, true⟩ t id := by
  refine ⟨fun preserve c hc => ?_, fun light c hc => ?_, fun light id => misplaced_preserving⟩
  · have hclean := (compile_ok hc).1
    rw [compile_eq_ok_iff] at hc ⊢
    rw [← hc]
    exact congrArg Compiled.ofSiblings (Node.compileAll_of_light hclean)
  · exact ⟨_, compile_preserving hc, rfl, refs_without _ _, fun σ ask =>
      Compiled.renderAll_withoutAll t.hides ask (spares_nodes hc)⟩

/-- A comment at the top, and one in a `<template>` that keeps it, next to a ref. -/
def remarks : Template :=
  [.comment 0 ⟨0, 0⟩ "c",
    .element 0 ⟨0, 0⟩
      ⟨⟨"template", ⟨0, 0⟩⟩, [⟨⟨"preserve-comments", ⟨0, 0⟩⟩, none, ⟨0, 0⟩⟩]⟩ false
      [.comment 0 ⟨0, 0⟩ "d",
        .element 0 ⟨0, 0⟩
          ⟨⟨"p", ⟨0, 0⟩⟩, [⟨⟨"ref", ⟨0, 0⟩⟩, some ⟨.literal "r", ⟨0, 0⟩⟩, ⟨0, 0⟩⟩]⟩ false []]]

/-- An `else` that a text parts from its chain, and a comment in front of it. -/
def stray : Template :=
  let member (name : String) (value : Option AttributeValue) : Node :=
    .element 0 ⟨0, 0⟩
      ⟨⟨"p", ⟨0, 0⟩⟩, [⟨⟨name, ⟨0, 0⟩⟩, value.map (⟨·, ⟨0, 0⟩⟩), ⟨0, 0⟩⟩]⟩ false []
  [member "if:true" (some (.expression ⟨"a", ⟨0, 0⟩⟩)), .text 0 ⟨0, 0⟩ "x",
    .comment 0 ⟨0, 0⟩ "c", member "else" none]

/-- The first comment is rendered only where comments are significant, and light mode changes
nothing here. The `else` is misplaced whether comments are significant or not. -/
theorem compile_stricter_remarks :
    (∃ c c', remarks.compile ⟨true, true⟩ = .ok c ∧ remarks.compile ⟨false, true⟩ = .ok c ∧
      remarks.compile ⟨false, false⟩ = .ok c' ∧ c.ids = [0, 1, 2, 3] ∧ c'.ids = [1, 2, 3] ∧
      c'.refs.candidates "r" = [3] ∧
      ∀ ask : Evaluator Unit, c'.render ask = pure [1, 2, 3]) ∧
      Misplaced ⟨true, false⟩ stray 3 ∧ Misplaced ⟨true, true⟩ stray 3 := by
  constructor
  · obtain ⟨c, hlight⟩ : ∃ c, remarks.compile ⟨true, true⟩ = .ok c := ⟨_, rfl⟩
    have hc := (compile_stricter remarks).1 true c hlight
    obtain ⟨c', hc', hnodes, hrefs, hrender⟩ := (compile_stricter remarks).2.1 false c hc
    refine ⟨c, c', hlight, hc, hc', ?_, ?_, ?_, ?_⟩
    · cases hlight
      rfl
    · rw [CompiledTemplate.ids, hnodes]
      cases hlight
      rfl
    · rw [hrefs]
      cases hlight
      rfl
    · intro ask
      rw [hrender]
      cases hlight
      rfl
  · have hoff : Misplaced ⟨true, false⟩ stray 3 :=
      misplaced_iff.mpr ⟨(verdicts ⟨true, false⟩ stray.number)[3], List.getElem_mem _, rfl, rfl⟩
    exact ⟨hoff, (compile_stricter stray).2.2 true 3 hoff⟩

end Template
end Stencil
