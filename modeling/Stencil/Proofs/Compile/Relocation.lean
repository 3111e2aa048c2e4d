import Stencil.Proofs.Chain.Naturality
import Stencil.Proofs.Node.Relocation
import Stencil.Compile

/-!
# Relocated templates

Compilation commutes with a relocation: the tree, its declarations and the errors of relocated
siblings are the relocated ones. A pass over a relocated tree renders the relocated numbers, when
its questions are answered for their own places.
-/
namespace Stencil

def Declaration.relocate (r : Relocation) (d : Declaration) : Declaration :=
  ⟨d.name, r.node d.node, d.tag, d.span.relocate r.offset⟩

/-- Answers a question at the place that it comes to. -/
def Evaluator.relocate {σ : Type} (offset : Nat → Nat) (ask : Evaluator σ) : Evaluator σ :=
  fun e => ask (e.relocate offset)

namespace Compiled

mutual
def relocate (r : Relocation) : Compiled → Compiled
  | element id tag attributes reference children span =>
    element (r.node id) tag (attributes.map (·.relocate r.offset)) reference
      (relocateAll r children) (span.relocate r.offset)
  | text id content span => text (r.node id) content (span.relocate r.offset)
  | comment id content span => comment (r.node id) content (span.relocate r.offset)
  | branch arms otherwise span =>
    branch (relocateArms r arms) (relocateOption r otherwise) (span.relocate r.offset)

def relocateAll (r : Relocation) : List Compiled → List Compiled
  | [] => []
  | n :: ns => n.relocate r :: relocateAll r ns

def relocateArms (r : Relocation) : List (Condition × Compiled) → List (Condition × Compiled)
  | [] => []
  | (k, n) :: arms => (k.relocate r.offset, n.relocate r) :: relocateArms r arms

def relocateOption (r : Relocation) : Option Compiled → Option Compiled
  | none => none
  | some n => some (n.relocate r)
end

variable (r : Relocation)

theorem relocateAll_eq (ns : List Compiled) : relocateAll r ns = ns.map (relocate r) := by
  induction ns with
  | nil => rfl
  | cons n ns ih => simp [relocateAll, ih]

theorem relocateArms_eq (arms : List (Condition × Compiled)) :
    relocateArms r arms = arms.map fun (k, n) => (k.relocate r.offset, n.relocate r) := by
  induction arms with
  | nil => rfl
  | cons arm arms ih => simp [relocateArms, ih]

theorem relocateOption_eq (otherwise : Option Compiled) :
    relocateOption r otherwise = otherwise.map (relocate r) := by
  cases otherwise <;> rfl

theorem ofEmitted_relocate (e : Emitted Compiled) :
    ofEmitted (e.relocate r (relocate r)) = (ofEmitted e).relocate r := by
  cases e with
  | node n => rfl
  | chain c =>
    simp [Emitted.relocate, Chain.relocate, ofEmitted, relocate, relocateArms_eq,
      relocateOption_eq]

theorem ofSiblings_relocate (members : List (Sibling Compiled)) (errors : List CompileError) :
    ofSiblings (members.map (Sibling.relocate r (relocate r)), errors.map (·.relocate r)) =
      (relocateAll r (ofSiblings (members, errors)).1,
        (ofSiblings (members, errors)).2.map (·.relocate r)) := by
  simp [ofSiblings, Chain.build_relocate, relocateAll_eq, ofEmitted_relocate, Function.comp_def]

end Compiled

theorem StartTag.compiled_relocate (r : Relocation) (options : Options) (tag : StartTag) (id : Nat)
    (span : Span) (children : List Compiled) :
    (tag.relocate r.offset).compiled options (r.node id) (span.relocate r.offset)
        (Compiled.relocateAll r children) =
      (tag.compiled options id span children).relocate r (Compiled.relocate r) := by
  have hkept : (tag.relocate r.offset).attributes.filter
      (!(tag.relocate r.offset).isDirective ·) =
        (tag.attributes.filter (!tag.isDirective ·)).map (·.relocate r.offset) := by
    rw [relocate, List.filter_map]
    rfl
  simp only [compiled, conditional?_relocate, hkept, reference_relocate]
  cases tag.conditional? with
  | none => simp [Sibling.relocate, Compiled.relocate]
  | some part => simp [Sibling.relocate, Compiled.relocate, Site.relocate]

namespace Node

theorem compileAll_relocateAll (r : Relocation) (options : Options) (keep : Bool)
    (ns : List Node) :
    compileAll options keep (relocateAll r ns) =
      ((compileAll options keep ns).1.map (Sibling.relocate r (Compiled.relocate r)),
        (compileAll options keep ns).2.map (·.relocate r)) := by
  induction ns using siblings_induction generalizing keep with
  | nil => rfl
  | element id span tag preserve children ns hc hn =>
    simp [relocateAll, relocate, compileAll, compile, hc, hn, Compiled.ofSiblings_relocate,
      StartTag.compiled_relocate, StartTag.errors_relocate]
  | text id span content ns hn =>
    simp only [relocateAll, relocate, compileAll, compile, hn]
    split <;> simp [Sibling.relocate, Compiled.relocate]
  | comment id span content ns hn =>
    simp only [relocateAll, relocate, compileAll, compile, hn]
    split <;> simp [Sibling.relocate, Compiled.relocate]

end Node

namespace Compiled

/-! ## Declarations -/

mutual
theorem walk_relocate (r : Relocation) (n : Compiled) :
    (n.relocate r).walk = n.walk.map (relocate r) := by
  cases n with
  | element id tag attributes reference children span =>
    simp [relocate, walk, walkAll_relocateAll r children]
  | text id content span => rfl
  | comment id content span => rfl
  | branch arms otherwise span =>
    simp [relocate, walk, walkArms_relocateArms r arms, walkOption_relocateOption r otherwise]

theorem walkAll_relocateAll (r : Relocation) (ns : List Compiled) :
    walkAll (relocateAll r ns) = (walkAll ns).map (relocate r) := by
  cases ns with
  | nil => rfl
  | cons n ns => simp [relocateAll, walkAll, walk_relocate r n, walkAll_relocateAll r ns]

theorem walkArms_relocateArms (r : Relocation) (arms : List (Condition × Compiled)) :
    walkArms (relocateArms r arms) = (walkArms arms).map (relocate r) := by
  cases arms with
  | nil => rfl
  | cons arm arms =>
    obtain ⟨k, n⟩ := arm
    simp [relocateArms, walkArms, walk_relocate r n, walkArms_relocateArms r arms]

theorem walkOption_relocateOption (r : Relocation) (otherwise : Option Compiled) :
    walkOption (relocateOption r otherwise) = (walkOption otherwise).map (relocate r) := by
  cases otherwise with
  | none => rfl
  | some n => exact walk_relocate r n
end

theorem declaration?_relocate (r : Relocation) (n : Compiled) :
    (n.relocate r).declaration? = n.declaration?.map (·.relocate r) := by
  cases n with
  | element id tag attributes reference children span => cases reference <;> rfl
  | text id content span => rfl
  | comment id content span => rfl
  | branch arms otherwise span => rfl

theorem declarations_relocateAll (r : Relocation) (ns : List Compiled) :
    declarations (relocateAll r ns) = (declarations ns).map (·.relocate r) := by
  rw [declarations, declarations, walkAll_relocateAll, List.filterMap_map, List.map_filterMap]
  congr 1
  funext n
  exact declaration?_relocate r n

/-! ## Passes -/

variable {σ : Type} (ask : Evaluator σ)

mutual
theorem render_relocate (r : Relocation) (n : Compiled) :
    (n.relocate r).render ask = List.map r.node <$> n.render (ask.relocate r.offset) := by
  cases n with
  | element id tag attributes reference children span =>
    simp [relocate, render, renderAll_relocateAll r children]
  | text id content span => simp [relocate, render]
  | comment id content span => simp [relocate, render]
  | branch arms otherwise span =>
    rw [relocate, render, render, renderOption_relocateOption r otherwise,
      renderArms_relocateArms r _ arms]

theorem renderAll_relocateAll (r : Relocation) (ns : List Compiled) :
    renderAll ask (relocateAll r ns) =
      List.map r.node <$> renderAll (ask.relocate r.offset) ns := by
  cases ns with
  | nil => simp [relocateAll, renderAll]
  | cons n ns =>
    simp [relocateAll, renderAll, render_relocate r n, renderAll_relocateAll r ns]

theorem renderArms_relocateArms (r : Relocation) (otherwise : StateM σ (List Nat))
    (arms : List (Condition × Compiled)) :
    renderArms ask (List.map r.node <$> otherwise) (relocateArms r arms) =
      List.map r.node <$> renderArms (ask.relocate r.offset) otherwise arms := by
  cases arms with
  | nil => rfl
  | cons arm arms =>
    obtain ⟨k, n⟩ := arm
    rw [relocateArms, renderArms, renderArms, map_bind]
    refine bind_congr fun answer => ?_
    by_cases h : k.polarity.accepts answer = true
    · simpa [Condition.relocate, h] using render_relocate r n
    · simpa [Condition.relocate, h] using renderArms_relocateArms r otherwise arms

theorem renderOption_relocateOption (r : Relocation) (otherwise : Option Compiled) :
    renderOption ask (relocateOption r otherwise) =
      List.map r.node <$> renderOption (ask.relocate r.offset) otherwise := by
  cases otherwise with
  | none => simp [relocateOption, renderOption]
  | some n => exact render_relocate r n
end

end Compiled
end Stencil
