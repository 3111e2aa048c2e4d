import Stencil.Proofs.Chain.Naturality
import Stencil.Proofs.Chain.Omission
import Stencil.Proofs.Compiled.Flat
import Stencil.RefTable

/-!
# Compiled trees without some comments

Comments can be taken out of every list of children of a compiled tree. The branches stay, since
their arms are elements, and so do the declarations. A pass renders what it rendered before, less
these comments.
-/
namespace Stencil.Compiled

/-- A comment with one of the numbers to hide. -/
def isHidden (hidden : Nat → Bool) : Compiled → Bool
  | comment id .. => hidden id
  | element .. | text .. | branch .. => false

mutual
/-- The node without the hidden comments below it. -/
def without (hidden : Nat → Bool) : Compiled → Compiled
  | element id tag attributes reference children span =>
    element id tag attributes reference (withoutAll hidden children) span
  | text id content span => text id content span
  | comment id content span => comment id content span
  | branch arms otherwise span =>
    branch (withoutArms hidden arms) (withoutOption hidden otherwise) span

def withoutAll (hidden : Nat → Bool) : List Compiled → List Compiled
  | [] => []
  | n :: ns =>
    if n.isHidden hidden then withoutAll hidden ns
    else n.without hidden :: withoutAll hidden ns

def withoutArms (hidden : Nat → Bool) : List (Condition × Compiled) → List (Condition × Compiled)
  | [] => []
  | (k, n) :: arms => (k, n.without hidden) :: withoutArms hidden arms

def withoutOption (hidden : Nat → Bool) : Option Compiled → Option Compiled
  | none => none
  | some n => some (n.without hidden)
end

variable (hidden : Nat → Bool)

section Constructors
variable (id : Nat) (content : String) (span : Span)

@[simp] theorem isHidden_element (tag : String) (attributes : List Attribute)
    (reference : Option String) (children : List Compiled) :
    (element id tag attributes reference children span).isHidden hidden = false := rfl
@[simp] theorem isHidden_text : (text id content span).isHidden hidden = false := rfl
@[simp] theorem isHidden_comment : (comment id content span).isHidden hidden = hidden id := rfl
@[simp] theorem isHidden_branch (arms : List (Condition × Compiled)) (otherwise : Option Compiled) :
    (branch arms otherwise span).isHidden hidden = false := rfl

end Constructors

theorem withoutAll_eq (ns : List Compiled) :
    withoutAll hidden ns = (ns.filter (!·.isHidden hidden)).map (without hidden) := by
  induction ns with
  | nil => rfl
  | cons n ns ih => cases h : n.isHidden hidden <;> simp [withoutAll, h, ih]

theorem withoutArms_eq (arms : List (Condition × Compiled)) :
    withoutArms hidden arms = arms.map fun (k, n) => (k, n.without hidden) := by
  induction arms with
  | nil => rfl
  | cons arm arms ih => simp [withoutArms, ih]

theorem withoutOption_eq (otherwise : Option Compiled) :
    withoutOption hidden otherwise = otherwise.map (without hidden) := by
  cases otherwise <;> rfl

theorem ofEmitted_without (e : Emitted Compiled) :
    ofEmitted (e.map (without hidden)) = (ofEmitted e).without hidden := by
  cases e with
  | node n => rfl
  | chain c =>
    simp [Emitted.map, Chain.map, ofEmitted, without, withoutArms_eq, withoutOption_eq]

theorem isHidden_ofEmitted (e : Emitted Compiled) :
    (ofEmitted e).isHidden hidden = e.isNode (isHidden hidden) := by
  cases e <;> rfl

/-- Hidden comments that are content of a list without errors can be left out before it is grouped,
or after. -/
theorem ofSiblings_without {members : List (Sibling Compiled) × List CompileError}
    (hgaps : ∀ n, .gap (some n) ∈ members.1 → n.isHidden hidden = false)
    (h : (ofSiblings members).2 = []) :
    ofSiblings ((members.1.filter (!·.isContent (isHidden hidden))).map
        (Sibling.map (without hidden)), []) =
      (withoutAll hidden (ofSiblings members).1, []) := by
  obtain ⟨-, herrors⟩ := List.append_eq_nil_iff.mp h
  have hbuild : Chain.build (members.1.filter (!·.isContent (isHidden hidden))) =
      ((Chain.build members.1).1.filter (!·.isNode (isHidden hidden)), []) :=
    Chain.Context.run_filter_content (by simp) hgaps herrors
  simp only [ofSiblings, Chain.build_map, hbuild, withoutAll_eq, List.filter_map, List.map_map,
    Function.comp_def, ofEmitted_without, isHidden_ofEmitted, List.append_nil]

/-! ## Declarations -/

mutual
theorem declarations_without (n : Compiled) :
    (n.without hidden).walk.filterMap declaration? = n.walk.filterMap declaration? := by
  cases n with
  | element id tag attributes reference children span =>
    have hbelow := declarations_withoutAll children
    cases reference <;> simp [without, walk, List.filterMap_cons, declaration?, hbelow]
  | text id content span => rfl
  | comment id content span => rfl
  | branch arms otherwise span =>
    simp [without, walk, List.filterMap_cons, declaration?, declarations_withoutArms arms,
      declarations_withoutOption otherwise]

/-- Comments declare nothing. -/
theorem declarations_withoutAll (ns : List Compiled) :
    (walkAll (withoutAll hidden ns)).filterMap declaration? =
      (walkAll ns).filterMap declaration? := by
  cases ns with
  | nil => rfl
  | cons n ns =>
    cases h : n.isHidden hidden with
    | false =>
      simp [withoutAll, h, walkAll, declarations_without n, declarations_withoutAll ns]
    | true =>
      have hn : n.walk.filterMap declaration? = [] := by
        cases n <;> simp_all [isHidden, walk, declaration?]
      simp [withoutAll, h, walkAll, hn, declarations_withoutAll ns]

theorem declarations_withoutArms (arms : List (Condition × Compiled)) :
    (walkArms (withoutArms hidden arms)).filterMap declaration? =
      (walkArms arms).filterMap declaration? := by
  cases arms with
  | nil => rfl
  | cons arm arms =>
    obtain ⟨k, n⟩ := arm
    simp [withoutArms, walkArms, declarations_without n, declarations_withoutArms arms]

theorem declarations_withoutOption (otherwise : Option Compiled) :
    (walkOption (withoutOption hidden otherwise)).filterMap declaration? =
      (walkOption otherwise).filterMap declaration? := by
  cases otherwise with
  | none => rfl
  | some n => exact declarations_without n
end

/-! ## Passes -/

/-- Only comments are hidden, and no arm of a branch is. -/
def Spares : Compiled → Prop
  | element id .. | text id .. => hidden id = false
  | comment .. => True
  | branch arms otherwise _ => ∀ n ∈ subtrees arms otherwise, n.isHidden hidden = false

variable {σ : Type} (ask : Evaluator σ)

mutual
theorem render_without {n : Compiled} (hn : n.isHidden hidden = false)
    (h : ∀ m ∈ n.walk, m.Spares hidden) :
    (n.without hidden).render ask = List.filter (!hidden ·) <$> n.render ask := by
  cases n with
  | element id tag attributes reference children span =>
    have hid : hidden id = false := h _ List.mem_cons_self
    have hbelow := renderAll_withoutAll fun m hm => h m (List.mem_cons_of_mem _ hm)
    simp [without, render, hbelow, hid]
  | text id content span =>
    have hid : hidden id = false := h _ List.mem_cons_self
    simp [without, render, hid]
  | comment id content span =>
    have hid : hidden id = false := hn
    simp [without, render, hid]
  | branch arms otherwise span =>
    have hsubtrees : ∀ m ∈ subtrees arms otherwise, m.isHidden hidden = false :=
      h _ List.mem_cons_self
    have hwalk : ∀ m ∈ walkArms arms ++ walkOption otherwise, m.Spares hidden :=
      fun m hm => h m (List.mem_cons_of_mem _ hm)
    rw [List.forall_mem_append] at hwalk
    rw [subtrees, List.forall_mem_append] at hsubtrees
    rw [without, render, render, renderOption_withoutOption hsubtrees.2 hwalk.2,
      renderArms_withoutArms _ hsubtrees.1 hwalk.1]

/-- Hidden comments are not rendered, and the evaluator is asked the same questions. -/
theorem renderAll_withoutAll {ns : List Compiled} (h : ∀ m ∈ walkAll ns, m.Spares hidden) :
    renderAll ask (withoutAll hidden ns) = List.filter (!hidden ·) <$> renderAll ask ns := by
  cases ns with
  | nil => simp [withoutAll, renderAll]
  | cons n ns =>
    rw [walkAll, List.forall_mem_append] at h
    have hbehind := renderAll_withoutAll h.2
    cases hn : n.isHidden hidden with
    | false =>
      simp [withoutAll, hn, renderAll, render_without hn h.1, hbehind]
    | true =>
      cases n with
      | comment id content span =>
        have hid : hidden id = true := hn
        simp [withoutAll, renderAll, render, hbehind, hid]
      | element id tag attributes reference children span => cases hn
      | text id content span => cases hn
      | branch arms otherwise span => cases hn

theorem renderArms_withoutArms (otherwise : StateM σ (List Nat))
    {arms : List (Condition × Compiled)} (hn : ∀ m ∈ arms.map (·.2), m.isHidden hidden = false)
    (h : ∀ m ∈ walkArms arms, m.Spares hidden) :
    renderArms ask (List.filter (!hidden ·) <$> otherwise) (withoutArms hidden arms) =
      List.filter (!hidden ·) <$> renderArms ask otherwise arms := by
  cases arms with
  | nil => rfl
  | cons arm arms =>
    obtain ⟨k, n⟩ := arm
    rw [walkArms, List.forall_mem_append] at h
    rw [List.map_cons, List.forall_mem_cons] at hn
    rw [withoutArms, renderArms, renderArms, map_bind]
    refine bind_congr fun answer => ?_
    by_cases haccepts : k.polarity.accepts answer = true
    · simpa [haccepts] using render_without hn.1 h.1
    · simpa [haccepts] using renderArms_withoutArms otherwise hn.2 h.2

theorem renderOption_withoutOption {otherwise : Option Compiled}
    (hn : ∀ m ∈ otherwise.toList, m.isHidden hidden = false)
    (h : ∀ m ∈ walkOption otherwise, m.Spares hidden) :
    renderOption ask (withoutOption hidden otherwise) =
      List.filter (!hidden ·) <$> renderOption ask otherwise := by
  cases otherwise with
  | none => simp [withoutOption, renderOption]
  | some n => exact render_without (hn n (by simp)) h
end

end Stencil.Compiled
