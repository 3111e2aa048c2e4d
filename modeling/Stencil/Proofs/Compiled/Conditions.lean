import Stencil.Proofs.Classification.Table
import Stencil.Proofs.Compile.Concatenation
import Stencil.Proofs.Compiled.Questions
import Stencil.Proofs.Compiled.Reachable
import Stencil.Proofs.Node.Names

/-!
# The expressions that a template asks for

A pass asks for the conditions of arms, and each of them comes from an attribute of the source: it
is the expression between the braces. So whatever a template that was compiled from a source asks
for is trimmed.
-/
namespace Stencil

namespace Compiled

/-- The conditions of the arms of a branch. -/
def conditions : Compiled → List Condition
  | branch arms _ _ => arms.map (·.1)
  | element .. | text .. | comment .. => []

/-- A step leads to a node that a walk meets. -/
theorem walk_subset_of_next? {n m : Compiled} {step : Step} (h : n.next? step = some m) :
    m.walk ⊆ n.walk := by
  have hmem {k : Compiled} {ks : List Compiled} (hk : k ∈ ks) : k.walk ⊆ walkAll ks := by
    rw [walkAll_eq]
    exact fun m hm => List.mem_flatMap.mpr ⟨k, hk, hm⟩
  cases n with
  | element id tag attributes reference children span =>
    cases step with
    | child index => exact List.subset_cons_of_subset _ (hmem (List.mem_of_getElem? h))
    | arm _ | otherwise => cases h
  | text _ _ _ | comment _ _ _ => cases step <;> cases h
  | branch arms otherwise span =>
    have hsubtrees : m ∈ subtrees arms otherwise := by
      cases step with
      | child index => cases h
      | arm entry =>
        obtain ⟨arm, harm, rfl⟩ := Option.map_eq_some_iff.mp h
        exact List.mem_append_left _ (List.mem_map_of_mem (List.mem_of_getElem? harm))
      | otherwise => exact List.mem_append_right _ (Option.mem_toList.mpr h)
    rw [walk, walk_subtrees, ← walkAll_eq]
    exact List.subset_cons_of_subset _ (hmem hsubtrees)

theorem mem_walk_self (n : Compiled) : n ∈ n.walk := by
  cases n <;> simp [walk]

/-- What is at a place is met on a walk. -/
theorem mem_walkAll_of_at? {ns : List Compiled} {place : Place} {n : Compiled}
    (h : at? ns place = some n) : n ∈ walkAll ns := by
  have hsteps (steps : List Step) (m : Compiled) (hm : steps.foldlM next? m = some n) :
      n ∈ m.walk := by
    induction steps generalizing m with
    | nil =>
      cases hm
      exact mem_walk_self n
    | cons step steps ih =>
      rw [List.foldlM_cons] at hm
      obtain ⟨k, hk, hrest⟩ := Option.bind_eq_some_iff.mp hm
      exact walk_subset_of_next? hk (ih k hrest)
  match place, h with
  | .child index :: steps, h =>
    obtain ⟨m, hm, hrest⟩ := Option.bind_eq_some_iff.mp h
    rw [walkAll_eq, List.mem_flatMap]
    exact ⟨m, List.mem_of_getElem? hm, hsteps steps m hrest⟩

end Compiled

namespace CompiledTemplate

/-- The expressions of all arms, in the order of a walk. -/
def expressions (c : CompiledTemplate) : List Expression :=
  (Compiled.walkAll c.nodes).flatMap fun n => n.conditions.map (·.expression)

/-- A question is about an expression of the template. -/
theorem mem_expressions {c : CompiledTemplate} {q : Compiled.Question} (h : q.IsEntry c.nodes) :
    q.condition.expression ∈ c.expressions := by
  obtain ⟨arms, otherwise, span, n, hbranch, hentry⟩ := h
  refine List.mem_flatMap.mpr ⟨_, Compiled.mem_walkAll_of_at? hbranch, ?_⟩
  rw [Compiled.conditions, List.map_map]
  exact List.mem_map.mpr ⟨_, List.mem_of_getElem? hentry, rfl⟩

end CompiledTemplate

theorem Chain.exists_placed_of_mem_arms {α : Type} {c : Chain α} {arm : Condition × α}
    (h : arm ∈ c.arms) :
    ∃ part, (part = .opens arm.1 ∨ part = .continues arm.1) ∧ ⟨some part, arm.2⟩ ∈ c.placed := by
  have harms : ∀ (first : Condition → Conditional) (arms : List (Condition × α)),
      (∀ k, first k = .opens k ∨ first k = .continues k) → arm ∈ arms →
        ∃ part, (part = .opens arm.1 ∨ part = .continues arm.1) ∧
          ⟨some part, arm.2⟩ ∈ placedArms first arms := by
    intro first arms hfirst hmem
    induction arms generalizing first with
    | nil => cases hmem
    | cons head arms ih =>
      rcases List.mem_cons.mp hmem with rfl | hmem
      · exact ⟨_, hfirst _, List.mem_cons_self⟩
      · obtain ⟨part, hpart, hp⟩ := ih .continues (fun k => .inr rfl) hmem
        exact ⟨part, hpart, List.mem_cons_of_mem _ hp⟩
  obtain ⟨part, hpart, hp⟩ := harms .opens c.arms (fun k => .inl rfl) h
  exact ⟨part, hpart, List.mem_append_left _ hp⟩

/-- A node that opens or continues a chain has an attribute with the expression of its condition. -/
theorem Node.expression_of_role {options : Options} {n : Node} {part : Conditional}
    (h : n.role options = some part) {k : Condition} (hk : part = .opens k ∨ part = .continues k) :
    ∃ id span tag preserve children, n = element id span tag preserve children ∧
      ∃ a ∈ tag.attributes, ∃ place, a.value = some ⟨.expression k.expression, place⟩ := by
  cases n with
  | element id span tag preserve children =>
    have hok : (element id span tag preserve children).classify options =
        .ok (.conditional part) := by
      rw [role] at h
      split at h
      · cases h
        assumption
      · cases h
    obtain ⟨-, hmem, hmakes⟩ := classify_eq_ok_iff.mp hok
    refine ⟨id, span, tag, preserve, children, rfl, _, hmem, ?_⟩
    cases hmakes with
    | opens name value | continues name value =>
      obtain rfl : _ = k := by simpa using hk
      exact ⟨_, value⟩
    | otherwise name value => simp at hk
  | text _ _ _ | comment _ _ _ => cases h

namespace Template

/-- Every expression that a template asks for is written in braces in the source. -/
theorem exists_of_mem_expressions {options : Options} {t : Template} {c : CompiledTemplate}
    (h : t.compile options = .ok c) :
    ∀ e ∈ c.expressions, ∃ id span tag preserve children,
      Node.element id span tag preserve children ∈ Node.walkAll t.number ∧
        ∃ a ∈ tag.attributes, ∃ place, a.value = some ⟨.expression e, place⟩ := by
  rw [CompiledTemplate.expressions, List.forall_mem_flatMap]
  refine forall_nodes h (fun m hm => ?_) fun d hd => ?_
  · cases m <;> simp [Node.compiled, Compiled.conditions]
  · rw [List.forall_mem_map, Compiled.ofEmitted, Compiled.conditions, List.forall_mem_map]
    intro arm harm
    obtain ⟨part, hpart, hplaced⟩ := Chain.exists_placed_of_mem_arms harm
    obtain ⟨m, hm, hrole, -⟩ := hd.2 _ hplaced
    obtain ⟨id, span, tag, preserve, children, rfl, ha⟩ := Node.expression_of_role hrole.symm hpart
    exact ⟨id, span, tag, preserve, children, hm, ha⟩

end Template

theorem trim_of_mem_expressions {options : Options} {source : String} {c : CompiledTemplate}
    (h : compileSource options source = .ok c) :
    ∀ e ∈ c.expressions, Text.trim e.source = e.source := by
  obtain ⟨t, hp, hc⟩ := compileSource_eq_ok_iff.mp h
  intro e he
  obtain ⟨id, span, tag, preserve, children, hn, a, ha, place, hvalue⟩ :=
    Template.exists_of_mem_expressions hc e he
  rw [Template.number_of_isNumbered (Template.isNumbered_of_parse hp)] at hn
  exact ((Template.isTidy_of_parse hp _ hn).2 a ha).2 e place hvalue

end Stencil
