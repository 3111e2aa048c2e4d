import Stencil.Proofs.Chain.Omission
import Stencil.Proofs.Compile.Places

/-!
# Misplaced members

An `elseif` or `else` is misplaced when no chain stands before it that it could continue. Comments
that are significant close a chain, and do nothing else, so they can only misplace more members.
-/
namespace Stencil

/-- The causes that are about the place of a member. -/
def CompileError.Cause.isPlacement : Cause → Bool
  | orphaned _ | notAdjacent _ => true
  | multipleConditionals _ | wrongValue .. | elseWithValue | refNotAllowed _ => false

theorem Keyword.isPlacement_valueFault {k : Keyword} {a : Attribute} {cause : CompileError.Cause}
    (h : k.valueFault? a = some cause) : cause.isPlacement = false := by
  cases k <;> rw [valueFault?] at h <;> split at h <;> cases h <;> rfl

/-- Faulty directives say nothing about the place of their element. -/
theorem StartTag.isPlacement_faults {options : Options} {tag : StartTag}
    {cause : CompileError.Cause} {span : Span} (h : (cause, span) ∈ tag.faults options) :
    cause.isPlacement = false := by
  rw [faults_eq, List.mem_append] at h
  rcases h with h | h
  · obtain ⟨rfl, -⟩ := multiple_cases h
    rfl
  · obtain ⟨a, -, -, ⟨-, rfl | ⟨reason, -, rfl⟩⟩ | ⟨k, -, hv⟩⟩ := attributeFault_cases h
    · rfl
    · rfl
    · exact Keyword.isPlacement_valueFault hv

namespace Node

theorem isPlacement_of_mem_faults {options : Options} {n : Node} {e : CompileError}
    (h : e ∈ n.faults options) : e.cause.isPlacement = false := by
  cases n with
  | element id span tag preserve children =>
    rw [faults_element, StartTag.errors] at h
    obtain ⟨⟨cause, span⟩, hf, rfl⟩ := List.mem_map.mp h
    exact StartTag.isPlacement_faults hf
  | text id span content => cases h
  | comment id span content => cases h

theorem IsPlacement.cause {n : Node} {e : CompileError} (h : n.IsPlacement e) :
    e.cause.isPlacement = true := by
  obtain ⟨-, directive, h | h⟩ := h <;> rw [h] <;> rfl

/-! ## With and without significant comments -/

/-- Significant comments are no members of a chain. -/
theorem isLater_sibling (keep : Bool) (n : Node) :
    (n.sibling keep).isLater = (n.sibling true).isLater := by
  cases n with
  | element id span tag preserve children => rfl
  | text id span content => rfl
  | comment id span content => cases keep <;> rfl

/-- A chain that can be continued behind a node can be so as well when comments count less. -/
theorem accepts_sibling {keep off on : Bool} {n : Node} (h : on = true → off = true)
    (hn : (n.sibling true).accepts on = true) : (n.sibling keep).accepts off = true := by
  cases n with
  | element id span tag preserve children => exact Sibling.accepts_mono h hn
  | text id span content => exact Sibling.accepts_mono h hn
  | comment id span content => cases hn

variable {keep : Bool} {off on : Chain.Context Node}

theorem isSome_error_sibling {n : Node} (h : on.accepts = true → off.accepts = true)
    (hoff : (off.step (n.sibling keep)).error.isSome = true) :
    (on.step (n.sibling true)).error.isSome = true := by
  rw [Chain.Context.isSome_error_step, isLater_sibling, Bool.and_eq_true] at hoff
  rw [Chain.Context.isSome_error_step, hoff.1, Bool.true_and]
  cases hon : on.accepts with
  | false => rfl
  | true => simp [h hon] at hoff

theorem accepts_step_sibling (h : on.accepts = true → off.accepts = true) (n : Node) :
    (on.step (n.sibling true)).context.accepts = true →
      (off.step (n.sibling keep)).context.accepts = true := by
  rw [Chain.Context.accepts_step, Chain.Context.accepts_step]
  exact accepts_sibling h

/-- Two runs side by side: a chain that can be continued with significant comments can be continued
without, so what is misplaced without is misplaced with them. -/
theorem isSome_placement_judgeAll {ns : List Node} (h : on.accepts = true → off.accepts = true) :
    ∀ v ∈ judgeAll keep off ns, v.placement.isSome = true →
      ∃ w ∈ judgeAll true on ns, w.node = v.node ∧ w.placement.isSome = true := by
  induction ns using siblings_induction generalizing keep off on with
  | nil => intro v hv; cases hv
  | element id span tag preserve children ns ihc ihn =>
    intro v hv hsome
    simp only [judgeAll, judge, Bool.true_or, List.mem_cons, List.mem_append, List.cons_append]
      at hv ⊢
    rcases hv with rfl | hv | hv
    · exact ⟨_, .inl rfl, rfl, isSome_error_sibling h hsome⟩
    · obtain ⟨w, hw, hwv⟩ := ihc (fun hidle => hidle) v hv hsome
      exact ⟨w, .inr (.inl hw), hwv⟩
    · obtain ⟨w, hw, hwv⟩ := ihn (accepts_step_sibling h _) v hv hsome
      exact ⟨w, .inr (.inr hw), hwv⟩
  | text id span content ns ihn | comment id span content ns ihn =>
    intro v hv hsome
    simp only [judgeAll, judge, List.mem_cons, List.cons_append, List.nil_append] at hv ⊢
    rcases hv with rfl | hv
    · exact ⟨_, .inl rfl, rfl, isSome_error_sibling h hsome⟩
    · obtain ⟨w, hw, hwv⟩ := ihn (accepts_step_sibling h _) v hv hsome
      exact ⟨w, .inr hw, hwv⟩

end Node

namespace Template

/-- Compilation says that the node is misplaced. -/
def Misplaced (options : Options) (t : Template) (id : Nat) : Prop :=
  ∃ es, t.compile options = .error es ∧ ∃ e ∈ es, e.node = id ∧ e.cause.isPlacement = true

theorem misplaced_iff {options : Options} {t : Template} {id : Nat} :
    Misplaced options t id ↔
      ∃ v ∈ verdicts options t.number, v.node.id = id ∧ v.placement.isSome = true := by
  constructor
  · rintro ⟨es, hes, e, he, rfl, hcause⟩
    obtain ⟨-, rfl⟩ := compile_error hes
    obtain ⟨v, hv, hev⟩ := List.mem_flatMap.mp he
    refine ⟨v, hv, (Node.node_of_mem_errors hv hev).symm, ?_⟩
    rcases List.mem_append.mp hev with hfault | hplace
    · rw [Node.isPlacement_of_mem_faults hfault] at hcause
      cases hcause
    · exact Option.isSome_of_mem (Option.mem_toList.mp hplace)
  · rintro ⟨v, hv, rfl, hsome⟩
    obtain ⟨e, he⟩ := Option.isSome_iff_exists.mp hsome
    have hplace := Node.isPlacement_judgeAll hv he
    have hmem : e ∈ Node.reports options options.preserveComments .idle t.number :=
      List.mem_flatMap.mpr ⟨v, hv, List.mem_append_right _ (Option.mem_toList.mpr he)⟩
    exact ⟨_, (compile_eq options t).2 (List.ne_nil_of_mem hmem), e, hmem, hplace.1,
      hplace.cause⟩

/-- What is misplaced stays so when comments become significant. -/
theorem misplaced_preserving {light : Bool} {t : Template} {id : Nat}
    (h : Misplaced ⟨light, false⟩ t id) : Misplaced ⟨light, true⟩ t id := by
  obtain ⟨v, hv, rfl, hsome⟩ := misplaced_iff.mp h
  obtain ⟨w, hw, hnode, hwsome⟩ := Node.isSome_placement_judgeAll (fun hidle => hidle) v hv hsome
  exact misplaced_iff.mpr ⟨w, hw, congrArg Node.id hnode, hwsome⟩

end Template
end Stencil
