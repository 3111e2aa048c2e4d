import Stencil.Proofs.Chain.Concatenation
import Stencil.Proofs.Chain.Placement

/-!
# Siblings left out

Leaving siblings out of a list can only help its chains. A gap without an item leaves no trace at
all. Content that is left out is missing from the output, and nothing else changes when there were
no errors. With errors there are no more of them, since a chain that could be continued before can
still be continued.
-/
namespace Stencil

variable {α : Type}

namespace Sibling

/-- A gap that is never emitted. -/
def isNothing : Sibling α → Bool
  | gap none => true
  | gap (some _) | content _ | conditional .. => false

/-- Content with an item of some kind. -/
def isContent (p : α → Bool) : Sibling α → Bool
  | content item => p item
  | gap _ | conditional .. => false

/-- Whether a chain can be continued behind a sibling, given whether one can before it. -/
def accepts (before : Bool) : Sibling α → Bool
  | content _ | conditional .otherwise .. => false
  | gap _ | conditional (.continues _) .. => before
  | conditional (.opens _) .. => true

section Constructors
variable (p : α → Bool) (item : α) (c : Conditional) (site : Site)

@[simp] theorem isNothing_content : (content item).isNothing = false := rfl
@[simp] theorem isNothing_gap (item : Option α) : (gap item).isNothing = item.isNone := by
  cases item <;> rfl
@[simp] theorem isNothing_conditional : (conditional c site item).isNothing = false := rfl
@[simp] theorem isContent_content : (content item).isContent p = p item := rfl
@[simp] theorem isContent_gap (item : Option α) : (gap item).isContent p = false := rfl
@[simp] theorem isContent_conditional : (conditional c site item).isContent p = false := rfl

end Constructors

theorem accepts_mono {before after : Bool} (h : before = true → after = true) {s : Sibling α}
    (hs : s.accepts before = true) : s.accepts after = true := by
  cases s with
  | content item => cases hs
  | gap item => exact h hs
  | conditional c site item =>
    cases c with
    | opens k => rfl
    | continues k => exact h hs
    | otherwise => cases hs

end Sibling

namespace Emitted

/-- A single item of some kind. -/
def isNode (p : α → Bool) : Emitted α → Bool
  | node item => p item
  | chain _ => false

@[simp] theorem isNode_node (p : α → Bool) (item : α) : (node item).isNode p = p item := rfl
@[simp] theorem isNode_chain (p : α → Bool) (c : Chain α) : (chain c).isNode p = false := rfl

def chain? : Emitted α → Option (Chain α)
  | node _ => none
  | chain c => some c

end Emitted

namespace Chain.Context

/-! ## Gaps without an item -/

@[simp] theorem step_gap_none (context : Context α) :
    context.step (.gap none) = ⟨context, [], none⟩ := by
  cases context <;> rfl

theorem run_filter_nothing (context : Context α) (siblings : List (Sibling α)) :
    context.run (siblings.filter (!·.isNothing)) = context.run siblings := by
  induction siblings generalizing context with
  | nil => rfl
  | cons s rest ih =>
    cases s with
    | content item => simp [run, ih]
    | gap item => cases item <;> simp [run, ih]
    | conditional c site item => simp [run, ih]

/-! ## Content -/

@[simp] theorem accepts_close (context : Context α) : context.close.accepts = false := by
  cases context <;> rfl

/-- A member that finds its chain emits nothing, and no gaps stand behind it yet. -/
theorem extend_of_error_none {context : Context α} {condition : Option Condition} {site : Site}
    {item : α} (h : (context.extend condition site item).error = none) :
    ∃ chain terminated, context.extend condition site item =
      ⟨opened chain terminated [], [], none⟩ := by
  cases context with
  | idle => cases h
  | closed terminated => cases terminated <;> cases h
  | opened chain terminated gaps =>
    cases terminated with
    | true => cases h
    | false => cases condition <;> exact ⟨_, _, rfl⟩

/-- Without a chain that could be continued, what came before does not matter. -/
theorem build_of_run {context : Context α} (hc : context.accepts = false)
    {siblings : List (Sibling α)} (h : (context.run siblings).2 = []) :
    (build siblings).2 = [] := by
  rw [build]
  induction siblings generalizing context with
  | nil => rfl
  | cons s rest ih =>
    simp only [run, List.append_eq_nil_iff, Option.toList_eq_nil_iff] at h ⊢
    cases s with
    | content item => exact ⟨rfl, ih (accepts_close context) h.2⟩
    | gap item =>
      have hrest := ih ((accepts_gap context item).trans hc) h.2
      exact ⟨error_of_gap idle item, by simpa [step, gap_idle] using hrest⟩
    | conditional c site item =>
      cases hl : c.isLater with
      | true => simp [accepts_of_error_none hl h.1] at hc
      | false =>
        cases c with
        | opens k => exact ⟨rfl, h.2⟩
        | continues k => cases hl
        | otherwise => cases hl

/-- Leaving content out of a list without errors leaves it out of the output. What is held back is
not to be left out. -/
theorem run_filter_content {p : α → Bool} {context : Context α}
    (hc : ∀ e ∈ context.release, e.isNode p = false) {siblings : List (Sibling α)}
    (hgaps : ∀ item, .gap (some item) ∈ siblings → p item = false)
    (h : (context.run siblings).2 = []) :
    context.run (siblings.filter (!·.isContent p)) =
      ((context.run siblings).1.filter (!·.isNode p), []) := by
  have hself {es : List (Emitted α)} (hes : ∀ e ∈ es, e.isNode p = false) :
      es.filter (!·.isNode p) = es :=
    List.filter_eq_self.mpr fun e he => by simp [hes e he]
  induction siblings generalizing context with
  | nil => simp [run, hself hc]
  | cons s rest ih =>
    have hrest : ∀ item, .gap (some item) ∈ rest → p item = false :=
      fun item hitem => hgaps item (List.mem_cons_of_mem _ hitem)
    simp only [run, List.append_eq_nil_iff, Option.toList_eq_nil_iff] at h
    cases s with
    | content item =>
      have hclosed := @ih context.close (by simp) hrest h.2
      cases hp : p item with
      | false => simp [hp, run, step, content, hclosed, hself hc]
      | true =>
        -- Without the item the chain in front of it stays open, but nothing is left to continue it.
        have hbuild := build_of_run (accepts_close context) (congrArg Prod.snd hclosed)
        rw [run_of_build hbuild, release_close, List.nil_append] at hclosed
        obtain ⟨hout, -⟩ := Prod.mk.inj hclosed
        simp [hp, run, step, content, run_of_build hbuild context, hself hc, hout]
    | gap item =>
      have hout : ∀ e ∈ (context.gap item).output ++ (context.gap item).context.release,
          e.isNode p = false := by
        rw [release_gap, List.forall_mem_append]
        refine ⟨hc, fun e he => ?_⟩
        obtain ⟨i, hi, rfl⟩ := List.mem_map.mp he
        exact hgaps i (by rw [Option.mem_toList.mp hi]; exact List.mem_cons_self)
      rw [List.forall_mem_append] at hout
      have hstep := ih hout.2 hrest h.2
      simp [run, step, error_of_gap, hstep, hself hout.1]
    | conditional c site item =>
      cases c with
      | opens k =>
        have hstart := @ih (opened ⟨[(k, item)], none, site.extent⟩ false [])
          (by simp [release]) hrest h.2
        simp [run, step, start, hstart, hself hc]
      | continues k =>
        obtain ⟨chain, terminated, hjoin⟩ := extend_of_error_none h.1
        simp only [step, hjoin] at h
        have hstep := @ih (opened chain terminated []) (by simp [release]) hrest h.2
        simp [run, step, hjoin, hstep]
      | otherwise =>
        obtain ⟨chain, terminated, hjoin⟩ := extend_of_error_none h.1
        simp only [step, hjoin] at h
        have hstep := @ih (opened chain terminated []) (by simp [release]) hrest h.2
        simp [run, step, hjoin, hstep]

/-! ## Errors -/

theorem accepts_extend (context : Context α) (condition : Option Condition) (site : Site)
    (item : α) :
    (context.extend condition site item).context.accepts =
      (context.accepts && condition.isSome) := by
  cases context with
  | idle => rfl
  | closed terminated => cases terminated <;> rfl
  | opened chain terminated gaps => cases terminated <;> cases condition <;> rfl

theorem accepts_step (context : Context α) (s : Sibling α) :
    (context.step s).context.accepts = s.accepts context.accepts := by
  cases s with
  | content item => exact accepts_close context
  | gap item => exact accepts_gap context item
  | conditional c site item =>
    cases c with
    | opens k => rfl
    | continues k => simp [step, accepts_extend, Sibling.accepts]
    | otherwise => simp [step, accepts_extend, Sibling.accepts]

theorem isSome_error_extend (context : Context α) (condition : Option Condition) (site : Site)
    (item : α) : (context.extend condition site item).error.isSome = !context.accepts := by
  rw [error_extend_eq, Option.isSome_map, accepts_eq, Option.not_isNone]

/-- Whether a sibling is misplaced depends only on whether a chain can be continued. -/
theorem isSome_error_step (context : Context α) (s : Sibling α) :
    (context.step s).error.isSome = (s.isLater && !context.accepts) := by
  cases s with
  | content item => rfl
  | gap item => simp [Sibling.isLater]
  | conditional c site item =>
    cases c with
    | opens k => rfl
    | continues k => simp [step, isSome_error_extend, Sibling.isLater, Conditional.isLater]
    | otherwise => simp [step, isSome_error_extend, Sibling.isLater, Conditional.isLater]

/-! ## All gaps -/

/-- The context without the gaps behind an open chain. -/
def settled : Context α → Context α
  | idle => idle
  | opened chain terminated _ => opened chain terminated []
  | closed terminated => closed terminated

theorem settled_gap (context : Context α) (item : Option α) :
    (context.gap item).context.settled = context.settled := by
  cases context <;> cases item <;> rfl

/-- What grouping decides at one sibling: the context behind it, the error, and the chains. -/
def Step.decided (step : Step α) : Context α × Option CompileError × List (Chain α) :=
  (step.context, step.error, step.output.filterMap Emitted.chain?)

theorem chains_gap (context : Context α) (item : Option α) :
    (context.gap item).output.filterMap Emitted.chain? = [] := by
  cases context <;> cases item <;> rfl

theorem chains_release (context : Context α) :
    context.settled.release.filterMap Emitted.chain? =
      context.release.filterMap Emitted.chain? := by
  cases context with
  | idle => rfl
  | closed terminated => rfl
  | opened chain terminated gaps =>
    simp [settled, release, Emitted.chain?, List.filterMap_map, Function.comp_def]

theorem close_settled (context : Context α) : context.settled.close = context.close := by
  cases context <;> rfl

theorem misplaced_settled (context : Context α) (cause : String → CompileError.Cause)
    (site : Site) (item : α) :
    (context.settled.misplaced cause site item).decided =
      (context.misplaced cause site item).decided := by
  simp [misplaced, Step.decided, close_settled, chains_release]

theorem extend_settled (context : Context α) (condition : Option Condition) (site : Site)
    (item : α) :
    (context.settled.extend condition site item).decided =
      (context.extend condition site item).decided := by
  cases context with
  | idle => rfl
  | closed terminated => rfl
  | opened chain terminated gaps =>
    cases terminated with
    | true => exact misplaced_settled (opened chain true gaps) .orphaned site item
    | false => cases condition <;> rfl

/-- What is not a gap lets go of the gaps behind an open chain, or drops them. -/
theorem step_settled (context : Context α) {s : Sibling α} (hs : s.isGap = false) :
    (context.settled.step s).decided = (context.step s).decided := by
  cases s with
  | content item => simp [step, content, Step.decided, close_settled, chains_release]
  | gap item => cases hs
  | conditional c site item =>
    cases c with
    | opens k => simp [step, start, Step.decided, chains_release]
    | continues k => exact extend_settled context (some k) site item
    | otherwise => exact extend_settled context none site item

/-- Without its gaps a list has the same chains and the same errors. -/
theorem run_filter_gap {context other : Context α} (h : context.settled = other.settled)
    (siblings : List (Sibling α)) :
    (context.run (siblings.filter (!·.isGap))).1.filterMap Emitted.chain? =
        (other.run siblings).1.filterMap Emitted.chain? ∧
      (context.run (siblings.filter (!·.isGap))).2 = (other.run siblings).2 := by
  induction siblings generalizing context other with
  | nil =>
    have hc := chains_release context
    rw [h, chains_release] at hc
    exact ⟨hc.symm, rfl⟩
  | cons s rest ih =>
    cases hs : s.isGap with
    | true =>
      cases s with
      | content item => cases hs
      | gap item =>
        have hrest := ih (h.trans (settled_gap other item).symm)
        simpa [run, step, Sibling.isGap, chains_gap] using hrest
      | conditional c site item => cases hs
    | false =>
      have hstep := step_settled context hs
      rw [h, step_settled other hs] at hstep
      obtain ⟨hcontext, herror, hchains⟩ : _ ∧ _ ∧ _ := by
        simpa only [Step.decided, Prod.mk.injEq] using hstep
      have hrest := ih (congrArg settled hcontext.symm)
      simp only [List.filter_cons, hs, Bool.not_false, ↓reduceIte, run, List.filterMap_append,
        ← hchains, ← herror, hrest.1, hrest.2, and_self]

end Chain.Context

/-- Gaps decide nothing: lists that differ in them alone have the same chains and errors. -/
theorem Chain.build_of_filter_gap {siblings others : List (Sibling α)}
    (h : others.filter (!·.isGap) = siblings.filter (!·.isGap)) :
    (build others).1.filterMap Emitted.chain? = (build siblings).1.filterMap Emitted.chain? ∧
      (build others).2 = (build siblings).2 := by
  have hs := Context.run_filter_gap (rfl : (Context.idle : Context α).settled = _) siblings
  have ho := Context.run_filter_gap (rfl : (Context.idle : Context α).settled = _) others
  rw [h] at ho
  exact ⟨ho.1.symm.trans hs.1, ho.2.symm.trans hs.2⟩

end Stencil
