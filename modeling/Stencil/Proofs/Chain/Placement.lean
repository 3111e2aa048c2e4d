import Stencil.Proofs.Chain.Grouping

/-!
# Errors of grouping

A sibling has at most one error in its list: an `elseif` or `else` is orphaned or not adjacent,
and the error is about its own site.
-/
namespace Stencil

variable {α : Type}

/-- The error of a member that stands in the wrong place. -/
def Site.error (site : Site) (cause : String → CompileError.Cause) : CompileError :=
  ⟨cause site.directive, site.tag, site.span, site.node⟩

namespace Chain.Context

@[simp] theorem error_content (context : Context α) (item : α) :
    (context.step (.content item)).error = none := rfl

@[simp] theorem error_gap (context : Context α) (item : Option α) :
    (context.step (.gap item)).error = none := by
  cases context <;> cases item <;> rfl

/-- The error that an `elseif` or `else` would be here, if any. -/
def cause? : Context α → Option (String → CompileError.Cause)
  | opened _ false _ => none
  | closed false => some .notAdjacent
  | idle | opened _ true _ | closed true => some .orphaned

theorem error_extend_eq (context : Context α) (condition : Option Condition) (site : Site)
    (item : α) :
    (context.extend condition site item).error = context.cause?.map site.error := by
  cases context with
  | idle => rfl
  | closed terminated => cases terminated <;> rfl
  | opened chain terminated gaps => cases terminated <;> cases condition <;> rfl

theorem accepts_eq (context : Context α) : context.accepts = context.cause?.isNone := by
  cases context with
  | idle => rfl
  | closed terminated => cases terminated <;> rfl
  | opened chain terminated gaps => cases terminated <;> rfl

theorem error_extend {context : Context α} {condition : Option Condition} {site : Site} {item : α}
    {e : CompileError} (h : (context.extend condition site item).error = some e) :
    e = site.error .orphaned ∨ e = site.error .notAdjacent := by
  rw [error_extend_eq] at h
  cases context with
  | idle => exact .inl (Option.some.inj h).symm
  | closed terminated =>
    cases terminated with
    | false => exact .inr (Option.some.inj h).symm
    | true => exact .inl (Option.some.inj h).symm
  | opened chain terminated gaps =>
    cases terminated with
    | true => exact .inl (Option.some.inj h).symm
    | false => cases h

/-- Only an `elseif` or `else` has an error, and it is one of two. -/
theorem error_step {context : Context α} {s : Sibling α} {e : CompileError}
    (h : (context.step s).error = some e) :
    ∃ c site item, s = .conditional c site item ∧ c.isLater = true ∧
      (e = site.error .orphaned ∨ e = site.error .notAdjacent) := by
  cases s with
  | content item => cases h
  | gap item => simp at h
  | conditional c site item =>
    cases c with
    | opens k => cases h
    | continues k => exact ⟨.continues k, site, item, rfl, rfl, error_extend h⟩
    | otherwise => exact ⟨.otherwise, site, item, rfl, rfl, error_extend h⟩

end Chain.Context
end Stencil
