import Stencil.Chain

/-!
# Sibling lists one behind the other

A sibling list that has no errors by itself does not begin with an `elseif` or `else`. So a chain
that is open in front of it captures none of its members, and what the chain holds back comes out
in front of them.
-/
namespace Stencil.Chain

variable {α : Type}

namespace Context

@[simp] theorem release_idle : (idle : Context α).release = [] := rfl
@[simp] theorem close_idle : (idle : Context α).close = idle := rfl
@[simp] theorem release_close (context : Context α) : context.close.release = [] := by
  cases context <;> rfl

/-- A gap comes out behind what is held back, now or later. -/
theorem release_gap (context : Context α) (item : Option α) :
    (context.gap item).output ++ (context.gap item).context.release =
      context.release ++ item.toList.map .node := by
  cases context <;> cases item <;> simp [gap, release]

@[simp] theorem error_of_gap (context : Context α) (item : Option α) :
    (context.gap item).error = none := by
  cases context <;> cases item <;> rfl

theorem gap_idle (item : Option α) :
    (idle : Context α).gap item = ⟨idle, item.toList.map .node, none⟩ := by
  cases item <;> rfl

/-- Nothing that came before matters to siblings without errors of their own. -/
theorem run_of_build {siblings : List (Sibling α)} (h : (build siblings).2 = [])
    (context : Context α) :
    context.run siblings = (context.release ++ (build siblings).1, []) := by
  rw [build] at h ⊢
  induction siblings generalizing context with
  | nil => simp [run]
  | cons s rest ih =>
    cases s with
    | content item =>
      have hr : (idle.run rest).2 = [] := by simpa [run, step, content] using h
      have hclosed := ih hr context.close
      rw [release_close, List.nil_append] at hclosed
      simp [run, step, content, hclosed]
    | gap item =>
      have hr : (idle.run rest).2 = [] := by simpa [run, step, gap_idle] using h
      have hgap := ih hr (context.gap item).context
      have hg := release_gap context item
      simp only [run, step, gap_idle, error_of_gap, hgap]
      rw [← List.append_assoc, hg, List.append_assoc]
      rfl
    | conditional c site item =>
      cases c with
      | opens k =>
        -- An `if` leads to the same context from everywhere.
        have hr : (run (opened ⟨[(k, item)], none, site.extent⟩ false []) rest).2 = [] := by
          simpa [run, step, start] using h
        simp [run, step, start, hr]
      | continues k => simp [run, step, extend, misplaced] at h
      | otherwise => simp [run, step, extend, misplaced] at h

theorem run_append (context : Context α) (front : List (Sibling α)) {back : List (Sibling α)}
    (h : (build back).2 = []) :
    context.run (front ++ back) = ((context.run front).1 ++ (build back).1, (context.run front).2) := by
  induction front generalizing context with
  | nil => simp [run_of_build h, run]
  | cons s front ih => simp [run, ih]

end Context

/-- Lists are grouped each for itself when the second has no errors. -/
theorem build_append (front : List (Sibling α)) {back : List (Sibling α)}
    (h : (build back).2 = []) :
    build (front ++ back) = ((build front).1 ++ (build back).1, (build front).2) :=
  Context.run_append .idle front h

end Stencil.Chain
