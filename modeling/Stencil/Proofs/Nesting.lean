import Stencil.Nesting
import Stencil.Proofs.Token.Ascending

/-!
# The nesting check

The check refuses a tag from its `<` to its `>`, so the place of a refusal is what it has read of
the tag.
-/
namespace Stencil.Nesting

/-- A start tag is pending from before or begins with this token. -/
theorem pending_step {n n' : Nesting} {t : Located Token} (h : n.step t = .ok n') :
    ∀ opened ∈ n'.pending, opened ∈ n.pending ∨ opened = t.span.start := by
  rw [step] at h
  split at h
  · cases h
    simp
  · split at h <;> cases h
    simp
  · cases h
    simp
  · cases h
    exact fun _ ho => .inl ho
  · cases h
    exact fun _ ho => .inl ho

/-- Only the end of a pending start tag is refused. -/
theorem step_error {n : Nesting} {t : Located Token} {e : SyntaxError}
    (h : n.step t = .error e) :
    ∃ opened ∈ n.pending, e = ⟨⟨opened, t.span.stop⟩, .nestedDeeper limit⟩ := by
  rw [step] at h
  split at h
  · cases h
  · next opened _ hp =>
    split at h
    · cases h
    · cases h
      exact ⟨opened, hp, rfl⟩
  · cases h
  · cases h
  · cases h

/-- The end of a start tag, where an element body begins. -/
theorem step_enters {depth opened : Nat} {span : Span} {n : Nesting}
    (h : step ⟨depth, some opened⟩ ⟨.tagClose, span⟩ = .ok n) :
    depth < limit ∧ n = ⟨depth + 1, none⟩ := by
  by_cases hlt : depth < limit
  · have hstep : step ⟨depth, some opened⟩ ⟨.tagClose, span⟩ = .ok ⟨depth + 1, none⟩ := if_pos hlt
    cases hstep.symm.trans h
    exact ⟨hlt, rfl⟩
  · have hstep : step ⟨depth, some opened⟩ ⟨.tagClose, span⟩ =
        .error ⟨⟨opened, span.stop⟩, .nestedDeeper limit⟩ := if_neg hlt
    cases hstep.symm.trans h

theorem within_of_run_error {n : Nesting} {low high : Nat} {ts : List (Located Token)}
    {e : SyntaxError} (hn : ∀ opened ∈ n.pending, opened ≤ low)
    (hts : Token.Ascending low high ts) (h : n.run ts = .error e) :
    e.span.Within high ∧ e.cause = .nestedDeeper limit := by
  induction ts generalizing n low with
  | nil => cases h
  | cons t ts ih =>
    obtain ⟨hlow, hlt, hts⟩ := hts
    cases hstep : n.step t with
    | error f =>
      obtain ⟨opened, ho, hf⟩ := step_error hstep
      rw [run, hstep] at h
      cases h
      subst hf
      have hle := hn opened ho
      exact ⟨⟨by simp only; omega, hts.le⟩, rfl⟩
    | ok n' =>
      rw [run, hstep] at h
      refine ih ?_ hts h
      intro opened ho
      rcases pending_step hstep opened ho with hp | rfl
      · have hle := hn opened hp
        omega
      · omega

/-- A refusal of the check points into the text. -/
theorem within_of_check {high : Nat} {ts : List (Located Token)} {e : SyntaxError}
    (hts : Token.Ascending 0 high ts) (h : check ts = .error e) :
    e.span.Within high ∧ e.cause = .nestedDeeper limit := by
  cases hr : start.run ts with
  | ok n =>
    rw [check, hr] at h
    cases h
  | error f =>
    rw [check, hr] at h
    cases h
    exact within_of_run_error (by simp [start]) hts hr

theorem run_append (n : Nesting) (ts us : List (Located Token)) :
    n.run (ts ++ us) = (n.run ts).bind (·.run us) := by
  induction ts generalizing n with
  | nil => rfl
  | cons t ts ih =>
    rw [List.cons_append, run, run]
    cases n.step t with
    | error e => rfl
    | ok n' => exact ih n'

/-- The check passes the beginnings of what it passes. -/
theorem run_of_check {ts u : List (Located Token)} (h : check ts = .ok ()) (hu : u <+: ts) :
    ∃ n, start.run u = .ok n := by
  obtain ⟨rest, rfl⟩ := hu
  rw [check, run_append] at h
  cases hn : start.run u with
  | ok n => exact ⟨n, rfl⟩
  | error e =>
    rw [hn] at h
    cases h

end Stencil.Nesting
