import Stencil.Span
import Stencil.Token

/-!
# Places in order

The tokens of a text come one behind the other, and what is read from them has its place up to
where reading has come.
-/
namespace Stencil

/-- The span is not reversed and ends at `high` or before it. -/
def Span.Within (high : Nat) (s : Span) : Prop :=
  s.start ≤ s.stop ∧ s.stop ≤ high

theorem Span.Within.mono {low high : Nat} {s : Span} (h : s.Within low) (hle : low ≤ high) :
    s.Within high :=
  ⟨h.1, Nat.le_trans h.2 hle⟩

namespace Token

/-- Tokens one behind the other, from offset `low` to `high`. -/
def Ascending (low high : Nat) : List (Located Token) → Prop
  | [] => low ≤ high
  | t :: ts => low ≤ t.span.start ∧ t.span.start < t.span.stop ∧ Ascending t.span.stop high ts

/-- Where the last token ends. -/
def lastStop (low : Nat) (ts : List (Located Token)) : Nat :=
  (ts.getLast?.map (·.span.stop)).getD low

@[simp] theorem lastStop_nil (low : Nat) : lastStop low [] = low := rfl
@[simp] theorem lastStop_cons (low : Nat) (t : Located Token) (ts : List (Located Token)) :
    lastStop low (t :: ts) = lastStop t.span.stop ts := by
  cases h : ts.getLast? <;> simp [lastStop, List.getLast?_cons, h]

theorem Ascending.le {low high : Nat} {ts : List (Located Token)} (h : Ascending low high ts) :
    low ≤ high := by
  induction ts generalizing low with
  | nil => exact h
  | cons t ts ih =>
    have hr := ih h.2.2
    have := h.1
    have := h.2.1
    omega

theorem Ascending.weaken {low low' high : Nat} {ts : List (Located Token)}
    (h : Ascending low high ts) (hle : low' ≤ low) : Ascending low' high ts := by
  cases ts with
  | nil => exact Nat.le_trans hle h
  | cons t ts => exact ⟨Nat.le_trans hle h.1, h.2⟩

theorem Ascending.lastStop_le {low high : Nat} {ts : List (Located Token)}
    (h : Ascending low high ts) : low ≤ lastStop low ts ∧ lastStop low ts ≤ high := by
  induction ts generalizing low with
  | nil => exact ⟨Nat.le_refl _, h⟩
  | cons t ts ih =>
    have hr := ih h.2.2
    have := h.1
    have := h.2.1
    rw [lastStop_cons]
    omega

end Token
end Stencil
