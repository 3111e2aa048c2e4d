import Stencil.Compiled

/-!
One render pass over a compiled tree. An evaluator answers each expression that it is asked for
and may remember what it was asked. Of each branch only the first accepted arm is entered, and no
arm behind it is asked for.
-/
namespace Stencil

/-- Answers expressions, with a state of its own. -/
abbrev Evaluator (σ : Type) := Expression → StateM σ Bool

namespace Compiled

/-- Asks the arms in order up to the first accepted one. -/
def select {σ : Type} (ask : Evaluator σ) (otherwise : Option Compiled) :
    List (Condition × Compiled) → StateM σ (Option Compiled)
  | [] => pure otherwise
  | (condition, subtree) :: arms => do
    let answer ← ask condition.expression
    if condition.polarity.accepts answer then pure (some subtree) else select ask otherwise arms

mutual
/-- The numbers of the nodes that this pass renders, in order. -/
def render {σ : Type} (ask : Evaluator σ) : Compiled → StateM σ (List Nat)
  | element id _ _ _ children _ => do
    let below ← renderAll ask children
    pure (id :: below)
  | text id _ _ => pure [id]
  | comment id _ _ => pure [id]
  | branch arms otherwise _ => renderArms ask (renderOption ask otherwise) arms

def renderAll {σ : Type} (ask : Evaluator σ) : List Compiled → StateM σ (List Nat)
  | [] => pure []
  | n :: ns => do
    let first ← n.render ask
    let rest ← renderAll ask ns
    pure (first ++ rest)

/-- The first accepted arm of a branch, or else what `otherwise` renders. -/
def renderArms {σ : Type} (ask : Evaluator σ) (otherwise : StateM σ (List Nat)) :
    List (Condition × Compiled) → StateM σ (List Nat)
  | [] => otherwise
  | (condition, subtree) :: arms => do
    let answer ← ask condition.expression
    if condition.polarity.accepts answer then subtree.render ask
    else renderArms ask otherwise arms

def renderOption {σ : Type} (ask : Evaluator σ) : Option Compiled → StateM σ (List Nat)
  | none => pure []
  | some n => n.render ask
end

/-- A branch renders the subtree that `select` picks. -/
theorem select_bind_renderOption {σ : Type} (ask : Evaluator σ) (otherwise : Option Compiled)
    (arms : List (Condition × Compiled)) :
    (select ask otherwise arms >>= renderOption ask) =
      renderArms ask (renderOption ask otherwise) arms := by
  induction arms with
  | nil => simp [select, renderArms]
  | cons arm arms ih =>
    simp only [select, renderArms, bind_assoc]
    congr
    funext answer
    split
    · simp [renderOption]
    · exact ih

end Compiled
end Stencil
