import Stencil.Compile
import Stencil.Proofs.Chain.Grouping

/-!
# Rendering without branches

A branch renders its first accepted arm. The same pass can be made over the members of the branch
one after the other, each deciding for itself when its turn comes: all it has to know is whether
its chain has rendered a member. This is what a list of members does here, and it agrees with
rendering the chains that the members came from.
-/
namespace Stencil

variable {σ α : Type}

/-- Asks for a condition, and renders where the answer is accepted. Also says whether it was. -/
def attempt (ask : Evaluator σ) (k : Condition) (render : StateM σ (List Nat)) :
    StateM σ (List Nat × Bool) := do
  let answer ← ask k.expression
  if k.polarity.accepts answer then do
    let ids ← render
    pure (ids, true)
  else pure ([], false)

/-- The turn of a member: an `if` always asks, an `elseif` and an `else` are skipped once the
chain has rendered a member, and what is no member always renders. Says what is rendered and
whether the chain has rendered a member since its `if`. -/
def turn (ask : Evaluator σ) (taken : Bool) (render : StateM σ (List Nat)) :
    Option Conditional → StateM σ (List Nat × Bool)
  | none => do
    let ids ← render
    pure (ids, taken)
  | some (.opens k) => attempt ask k render
  | some (.continues k) => if taken then pure ([], true) else attempt ask k render
  | some .otherwise =>
    if taken then pure ([], true) else do
      let ids ← render
      pure (ids, true)

/-- All members of a list take their turns. -/
def turns (ask : Evaluator σ) (render : α → StateM σ (List Nat)) (taken : Bool) :
    List (Placed α) → StateM σ (List Nat)
  | [] => pure []
  | p :: ps => do
    let (here, taken) ← turn ask taken (render p.item) p.role
    let rest ← turns ask render taken ps
    pure (here ++ rest)

namespace Compiled

variable {ask : Evaluator σ}

/-- What stands behind a chain renders alike, whatever happened in the chain. -/
def Settled (ask : Evaluator σ) (ps : List (Placed Compiled)) (rest : StateM σ (List Nat)) : Prop :=
  ∀ taken, turns ask (render ask) taken ps = rest

/-- Once a member is rendered, the others are passed by without a question. -/
theorem turns_taken (arms : List (Condition × Compiled)) (otherwise : Option Compiled)
    (ps : List (Placed Compiled)) :
    turns ask (render ask) true (Chain.placedArms .continues arms ++
        (otherwise.toList.map (⟨some .otherwise, ·⟩) ++ ps)) =
      turns ask (render ask) true ps := by
  induction arms with
  | nil => cases otherwise <;> simp [Chain.placedArms, turns, turn]
  | cons arm arms ih => simpa [Chain.placedArms, turns, turn] using ih

/-- The arms of a chain that has rendered nothing so far, and then its default. -/
theorem turns_arms {ps : List (Placed Compiled)} {rest : StateM σ (List Nat)}
    (h : Settled ask ps rest) (part : Condition → Conditional)
    (hpart : part = .opens ∨ part = .continues) (arms : List (Condition × Compiled))
    (otherwise : Option Compiled) :
    turns ask (render ask) false (Chain.placedArms part arms ++
        (otherwise.toList.map (⟨some .otherwise, ·⟩) ++ ps)) = (do
      let here ← renderArms ask (renderOption ask otherwise) arms
      let behind ← rest
      pure (here ++ behind)) := by
  induction arms generalizing part with
  | nil =>
    cases otherwise with
    | none => simp [Chain.placedArms, renderArms, renderOption, h false]
    | some n => simp [Chain.placedArms, turns, turn, renderArms, renderOption, h true]
  | cons arm arms ih =>
    obtain ⟨k, n⟩ := arm
    have hturn : turn ask false (n.render ask) (some (part k)) = attempt ask k (n.render ask) := by
      rcases hpart with rfl | rfl <;> rfl
    simp only [Chain.placedArms, List.cons_append, turns, hturn, attempt, renderArms, bind_assoc]
    congr 1
    funext answer
    split
    · simp only [bind_assoc, pure_bind, turns_taken, h true]
    · simpa using ih .continues (.inr rfl)

/-- An `if` starts afresh, so nothing in front of a chain matters to it. -/
theorem turns_chain {ps : List (Placed Compiled)} {rest : StateM σ (List Nat)}
    (h : Settled ask ps rest) {c : Chain Compiled} (hc : c.arms ≠ []) (taken : Bool) :
    turns ask (render ask) taken (c.placed ++ ps) = (do
      let here ← (ofEmitted (.chain c)).render ask
      let behind ← rest
      pure (here ++ behind)) := by
  have hf := turns_arms h .opens (.inl rfl) c.arms c.otherwise
  simp only [ofEmitted, render]
  rw [← hf, Chain.placed, List.append_assoc]
  cases harms : c.arms with
  | nil => exact absurd harms hc
  | cons arm arms => rfl

/-- The chains of a list render as their members do in turn. -/
theorem turns_emitted {es : List (Emitted Compiled)}
    (h : ∀ c, .chain c ∈ es → c.arms ≠ []) :
    Settled ask (es.flatMap Emitted.placed) (renderAll ask (es.map ofEmitted)) := by
  induction es with
  | nil => intro taken; rfl
  | cons e es ih =>
    have hrest := ih fun c hc => h c (by simp [hc])
    intro taken
    cases e with
    | node n => simp [Emitted.placed, turns, turn, renderAll, ofEmitted, hrest taken]
    | chain c => simpa [Emitted.placed, renderAll] using turns_chain hrest (h c (by simp)) taken

end Compiled
end Stencil
