import Mathlib.Data.List.Induction
import Stencil.Component

/-!
# The life of a component

A run is any list of actions on one component: completed passes over shared templates,
disconnections, reads, attempts to write, and passes that are only looked at. What a component holds
after a run is decided by the last completed pass alone, unless a disconnection follows it. The
invariant behind this is that the active template is one of the shared ones: only then does a
template that stays active, because the same one was rendered again, have the content of the pass.
-/
namespace Stencil

/-- The template at a place of a store. An equal template at another place is another template. -/
def SharedTemplate.stored (store : Nat → CompiledTemplate) (key : Nat) : SharedTemplate :=
  ⟨key, store key⟩

namespace Component
variable {η σ : Type}

/-- What can be done with a component. Templates are named by their places in a store. -/
inductive Action (η σ : Type) where
  | complete (key : Nat) (reports : List (Rendered η))
  | disconnect
  | lookUp (name : String)
  | list
  | write (name : String) (handle : η)
  | remove (name : String)
  /-- A pass that is not reported. -/
  | preview (key : Nat) (ask : Evaluator σ) (memory : σ)

/-- What an action answers. -/
inductive Reply (η : Type) where
  | done
  | found (rendered : Option (Rendered η))
  | listed (handles : List (String × η))
  | refused (refusal : Binding.ReadOnly)
  | previewed (ids : List Nat)

/-- Takes over what an attempt to write gives, if it gives anything. -/
def attempt (c : Component η) : Except Binding.ReadOnly (Binding η) → Component η × Reply η
  | .ok refs => (⟨c.active, refs⟩, .done)
  | .error refusal => (c, .refused refusal)

/-- The component after an action, and the answer. -/
def act (store : Nat → CompiledTemplate) (c : Component η) :
    Action η σ → Component η × Reply η
  | .complete key reports => (c.complete (.stored store key) reports, .done)
  | .disconnect => (c.disconnect, .done)
  | .lookUp name => (c, .found (c.refs.get? name))
  | .list => (c, .listed c.refs.handles)
  | .write name handle => c.attempt (c.refs.write name handle)
  | .remove name => c.attempt (c.refs.remove name)
  | .preview key ask memory => (c, .previewed (((store key).render ask).run memory).1)

/-- A new component after some actions. -/
def after (store : Nat → CompiledTemplate) (actions : List (Action η σ)) : Component η :=
  actions.foldl (fun c a => (c.act store a).1) new

variable {store : Nat → CompiledTemplate} {actions : List (Action η σ)} {a : Action η σ}

theorem after_concat : after store (actions ++ [a]) = ((after store actions).act store a).1 := by
  simp [after]

/-! ## One action -/

/-- Completes a pass or disconnects. -/
def Action.resets : Action η σ → Bool
  | complete .. | disconnect => true
  | lookUp _ | list | write .. | remove _ | preview .. => false

theorem Action.eq_of_resets (h : a.resets = true) :
    a = .disconnect ∨ ∃ key reports, a = .complete key reports := by
  cases a with
  | complete key reports => exact .inr ⟨key, reports, rfl⟩
  | disconnect => exact .inl rfl
  | lookUp name => cases h
  | list => cases h
  | write name handle => cases h
  | remove name => cases h
  | preview key ask memory => cases h

/-- Reads, previews and attempts to write change nothing, since every attempt is refused. -/
theorem act_of_not_resets (c : Component η) (h : a.resets = false) : (c.act store a).1 = c := by
  cases a with
  | complete key reports => cases h
  | disconnect => cases h
  | lookUp name => rfl
  | list => rfl
  | write name handle => rfl
  | remove name => rfl
  | preview key ask memory => rfl

/-- The active template is the stored one of its place. -/
def Coherent (store : Nat → CompiledTemplate) (c : Component η) : Prop :=
  ∀ t ∈ c.active, t = .stored store t.key

/-- Whether the template is swapped or stays, it is that of the pass. -/
theorem Coherent.complete {c : Component η} (h : c.Coherent store) (key : Nat)
    (reports : List (Rendered η)) :
    c.complete (.stored store key) reports =
      ⟨some (.stored store key), Binding.ofPass (store key) reports⟩ := by
  obtain ⟨active, refs⟩ := c
  cases active with
  | none => rfl
  | some t =>
    by_cases hkey : t.key = key
    · have ht : t = .stored store key := hkey ▸ h t rfl
      simp [Component.complete, ht, SharedTemplate.stored]
    · simp [Component.complete, hkey, SharedTemplate.stored]

theorem Coherent.act {c : Component η} (h : c.Coherent store) (a : Action η σ) :
    (c.act store a).1.Coherent store := by
  cases hr : a.resets with
  | false => rwa [act_of_not_resets c hr]
  | true =>
    intro t ht
    rcases Action.eq_of_resets hr with rfl | ⟨key, reports, rfl⟩
    · cases ht
    · rw [Component.act, h.complete key reports] at ht
      obtain rfl := Option.some.inj ht
      rfl

/-! ## Runs -/

theorem coherent_after (store : Nat → CompiledTemplate) (actions : List (Action η σ)) :
    (after store actions).Coherent store := by
  induction actions using List.reverseRecOn with
  | nil =>
    intro t ht
    cases ht
  | append_singleton actions a ih =>
    rw [after_concat]
    exact ih.act a

/-- The pass was completed, and behind it no other pass was and nothing was disconnected. -/
def LastPass (actions : List (Action η σ)) (key : Nat) (reports : List (Rendered η)) : Prop :=
  ∃ before behind, actions = before ++ .complete key reports :: behind ∧
    ∀ a ∈ behind, a.resets = false

theorem lastPass_concat {key : Nat} {reports : List (Rendered η)} :
    LastPass (actions ++ [a]) key reports ↔
      a = .complete key reports ∨ a.resets = false ∧ LastPass actions key reports := by
  constructor
  · rintro ⟨before, behind, heq, hquiet⟩
    rcases List.eq_nil_or_concat behind with rfl | ⟨behind, last, rfl⟩
    · exact .inl (by simpa using (List.append_inj' heq rfl).2)
    · rw [List.concat_eq_append, List.forall_mem_append, List.forall_mem_singleton] at hquiet
      rw [List.concat_eq_append, ← List.cons_append, ← List.append_assoc] at heq
      obtain ⟨hactions, ha⟩ := List.append_inj' heq rfl
      obtain rfl := List.singleton_inj.mp ha
      exact .inr ⟨hquiet.2, before, behind, hactions, hquiet.1⟩
  · rintro (rfl | ⟨hquiet, before, behind, rfl, hbehind⟩)
    · exact ⟨actions, [], rfl, by simp⟩
    · refine ⟨before, behind ++ [a], by simp, ?_⟩
      rw [List.forall_mem_append, List.forall_mem_singleton]
      exact ⟨hbehind, hquiet⟩

theorem not_lastPass_nil {key : Nat} {reports : List (Rendered η)} :
    ¬LastPass ([] : List (Action η σ)) key reports := by
  rintro ⟨before, behind, heq, -⟩
  simp at heq

/-- After any run, and so after each of its actions, a component has the template of the last
completed pass, this one and not an equal one, and the refs that this pass made live. Where no pass
was completed since the start or the last disconnection, it has neither. -/
theorem after_determined (store : Nat → CompiledTemplate) (actions : List (Action η σ)) :
    (∀ key reports, LastPass actions key reports →
        (after store actions).active = some (.stored store key) ∧
          (after store actions).refs = Binding.ofPass (store key) reports) ∧
      ((∀ key reports, ¬LastPass actions key reports) →
        (after store actions).active = none ∧
          (after store actions).refs = SortedMap.empty) := by
  induction actions using List.reverseRecOn with
  | nil =>
    refine ⟨fun key reports h => absurd h not_lastPass_nil, fun _ => ⟨rfl, rfl⟩⟩
  | append_singleton actions a ih =>
    simp only [lastPass_concat, after_concat]
    cases hr : a.resets with
    | false =>
      -- Such an action completes no pass itself.
      have ha (key : Nat) (reports : List (Rendered η)) : a ≠ .complete key reports := by
        rintro rfl
        cases hr
      simpa [act_of_not_resets _ hr, ha] using ih
    | true =>
      rcases Action.eq_of_resets hr with rfl | ⟨key, reports, rfl⟩
      · refine ⟨?_, fun _ => ⟨rfl, rfl⟩⟩
        rintro key reports (heq | ⟨hquiet, -⟩)
        · cases heq
        · cases hquiet
      · have hcomplete := (coherent_after store actions).complete key reports
        refine ⟨?_, fun hnone => absurd (.inl rfl) (hnone key reports)⟩
        rintro key' reports' (heq | ⟨hquiet, -⟩)
        · cases heq
          rw [act, hcomplete]
          exact ⟨rfl, rfl⟩
        · cases hquiet

/-- Two equal templates, each an element with a ref. -/
def pair (_key : Nat) : CompiledTemplate :=
  ⟨[.element 0 "p" [] (some "a") [] ⟨0, 0⟩]⟩

/-- A pass over the first of the pair, refused writes, a preview of the first, then a pass over the
second, and behind it what changes nothing. -/
def swap : List (Action String Unit) :=
  [.complete 0 [⟨0, "h"⟩], .write "a" "i", .preview 0 (fun _ => pure true) (),
    .complete 1 [⟨0, "j"⟩], .remove "a", .write "b" "k", .preview 0 (fun _ => pure true) (),
    .lookUp "a"]

/-- The second of the pair is active, although the first equals it and was looked at later. A
disconnection behind this leaves nothing. -/
theorem after_determined_swap :
    LastPass swap 1 [⟨0, "j"⟩] ∧ (after pair swap).active = some ⟨1, pair 0⟩ ∧
      (after pair swap).refs = Binding.ofPass (pair 0) [⟨0, "j"⟩] ∧
      (after pair (swap ++ [.disconnect, .list])).active = none := by
  have hlast : LastPass swap 1 [⟨0, "j"⟩] :=
    ⟨swap.take 3, swap.drop 4, rfl, by simp [swap, Action.resets]⟩
  obtain ⟨hactive, hrefs⟩ := (after_determined pair swap).1 1 _ hlast
  have hnone : ∀ key reports, ¬LastPass (swap ++ [.disconnect, .list]) key reports := by
    intro key reports
    have hsplit : swap ++ [.disconnect, .list] = (swap ++ [.disconnect]) ++ [.list] := rfl
    rw [hsplit, lastPass_concat, lastPass_concat]
    simp [Action.resets]
  exact ⟨hlast, hactive, hrefs, ((after_determined pair _).2 hnone).1⟩

end Component
end Stencil
