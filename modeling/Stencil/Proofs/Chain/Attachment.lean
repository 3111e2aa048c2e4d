import Stencil.Proofs.Chain.Placement

/-!
# The nearest `if` decides

What an `elseif` or `else` is to its sibling list can be told from places alone: from the last `if`
before it, and from the first content or `else` between the two. A run of the grouping goes by its
context instead. At each place the two agree on what an `elseif` or `else` would be there, since one
sibling moves the context as it moves the rule. So the errors of a list are those that the rule
gives, and gaps have no part in it.
-/
namespace Stencil

variable {α : Type}

/-- What the siblings before an `elseif` or `else` attach it to. -/
inductive Attachment where
  /-- It belongs to the chain that the `if` at this place opens. -/
  | joins (opening : Nat)
  | orphaned
  | notAdjacent
  deriving DecidableEq, Repr

namespace Attachment

def cause? : Attachment → Option (String → CompileError.Cause)
  | joins _ => none
  | orphaned => some .orphaned
  | notAdjacent => some .notAdjacent

/-- The attachment once a chain can be continued no longer, for a reason. -/
def cut (v reason : Attachment) : Attachment :=
  match v with
  | joins _ => reason
  | orphaned => orphaned
  | notAdjacent => notAdjacent

/-- The attachment behind a sibling at place `i`, given the one before it. -/
def behind (i : Nat) (v : Attachment) : Sibling α → Attachment
  | .content _ => v.cut .notAdjacent
  | .gap _ | .conditional (.continues _) .. => v
  | .conditional (.opens _) .. => .joins i
  | .conditional .otherwise .. => v.cut .orphaned

theorem cut_ne {v reason : Attachment} {j : Nat} (h : reason ≠ joins j) :
    v.cut reason ≠ joins j := by
  cases v with
  | joins k => exact h
  | orphaned => simp [cut]
  | notAdjacent => simp [cut]

end Attachment

namespace Sibling

def isIf : Sibling α → Bool
  | conditional (.opens _) .. => true
  | content _ | gap _ | conditional (.continues _) .. | conditional .otherwise .. => false

def isElse : Sibling α → Bool
  | conditional .otherwise .. => true
  | content _ | gap _ | conditional (.opens _) .. | conditional (.continues _) .. => false

/-- Content, or an `else`. -/
def isBarrier : Sibling α → Bool
  | content _ | conditional .otherwise .. => true
  | gap _ | conditional (.opens _) .. | conditional (.continues _) .. => false

/-- The last place before `i` that holds an `if`. -/
def nearestIf? (siblings : List (Sibling α)) (i : Nat) : Option Nat :=
  (List.range i).reverse.find? fun j => siblings[j]?.any isIf

/-- The first place strictly between `j` and `i` that holds content or an `else`. -/
def barrier? (siblings : List (Sibling α)) (j i : Nat) : Option Nat :=
  (List.range i).find? fun k => j < k && siblings[k]?.any isBarrier

/-- What an `elseif` or `else` at place `i` is, by the places before it. -/
def attachment (siblings : List (Sibling α)) (i : Nat) : Attachment :=
  match nearestIf? siblings i with
  | none => .orphaned
  | some j =>
    match barrier? siblings j i with
    | none => .joins j
    | some k => if siblings[k]?.any isElse then .orphaned else .notAdjacent

/-- The error of a sibling, given what an `elseif` or `else` is at its place. -/
def errorUnder (v : Attachment) : Sibling α → Option CompileError
  | conditional c site _ => if c.isLater then v.cause?.map site.error else none
  | content _ | gap _ => none

/-! ## The rule, place by place -/

variable (siblings : List (Sibling α))

theorem nearestIf?_succ (i : Nat) :
    nearestIf? siblings (i + 1) =
      if siblings[i]?.any isIf then some i else nearestIf? siblings i := by
  rw [nearestIf?, List.range_succ, List.reverse_append, List.reverse_singleton,
    List.singleton_append, List.find?_cons]
  cases siblings[i]?.any isIf <;> rfl

theorem barrier?_succ (j i : Nat) :
    barrier? siblings j (i + 1) =
      (barrier? siblings j i).or
        (if j < i ∧ siblings[i]?.any isBarrier then some i else none) := by
  rw [barrier?, List.range_succ, List.find?_append, List.find?_singleton, ← barrier?]
  simp

theorem lt_of_nearestIf? {i j : Nat} (h : nearestIf? siblings i = some j) : j < i := by
  have hmem := List.mem_of_find?_eq_some h
  simpa using hmem

theorem barrier?_self (i : Nat) : barrier? siblings i (i + 1) = none := by
  rw [barrier?, List.find?_eq_none]
  intro k hk
  have hle : ¬i < k := by simpa [Nat.lt_succ_iff] using hk
  simp [hle]

variable {siblings}

theorem attachment_behind_if {i : Nat} {s : Sibling α} (h : siblings[i]? = some s)
    (hs : s.isIf = true) : attachment siblings (i + 1) = .joins i := by
  simp [attachment, nearestIf?_succ, h, hs, barrier?_self]

/-- What is not an `if` leaves the nearest one, and only the first barrier behind it counts. -/
theorem attachment_behind {i : Nat} {s : Sibling α} (h : siblings[i]? = some s)
    (hs : s.isIf = false) :
    attachment siblings (i + 1) =
      if s.isBarrier then
        (attachment siblings i).cut (if s.isElse then .orphaned else .notAdjacent)
      else attachment siblings i := by
  have hnearest : nearestIf? siblings (i + 1) = nearestIf? siblings i := by
    simp [nearestIf?_succ, h, hs]
  rw [attachment, attachment, hnearest]
  cases hj : nearestIf? siblings i with
  | none => simp [Attachment.cut]
  | some j =>
    have hlt := lt_of_nearestIf? siblings hj
    simp only [barrier?_succ, hlt, h, Option.any_some, true_and]
    cases hk : barrier? siblings j i with
    | none => cases hb : s.isBarrier <;> simp [h, Attachment.cut]
    | some k => cases hk : siblings[k]?.any isElse <;> simp [hk, Attachment.cut]

theorem attachment_succ {i : Nat} {s : Sibling α} (h : siblings[i]? = some s) :
    attachment siblings (i + 1) = (attachment siblings i).behind i s := by
  cases s with
  | content item => exact attachment_behind h rfl
  | gap item => exact attachment_behind h rfl
  | conditional c site item =>
    cases c with
    | opens k => exact attachment_behind_if h rfl
    | continues k => exact attachment_behind h rfl
    | otherwise => exact attachment_behind h rfl

theorem attachment_succ_of_none {i : Nat} (h : siblings[i]? = none) :
    attachment siblings (i + 1) = attachment siblings i := by
  simp [attachment, nearestIf?_succ, barrier?_succ, h]

theorem isIf_of_attachment {i j : Nat} (h : attachment siblings i = .joins j) :
    j < i ∧ siblings[j]?.any isIf = true := by
  rw [attachment] at h
  cases hj : nearestIf? siblings i with
  | none =>
    rw [hj] at h
    cases h
  | some k =>
    have hk : k = j := by
      simp only [hj] at h
      split at h
      · exact Attachment.joins.inj h
      · split at h <;> cases h
    subst hk
    have hif := List.find?_some hj
    exact ⟨lt_of_nearestIf? siblings hj, hif⟩

/-- A chain that can be continued behind a place begins there or could be continued before it. -/
theorem attachment_of_succ {i j : Nat} (h : attachment siblings (i + 1) = .joins j) (hne : j ≠ i) :
    attachment siblings i = .joins j := by
  cases hs : siblings[i]? with
  | none => rwa [attachment_succ_of_none hs] at h
  | some s =>
    rw [attachment_succ hs] at h
    cases s with
    | content item => exact absurd h (Attachment.cut_ne (by simp))
    | gap item => exact h
    | conditional c site item =>
      cases c with
      | opens k => exact absurd (Attachment.joins.inj h).symm hne
      | continues k => exact h
      | otherwise => exact absurd h (Attachment.cut_ne (by simp))

/-- A chain that can be continued can be continued from all places back to its `if`. -/
theorem attachment_of_le {i j k : Nat} (h : attachment siblings k = .joins j) (hj : j < i)
    (hk : i ≤ k) : attachment siblings i = .joins j := by
  induction hk with
  | refl => exact h
  | @step k hk ih =>
    have hle : i ≤ k := hk
    exact ih (attachment_of_succ h (by omega))

end Sibling

/-! ## The run follows the rule -/

namespace Attachment

theorem cause?_cut (v : Attachment) (reason : Attachment) :
    (v.cut reason).cause? = v.cause?.or reason.cause? := by
  cases v <;> rfl

/-- Whether an attachment is an error, and which, does not hang on places. -/
theorem cause?_behind (i : Nat) (v : Attachment) (s : Sibling α) :
    (v.behind i s).cause? =
      match s with
      | .content _ => v.cause?.or (some .notAdjacent)
      | .gap _ | .conditional (.continues _) .. => v.cause?
      | .conditional (.opens _) .. => none
      | .conditional .otherwise .. => v.cause?.or (some .orphaned) := by
  cases s with
  | content item => exact cause?_cut v .notAdjacent
  | gap item => rfl
  | conditional c site item =>
    cases c with
    | opens k => rfl
    | continues k => rfl
    | otherwise => exact cause?_cut v .orphaned

end Attachment

namespace Chain.Context

theorem error_step_eq {context : Context α} {v : Attachment} (h : context.cause? = v.cause?)
    (s : Sibling α) : (context.step s).error = s.errorUnder v := by
  cases s with
  | content item => rfl
  | gap item => exact error_gap context item
  | conditional c site item =>
    cases c with
    | opens k => rfl
    | continues k => exact (error_extend_eq context (some k) site item).trans (by rw [h]; rfl)
    | otherwise => exact (error_extend_eq context none site item).trans (by rw [h]; rfl)

theorem cause?_close (context : Context α) :
    context.close.cause? = context.cause?.or (some .notAdjacent) := by
  cases context with
  | idle => rfl
  | closed terminated => cases terminated <;> rfl
  | opened chain terminated gaps => cases terminated <;> rfl

/-- A member that is an error closes what is open, which is no chain that could be continued. -/
theorem cause?_extend (context : Context α) (condition : Option Condition) (site : Site)
    (item : α) :
    (context.extend condition site item).context.cause? =
      context.cause?.or (if condition.isSome then none else some .orphaned) := by
  cases context with
  | idle => cases condition <;> rfl
  | closed terminated => cases terminated <;> cases condition <;> rfl
  | opened chain terminated gaps => cases terminated <;> cases condition <;> rfl

theorem cause?_gap (context : Context α) (item : Option α) :
    (context.gap item).context.cause? = context.cause? := by
  cases context with
  | idle => cases item <;> rfl
  | closed terminated => cases item <;> rfl
  | opened chain terminated gaps => cases terminated <;> cases item <;> rfl

/-- One sibling moves the context as it moves the rule. -/
theorem cause?_step {context : Context α} {v : Attachment} (h : context.cause? = v.cause?)
    (i : Nat) (s : Sibling α) :
    (context.step s).context.cause? = (v.behind i s).cause? := by
  rw [Attachment.cause?_behind, ← h]
  cases s with
  | content item => exact cause?_close context
  | gap item => exact cause?_gap context item
  | conditional c site item =>
    cases c with
    | opens k => rfl
    | continues k => simpa [step] using cause?_extend context (some k) site item
    | otherwise => exact cause?_extend context none site item

/-- Behind some siblings, the errors of the rest are those of the rule. -/
theorem errors_run {siblings : List (Sibling α)} {context : Context α}
    (front back : List (Sibling α)) (hs : siblings = front ++ back)
    (h : context.cause? = (Sibling.attachment siblings front.length).cause?) :
    (context.run back).2 =
      (back.zipIdx front.length).filterMap fun (s, i) =>
        s.errorUnder (Sibling.attachment siblings i) := by
  induction back generalizing front context with
  | nil => rfl
  | cons s back ih =>
    have hget : siblings[front.length]? = some s := by simp [hs]
    have hstep := cause?_step h front.length s
    rw [← Sibling.attachment_succ hget] at hstep
    have hrest := ih (front ++ [s]) (by simp [hs]) (by simpa using hstep)
    rw [List.length_append, List.length_singleton] at hrest
    rw [run, error_step_eq h, hrest, List.zipIdx_cons]
    cases he : s.errorUnder (Sibling.attachment siblings front.length) <;> simp [he]

end Chain.Context

/-- The errors of a sibling list are those of its `elseif`s and `else`s that the rule makes errors,
in order. -/
theorem Chain.errors_build (siblings : List (Sibling α)) :
    (build siblings).2 =
      siblings.zipIdx.filterMap fun (s, i) => s.errorUnder (Sibling.attachment siblings i) :=
  Context.errors_run [] siblings rfl rfl

end Stencil
