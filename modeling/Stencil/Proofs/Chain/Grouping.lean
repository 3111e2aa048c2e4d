import Stencil.Chain

/-!
# What grouping does to a sibling list

The output of grouping is laid out again as one list: a chain stands for its members, each with
the part that it takes. That list is the sibling list less what is invisible and less the gaps
between the members of a chain. The invariant of a run is that what is emitted so far and what is
still held back are, together, the siblings seen so far.
-/
namespace Stencil

/-- An item with the part that it takes in a chain, if any. -/
structure Placed (α : Type) where
  role : Option Conditional
  item : α
  deriving DecidableEq, Repr

/-- The part is one that needs a chain to continue. -/
def Conditional.isLater : Conditional → Bool
  | opens _ => false
  | continues _ | otherwise => true

variable {α : Type}

namespace Sibling

def isGap : Sibling α → Bool
  | gap _ => true
  | content _ | conditional .. => false

def isLater : Sibling α → Bool
  | conditional c _ _ => c.isLater
  | content _ | gap _ => false

/-- Behind the gaps comes a sibling that needs a chain to continue. -/
def laterNext (siblings : List (Sibling α)) : Bool :=
  (siblings.find? (!·.isGap)).any isLater

@[simp] theorem laterNext_nil : laterNext ([] : List (Sibling α)) = false := rfl
@[simp] theorem laterNext_content (item : α) (rest : List (Sibling α)) :
    laterNext (.content item :: rest) = false := rfl
@[simp] theorem laterNext_gap (item : Option α) (rest : List (Sibling α)) :
    laterNext (.gap item :: rest) = laterNext rest := rfl
@[simp] theorem laterNext_conditional (c : Conditional) (site : Site) (item : α)
    (rest : List (Sibling α)) : laterNext (.conditional c site item :: rest) = c.isLater := rfl

/-- What a sibling leaves by its role alone; a gap is left out when `joined`. -/
def place (joined : Bool) : Sibling α → List (Placed α)
  | content item => [⟨none, item⟩]
  | gap item => if joined then [] else item.toList.map (⟨none, ·⟩)
  | conditional c _ item => [⟨some c, item⟩]

/-- What a sibling list leaves when every conditional finds its chain. -/
def placedAll : List (Sibling α) → List (Placed α)
  | [] => []
  | s :: rest => s.place (laterNext rest) ++ placedAll rest

end Sibling

namespace Chain

/-- Arms as members. All but the first continue the chain. -/
def placedArms (part : Condition → Conditional) : List (Condition × α) → List (Placed α)
  | [] => []
  | (k, item) :: arms => ⟨some (part k), item⟩ :: placedArms .continues arms

/-- The members of a chain in order. -/
def placed (c : Chain α) : List (Placed α) :=
  placedArms .opens c.arms ++ c.otherwise.toList.map (⟨some .otherwise, ·⟩)

theorem placedArms_concat (part : Condition → Conditional) (arms : List (Condition × α))
    (k : Condition) (item : α) (h : arms ≠ []) :
    placedArms part (arms ++ [(k, item)]) =
      placedArms part arms ++ [⟨some (.continues k), item⟩] := by
  induction arms generalizing part with
  | nil => exact absurd rfl h
  | cons arm arms ih =>
    cases arms with
    | nil => rfl
    | cons next arms => simpa [placedArms] using ih .continues (by simp)

end Chain

def Emitted.placed : Emitted α → List (Placed α)
  | node item => [⟨none, item⟩]
  | chain c => c.placed

/-- The members of a chain take a part in it. -/
theorem Chain.role_of_placed {c : Chain α} {p : Placed α} (h : p ∈ c.placed) :
    p.role.isSome = true := by
  have ha : ∀ (part : Condition → Conditional) (arms : List (Condition × α)),
      p ∈ placedArms part arms → p.role.isSome = true := by
    intro part arms hp
    induction arms generalizing part with
    | nil => cases hp
    | cons arm arms ih =>
      rcases List.mem_cons.mp hp with rfl | hp
      · rfl
      · exact ih .continues hp
  rcases List.mem_append.mp h with h | h
  · exact ha .opens c.arms h
  · obtain ⟨item, -, rfl⟩ := List.mem_map.mp h
    rfl

@[simp] theorem flatMap_placed_nodes (items : List α) :
    (items.map Emitted.node).flatMap Emitted.placed = items.map (⟨none, ·⟩) := by
  induction items with
  | nil => rfl
  | cons item items ih => simp [Emitted.placed, ih]

namespace Chain.Context

/-- An open chain has an `if`, and it has an `else` only when it is terminated. -/
def Sound : Context α → Prop
  | opened chain terminated _ => chain.arms ≠ [] ∧ (terminated = false → chain.otherwise = none)
  | idle | closed _ => True

/-- A chain is open that a later member can continue. -/
def accepts : Context α → Bool
  | opened _ terminated _ => !terminated
  | idle | closed _ => false

/-- What is held back: the open chain, and the gaps behind it unless a member absorbs them. -/
def pending (joined : Bool) : Context α → List (Placed α)
  | opened chain terminated gaps =>
    chain.placed ++ if !terminated && joined then [] else gaps.map (⟨none, ·⟩)
  | idle | closed _ => []

/-- What a sibling leaves: a later member without a chain stands by itself, and a gap vanishes
only inside a chain. -/
def place (context : Context α) (joined : Bool) : Sibling α → List (Placed α)
  | .content item => [⟨none, item⟩]
  | .gap item => if context.accepts && joined then [] else item.toList.map (⟨none, ·⟩)
  | .conditional c _ item => [⟨if c.isLater && !context.accepts then none else some c, item⟩]

def placed (context : Context α) : List (Sibling α) → List (Placed α)
  | [] => []
  | s :: rest => context.place (Sibling.laterNext rest) s ++ (context.step s).context.placed rest

theorem sound_idle : (idle : Context α).Sound := trivial

@[simp] theorem sound_close (context : Context α) : context.close.Sound := by
  cases context <;> trivial

theorem sound_step {context : Context α} (h : context.Sound) (s : Sibling α) :
    (context.step s).context.Sound := by
  cases s with
  | content item => exact sound_close context
  | gap item => cases context <;> cases item <;> exact h
  | conditional c site item =>
    cases c with
    | opens k => exact ⟨by simp, fun _ => rfl⟩
    | continues k =>
      cases context with
      | opened chain terminated gaps =>
        cases terminated with
        | true => trivial
        | false => exact ⟨by simp, h.2⟩
      | idle => trivial
      | closed terminated => cases terminated <;> trivial
    | otherwise =>
      cases context with
      | opened chain terminated gaps =>
        cases terminated with
        | true => trivial
        | false => exact ⟨h.1, by simp⟩
      | idle => trivial
      | closed terminated => cases terminated <;> trivial

/-- Closing lets go of all that is held back. -/
theorem placed_release (context : Context α) (joined : Bool)
    (h : (context.accepts && joined) = false) :
    context.release.flatMap Emitted.placed = context.pending joined := by
  cases context with
  | idle => rfl
  | closed terminated => rfl
  | opened chain terminated gaps =>
    have hj : (!terminated && joined) = false := h
    simp [release, pending, hj, Emitted.placed]

@[simp] theorem pending_close (context : Context α) (joined : Bool) :
    context.close.pending joined = [] := by
  cases context <;> rfl

/-- A member without a chain closes what is open and stands by itself. -/
theorem placed_misplaced (context : Context α) (cause : String → CompileError.Cause) (site : Site)
    (item : α) (joined : Bool) (h : context.accepts = false) :
    (context.misplaced cause site item).output.flatMap Emitted.placed ++
        (context.misplaced cause site item).context.pending joined =
      context.pending true ++ [⟨none, item⟩] := by
  have hr := placed_release context true (by simp [h])
  simp [misplaced, hr, Emitted.placed]

/-- An `elseif` or `else` joins the open chain, whose last gaps vanish, or stands by itself. -/
theorem placed_extend {context : Context α} (hs : context.Sound) (condition : Option Condition)
    (site : Site) (item : α) (joined : Bool) :
    (context.extend condition site item).output.flatMap Emitted.placed ++
        (context.extend condition site item).context.pending joined =
      context.pending true ++
        [⟨if context.accepts then some (condition.elim .otherwise .continues) else none, item⟩] := by
  cases context with
  | idle => exact placed_misplaced idle .orphaned site item joined rfl
  | closed terminated =>
    cases terminated with
    | false => exact placed_misplaced (closed false) .notAdjacent site item joined rfl
    | true => exact placed_misplaced (closed true) .orphaned site item joined rfl
  | opened chain terminated gaps =>
    cases terminated with
    | true => exact placed_misplaced (opened chain true gaps) .orphaned site item joined rfl
    | false =>
      have ho : chain.otherwise = none := hs.2 rfl
      cases condition with
      | none => simp [extend, pending, accepts, Chain.placed, ho]
      | some k =>
        have ha := placedArms_concat .opens chain.arms k item hs.1
        simp [extend, pending, accepts, Chain.placed, ho, ha]

/-- One sibling: what it lets go and what is held back behind it are what was held back before
it and what it leaves itself. -/
theorem placed_step {context : Context α} (hs : context.Sound) (s : Sibling α)
    (rest : List (Sibling α)) :
    (context.step s).output.flatMap Emitted.placed ++
        (context.step s).context.pending (Sibling.laterNext rest) =
      context.pending (Sibling.laterNext (s :: rest)) ++
        context.place (Sibling.laterNext rest) s := by
  cases s with
  | content item =>
    have hr := placed_release context false (by simp)
    simp [step, content, place, hr, Emitted.placed]
  | gap item =>
    cases item with
    | none => cases context <;> simp [step, gap, place]
    | some item =>
      cases context with
      | idle => simp [step, gap, place, pending, accepts, Emitted.placed]
      | closed terminated => simp [step, gap, place, pending, accepts, Emitted.placed]
      | opened chain terminated gaps =>
        cases h : !terminated && Sibling.laterNext rest <;>
          simp [step, gap, place, pending, accepts, h]
  | conditional c site item =>
    cases c with
    | opens k =>
      have hr := placed_release context false (by simp)
      simp [step, start, place, pending, hr, Conditional.isLater, Chain.placed, placedArms]
    | continues k =>
      have he := placed_extend hs (some k) site item (Sibling.laterNext rest)
      simp only [step, he, Sibling.laterNext_conditional, place]
      cases context.accepts <;> rfl
    | otherwise =>
      have he := placed_extend hs none site item (Sibling.laterNext rest)
      simp only [step, he, Sibling.laterNext_conditional, place]
      cases context.accepts <;> rfl

/-- A whole run neither loses nor repeats nor moves an item, also where members are misplaced. -/
theorem placed_run {context : Context α} (hs : context.Sound) (siblings : List (Sibling α)) :
    (context.run siblings).1.flatMap Emitted.placed =
      context.pending (Sibling.laterNext siblings) ++ context.placed siblings := by
  induction siblings generalizing context with
  | nil =>
    have hr := placed_release context false (by simp)
    simp [run, placed, hr]
  | cons s rest ih =>
    have hstep := placed_step hs s rest
    simp only [run, List.flatMap_append, ih (sound_step hs s), placed]
    rw [← List.append_assoc, hstep, List.append_assoc]

/-- A misplaced member is an error, so without one there is a chain to continue. -/
theorem accepts_of_extend {context : Context α} {condition : Option Condition} {site : Site}
    {item : α} (h : (context.extend condition site item).error = none) :
    context.accepts = true := by
  cases context with
  | idle => cases h
  | closed terminated => cases terminated <;> cases h
  | opened chain terminated gaps =>
    cases terminated with
    | false => rfl
    | true => cases h

theorem accepts_of_error_none {context : Context α} {c : Conditional} {site : Site} {item : α}
    (hc : c.isLater = true) (h : (context.step (.conditional c site item)).error = none) :
    context.accepts = true := by
  cases c with
  | opens k => cases hc
  | continues k => exact accepts_of_extend h
  | otherwise => exact accepts_of_extend h

/-- Gaps change nothing about whether a chain is open. -/
theorem accepts_gap (context : Context α) (item : Option α) :
    (context.step (.gap item)).context.accepts = context.accepts := by
  cases context <;> cases item <;> rfl

theorem accepts_of_laterNext {context : Context α} {siblings : List (Sibling α)}
    (h : (context.run siblings).2 = []) (hl : Sibling.laterNext siblings = true) :
    context.accepts = true := by
  induction siblings generalizing context with
  | nil => cases hl
  | cons s rest ih =>
    simp only [run, List.append_eq_nil_iff, Option.toList_eq_nil_iff] at h
    cases s with
    | content item => cases hl
    | gap item => exact accepts_gap context item ▸ ih h.2 hl
    | conditional c site item => exact accepts_of_error_none hl h.1

/-- Without errors the context plays no part: each sibling leaves what its role says. -/
theorem placed_of_no_errors {context : Context α} {siblings : List (Sibling α)}
    (h : (context.run siblings).2 = []) :
    context.placed siblings = Sibling.placedAll siblings := by
  induction siblings generalizing context with
  | nil => rfl
  | cons s rest ih =>
    have hs := h
    simp only [run, List.append_eq_nil_iff, Option.toList_eq_nil_iff] at h
    rw [placed, Sibling.placedAll, ih h.2]
    congr 1
    cases s with
    | content item => rfl
    | gap item =>
      cases hl : Sibling.laterNext rest with
      | false => simp [place, Sibling.place]
      | true => simp [place, Sibling.place, accepts_of_laterNext hs (by simpa using hl)]
    | conditional c site item =>
      cases hc : c.isLater with
      | false => simp [place, Sibling.place, hc]
      | true => simp [place, Sibling.place, accepts_of_error_none hc h.1]

/-- The chains that a context lets go of have an `if`. -/
theorem arms_of_release {context : Context α} (hs : context.Sound) {c : Chain α}
    (h : .chain c ∈ context.release) : c.arms ≠ [] := by
  cases context with
  | idle => simp [release] at h
  | closed terminated => simp [release] at h
  | opened chain terminated gaps =>
    have hc : c = chain := by simpa [release] using h
    exact hc ▸ hs.1

theorem arms_of_misplaced {context : Context α} (hs : context.Sound)
    {cause : String → CompileError.Cause} {site : Site} {item : α} {c : Chain α}
    (h : .chain c ∈ (context.misplaced cause site item).output) : c.arms ≠ [] :=
  arms_of_release hs (by simpa [misplaced] using h)

theorem arms_of_extend {context : Context α} (hs : context.Sound) {condition : Option Condition}
    {site : Site} {item : α} {c : Chain α}
    (h : .chain c ∈ (context.extend condition site item).output) : c.arms ≠ [] := by
  cases context with
  | idle => exact arms_of_misplaced hs h
  | closed terminated => cases terminated <;> exact arms_of_misplaced hs h
  | opened chain terminated gaps =>
    cases terminated with
    | true => exact arms_of_misplaced hs h
    | false => cases condition <;> simp [extend] at h

theorem arms_of_step {context : Context α} (hs : context.Sound) {s : Sibling α} {c : Chain α}
    (h : .chain c ∈ (context.step s).output) : c.arms ≠ [] := by
  cases s with
  | content item => exact arms_of_release hs (by simpa [step, content] using h)
  | gap item => cases context <;> cases item <;> simp [step, gap] at h
  | conditional part site item =>
    cases part with
    | opens k => exact arms_of_release hs h
    | continues k => exact arms_of_extend hs h
    | otherwise => exact arms_of_extend hs h

theorem arms_of_run {context : Context α} (hs : context.Sound) {siblings : List (Sibling α)}
    {c : Chain α} (h : .chain c ∈ (context.run siblings).1) : c.arms ≠ [] := by
  induction siblings generalizing context with
  | nil => exact arms_of_release hs h
  | cons s rest ih =>
    rcases List.mem_append.mp h with h | h
    · exact arms_of_step hs h
    · exact ih (sound_step hs s) h

end Chain.Context

/-- Every chain of the output has an `if`. -/
theorem Chain.arms_of_build {siblings : List (Sibling α)} {c : Chain α}
    (h : .chain c ∈ (Chain.build siblings).1) : c.arms ≠ [] :=
  Context.arms_of_run Context.sound_idle h

/-- Grouping without errors: the output laid out is the sibling list by its roles. -/
theorem Chain.placed_build {siblings : List (Sibling α)} (h : (Chain.build siblings).2 = []) :
    (Chain.build siblings).1.flatMap Emitted.placed = Sibling.placedAll siblings := by
  have hr := Context.placed_run Context.sound_idle siblings
  rw [Chain.build, hr, Context.placed_of_no_errors h]
  rfl

end Stencil
