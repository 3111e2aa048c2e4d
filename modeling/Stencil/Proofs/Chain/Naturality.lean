import Stencil.Proofs.Chain.Grouping
import Stencil.Proofs.Relocation

/-!
# Chains look at neither items nor places

Grouping decides by roles and gaps alone: replacing every item by another one replaces the items of
the output, and relocating the siblings relocates the output and the errors. Laying the output out
commutes with a change of items.
-/
namespace Stencil

variable {α β : Type}

def Sibling.map (f : α → β) : Sibling α → Sibling β
  | content item => content (f item)
  | gap item => gap (item.map f)
  | conditional c site item => conditional c site (f item)

def Chain.map (f : α → β) (c : Chain α) : Chain β :=
  ⟨c.arms.map fun (k, item) => (k, f item), c.otherwise.map f, c.span⟩

def Emitted.map (f : α → β) : Emitted α → Emitted β
  | node item => node (f item)
  | chain c => chain (c.map f)

def Placed.map (f : α → β) (p : Placed α) : Placed β :=
  ⟨p.role, f p.item⟩

theorem Chain.placedArms_map (f : α → β) (part : Condition → Conditional)
    (arms : List (Condition × α)) :
    placedArms part (arms.map fun (k, item) => (k, f item)) =
      (placedArms part arms).map (Placed.map f) := by
  induction arms generalizing part with
  | nil => rfl
  | cons arm arms ih => simp [placedArms, Placed.map, ih]

theorem Emitted.placed_map (f : α → β) (e : Emitted α) :
    (e.map f).placed = e.placed.map (Placed.map f) := by
  cases e with
  | node item => rfl
  | chain c =>
    have ho : (c.otherwise.map f).toList = c.otherwise.toList.map f := by
      cases c.otherwise <;> rfl
    simp [map, placed, Chain.placed, Chain.map, Chain.placedArms_map, ho, Placed.map,
      Function.comp_def]

theorem flatMap_placed_map (f : α → β) (es : List (Emitted α)) :
    (es.map (Emitted.map f)).flatMap Emitted.placed =
      (es.flatMap Emitted.placed).map (Placed.map f) := by
  induction es with
  | nil => rfl
  | cons e es ih => simp [ih, Emitted.placed_map]

/-! ## Relocated siblings -/

def Sibling.relocate (r : Relocation) (f : α → β) : Sibling α → Sibling β
  | content item => content (f item)
  | gap item => gap (item.map f)
  | conditional c site item => conditional (c.relocate r.offset) (site.relocate r) (f item)

def Chain.relocate (r : Relocation) (f : α → β) (c : Chain α) : Chain β :=
  ⟨c.arms.map fun (k, item) => (k.relocate r.offset, f item), c.otherwise.map f,
    c.span.relocate r.offset⟩

def Emitted.relocate (r : Relocation) (f : α → β) : Emitted α → Emitted β
  | node item => node (f item)
  | chain c => chain (c.relocate r f)

namespace Chain.Context

def relocate (r : Relocation) (f : α → β) : Context α → Context β
  | idle => idle
  | opened chain terminated gaps => opened (chain.relocate r f) terminated (gaps.map f)
  | closed terminated => closed terminated

def Step.relocate (r : Relocation) (f : α → β) (s : Step α) : Step β :=
  ⟨s.context.relocate r f, s.output.map (Emitted.relocate r f),
    s.error.map (CompileError.relocate r)⟩

variable (r : Relocation) (f : α → β) (context : Context α)

@[simp] theorem release_relocate :
    (context.relocate r f).release = context.release.map (Emitted.relocate r f) := by
  cases context <;> simp [relocate, release, Emitted.relocate, Function.comp_def]

@[simp] theorem close_relocate :
    (context.relocate r f).close = context.close.relocate r f := by
  cases context <;> rfl

@[simp] theorem content_relocate (item : α) :
    (context.relocate r f).content (f item) = (context.content item).relocate r f := by
  simp [content, Step.relocate, Emitted.relocate]

@[simp] theorem start_relocate (condition : Condition) (site : Site) (item : α) :
    (context.relocate r f).start (condition.relocate r.offset) (site.relocate r) (f item) =
      (context.start condition site item).relocate r f := by
  rw [start, release_relocate]
  rfl

@[simp] theorem misplaced_relocate (cause : String → CompileError.Cause) (site : Site) (item : α) :
    (context.relocate r f).misplaced cause (site.relocate r) (f item) =
      (context.misplaced cause site item).relocate r f := by
  simp [misplaced, Step.relocate, Emitted.relocate, CompileError.relocate, Site.relocate]

@[simp] theorem extend_relocate (condition : Option Condition) (site : Site) (item : α) :
    (context.relocate r f).extend (condition.map (·.relocate r.offset)) (site.relocate r)
        (f item) = (context.extend condition site item).relocate r f := by
  cases context with
  | idle => exact misplaced_relocate r f idle .orphaned site item
  | closed terminated =>
    cases terminated with
    | false => exact misplaced_relocate r f (closed false) .notAdjacent site item
    | true => exact misplaced_relocate r f (closed true) .orphaned site item
  | opened chain terminated gaps =>
    cases terminated with
    | false =>
      cases condition <;>
        simp [extend, relocate, Step.relocate, Chain.relocate, Site.relocate, Span.relocate]
    | true => exact misplaced_relocate r f (opened chain true gaps) .orphaned site item

theorem step_relocate (s : Sibling α) :
    (context.relocate r f).step (s.relocate r f) = (context.step s).relocate r f := by
  cases s with
  | content item => exact content_relocate r f context item
  | gap item =>
    cases context <;> cases item <;>
      simp [Sibling.relocate, step, gap, relocate, Step.relocate, Emitted.relocate]
  | conditional c site item =>
    cases c with
    | opens k => exact start_relocate r f context k site item
    | continues k => exact extend_relocate r f context (some k) site item
    | otherwise => exact extend_relocate r f context none site item

theorem run_relocate (siblings : List (Sibling α)) :
    (context.relocate r f).run (siblings.map (Sibling.relocate r f)) =
      ((context.run siblings).1.map (Emitted.relocate r f),
        (context.run siblings).2.map (CompileError.relocate r)) := by
  induction siblings generalizing context with
  | nil => simp [run]
  | cons s rest ih =>
    simp only [List.map_cons, run, step_relocate]
    cases h : (context.step s).error <;> simp [Step.relocate, ih, h]

end Chain.Context

/-- Grouping commutes with a relocation. -/
theorem Chain.build_relocate (r : Relocation) (f : α → β) (siblings : List (Sibling α)) :
    build (siblings.map (Sibling.relocate r f)) =
      ((build siblings).1.map (Emitted.relocate r f),
        (build siblings).2.map (CompileError.relocate r)) :=
  Context.run_relocate r f .idle siblings

/-- Grouping commutes with a change of items. -/
theorem Chain.build_map (f : α → β) (siblings : List (Sibling α)) :
    build (siblings.map (Sibling.map f)) =
      ((build siblings).1.map (Emitted.map f), (build siblings).2) := by
  have hs : (Sibling.relocate ⟨id, id⟩ f : Sibling α → Sibling β) = Sibling.map f := by
    funext s
    cases s with
    | content item => rfl
    | gap item => rfl
    | conditional c site item => exact congrArg (Sibling.conditional · site _) c.relocate_id
  have he : (Emitted.relocate ⟨id, id⟩ f : Emitted α → Emitted β) = Emitted.map f := by
    funext e
    cases e <;> rfl
  have herror : CompileError.relocate ⟨id, id⟩ = id := rfl
  have h := build_relocate ⟨id, id⟩ f siblings
  rwa [hs, he, herror, List.map_id] at h

end Stencil
