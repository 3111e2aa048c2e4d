import Stencil.Directive

/-!
Conditional chains among siblings. An `if` opens a chain, `elseif` and `else` continue it, and
only gaps may stand between its members: gaps between members vanish, gaps behind the last one
stay. A member that finds no chain to continue is an error and stands by itself.
-/
namespace Stencil

/-- Where a conditional was written: the attribute it comes from, its element, and the extent of
the whole element. -/
structure Site where
  directive : String
  tag : String
  span : Span
  extent : Span
  node : Nat
  deriving DecidableEq, Repr

/-- A member of a sibling list, as far as chains see it. -/
inductive Sibling (α : Type) where
  | content (item : α)
  /-- Blanks, or something invisible, which is never emitted. -/
  | gap (item : Option α)
  | conditional (conditional : Conditional) (site : Site) (item : α)
  deriving Repr

structure Chain (α : Type) where
  arms : List (Condition × α)
  otherwise : Option α
  span : Span
  deriving DecidableEq, Repr

inductive Emitted (α : Type) where
  | node (item : α)
  | chain (chain : Chain α)
  deriving DecidableEq, Repr

namespace Chain

/-- What came before on this level. -/
inductive Context (α : Type) where
  /-- No chain yet. -/
  | idle
  /-- A chain that further members may continue, unless it is terminated by an `else`, and the
  gaps since its last member. -/
  | opened (chain : Chain α) (terminated : Bool) (gaps : List α)
  /-- A chain that content closed. -/
  | closed (terminated : Bool)
  deriving Repr

variable {α : Type}

namespace Context

/-- What an open chain leaves when it is closed: itself, then the gaps behind it. -/
def release : Context α → List (Emitted α)
  | opened chain _ gaps => .chain chain :: gaps.map .node
  | idle | closed _ => []

def close : Context α → Context α
  | opened _ terminated _ => closed terminated
  | context => context

/-- What one sibling does: the context after it, what it emits, and its error. -/
structure Step (α : Type) where
  context : Context α
  output : List (Emitted α)
  error : Option CompileError

def content (context : Context α) (item : α) : Step α :=
  ⟨context.close, context.release ++ [.node item], none⟩

def gap (context : Context α) (item : Option α) : Step α :=
  match context, item with
  | opened chain terminated gaps, some item => ⟨opened chain terminated (gaps ++ [item]), [], none⟩
  | context, some item => ⟨context, [.node item], none⟩
  | context, none => ⟨context, [], none⟩

def start (context : Context α) (condition : Condition) (site : Site) (item : α) : Step α :=
  ⟨opened ⟨[(condition, item)], none, site.extent⟩ false [], context.release, none⟩

/-- A member without a chain: an error, and content. -/
def misplaced (context : Context α) (cause : String → CompileError.Cause) (site : Site)
    (item : α) : Step α :=
  ⟨context.close, context.release ++ [.node item],
    some ⟨cause site.directive, site.tag, site.span, site.node⟩⟩

/-- An `elseif`, with its condition, or an `else`. -/
def extend (context : Context α) (condition : Option Condition) (site : Site) (item : α) :
    Step α :=
  match context with
  | opened chain false _ =>
    let span : Span := ⟨chain.span.start, site.extent.stop⟩
    match condition with
    | some condition =>
      ⟨opened ⟨chain.arms ++ [(condition, item)], chain.otherwise, span⟩ false [], [], none⟩
    | none => ⟨opened ⟨chain.arms, some item, span⟩ true [], [], none⟩
  | closed false => context.misplaced .notAdjacent site item
  | _ => context.misplaced .orphaned site item

def step (context : Context α) : Sibling α → Step α
  | .content item => context.content item
  | .gap item => context.gap item
  | .conditional (.opens condition) site item => context.start condition site item
  | .conditional (.continues condition) site item => context.extend (some condition) site item
  | .conditional .otherwise site item => context.extend none site item

/-- The output of the siblings that follow, and their errors. -/
def run (context : Context α) : List (Sibling α) → List (Emitted α) × List CompileError
  | [] => (context.release, [])
  | s :: rest =>
    let step := context.step s
    let later := step.context.run rest
    (step.output ++ later.1, step.error.toList ++ later.2)

end Context

/-- Groups a sibling list into chains. -/
def build (siblings : List (Sibling α)) : List (Emitted α) × List CompileError :=
  Context.idle.run siblings

end Chain
end Stencil
