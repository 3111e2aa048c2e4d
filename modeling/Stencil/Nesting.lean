import Stencil.SyntaxError

/-!
The limit on nesting, checked on the tokens before any tree is built: the depth rises where a
start tag ends with `>` and falls at each `</`.
-/
namespace Stencil

/-- Open elements so far, and where the last unfinished start tag began. -/
structure Nesting where
  depth : Nat
  pending : Option Nat
  deriving DecidableEq, Repr

namespace Nesting

def limit : Nat :=
  256

def start : Nesting :=
  ⟨0, none⟩

def step (n : Nesting) (t : Located Token) : Except SyntaxError Nesting :=
  match t.value, n.pending with
  | .tagOpen, _ => .ok ⟨n.depth, some t.span.start⟩
  | .tagClose, some opened =>
    if n.depth < limit then .ok ⟨n.depth + 1, none⟩
    else .error ⟨⟨opened, t.span.stop⟩, .nestedDeeper limit⟩
  | .selfClose, _ => .ok ⟨n.depth, none⟩
  | .closeTagOpen, _ => .ok ⟨n.depth - 1, n.pending⟩
  | _, _ => .ok n

def run (n : Nesting) : List (Located Token) → Except SyntaxError Nesting
  | [] => .ok n
  | t :: ts => (n.step t).bind (·.run ts)

def check (tokens : List (Located Token)) : Except SyntaxError Unit :=
  (start.run tokens).map fun _ => ()

end Nesting
end Stencil
