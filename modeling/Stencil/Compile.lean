import Stencil.Chain
import Stencil.Compiled.Render
import Stencil.Node.Numbering
import Stencil.RefTable

/-!
Compiles a template: each element is classified, each sibling list is grouped into chains, and
chains become branches. Either all of it succeeds or every error is returned, in the order of
the nodes they belong to.
-/
namespace Stencil

namespace Compiled

def ofEmitted : Emitted Compiled → Compiled
  | .node n => n
  | .chain c => branch c.arms c.otherwise c.span

/-- A sibling list once its members are compiled: the list after grouping, and all errors,
those inside the members first. -/
def ofSiblings (members : List (Sibling Compiled) × List CompileError) :
    List Compiled × List CompileError :=
  let built := Chain.build members.1
  (built.1.map ofEmitted, members.2 ++ built.2)

end Compiled

namespace StartTag

/-- The element that remains of a start tag, as a sibling. -/
def compiled (options : Options) (tag : StartTag) (id : Nat) (span : Span)
    (children : List Compiled) : Sibling Compiled :=
  let item := Compiled.element id tag.name.value (tag.attributes.filter (!tag.isDirective ·))
    (tag.reference options) children span
  match tag.conditional? with
  | some (c, a) => .conditional c ⟨a.name.value, tag.name.value, a.span, span, id⟩ item
  | none => .content item

end StartTag

namespace Node

mutual
/-- A node as a sibling, in a scope that keeps comments or not, with the errors in it. -/
def compile (options : Options) (keep : Bool) : Node → Sibling Compiled × List CompileError
  | element id span tag preserve children =>
    let below := Compiled.ofSiblings
      (compileAll options (preserve || options.preserveComments) children)
    (tag.compiled options id span below.1, tag.errors options id ++ below.2)
  | text id span content =>
    let item := Compiled.text id content span
    (if Text.isBlankText content then .gap (some item) else .content item, [])
  | comment id span content =>
    (if keep then .content (.comment id content span) else .gap none, [])

def compileAll (options : Options) (keep : Bool) :
    List Node → List (Sibling Compiled) × List CompileError
  | [] => ([], [])
  | n :: ns =>
    let first := n.compile options keep
    let rest := compileAll options keep ns
    (first.1 :: rest.1, first.2 ++ rest.2)
end

end Node

/-- The outcome of compiling a template. -/
structure CompiledTemplate where
  nodes : List Compiled
  deriving Repr

namespace CompiledTemplate

def refs (c : CompiledTemplate) : RefTable :=
  RefTable.build c.nodes

/-- The number of every node that is left. -/
def ids (c : CompiledTemplate) : List Nat :=
  Compiled.ids c.nodes

def containsNode (c : CompiledTemplate) (id : Nat) : Bool :=
  c.ids.contains id

/-- One render pass: the numbers of the nodes it renders, in order. -/
def render {σ : Type} (c : CompiledTemplate) (ask : Evaluator σ) : StateM σ (List Nat) :=
  Compiled.renderAll ask c.nodes

end CompiledTemplate

namespace Template

/-- Compiles a numbered tree. Errors are put into the order of their nodes; those of one node
stay in the order in which they were found. -/
def compileNumbered (options : Options) (t : Template) :
    Except (List CompileError) CompiledTemplate :=
  match Compiled.ofSiblings (Node.compileAll options options.preserveComments t) with
  | (nodes, []) => .ok ⟨nodes⟩
  | (_, errors) => .error (errors.mergeSort fun a b => a.node ≤ b.node)

/-- Compiles a tree, numbering it first where it is not. -/
def compile (options : Options) (t : Template) : Except (List CompileError) CompiledTemplate :=
  compileNumbered options (if t.isNumbered then t else t.number)

end Template

end Stencil
