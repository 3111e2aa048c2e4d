import Stencil.Component
import Stencil.Text.Quoted

/-!
A compiled template as an indented outline, two spaces a level. Blank texts are left out. The
table of refs follows, when there is one.
-/
namespace Stencil

namespace Outline

/-- Lines are collected with their level, so that nesting one part in another moves it. -/
structure Line where
  level : Nat
  text : String
  deriving DecidableEq, Repr

def Line.render (l : Line) : String :=
  String.ofList (List.replicate (2 * l.level) ' ') ++ l.text ++ "\n"

def node (id : Nat) : String :=
  s!"#{id}"

def expression (e : Expression) : String :=
  "\x7b" ++ e.source ++ "\x7d"

def attributeText (a : Attribute) : String :=
  match a.value with
  | none => a.name.value
  | some ⟨.literal s, _⟩ => a.name.value ++ "=\"" ++ s ++ "\""
  | some ⟨.expression e, _⟩ => a.name.value ++ "=" ++ expression e

def startTag (tag : String) (attributes : List Attribute) (reference : Option String) : String :=
  let parts := attributes.map attributeText ++ (reference.map fun r => "ref=\"" ++ r ++ "\"").toList
  "<" ++ String.join (tag :: parts.map (" " ++ ·)) ++ ">"

/-- How an arm is announced. Only the first one is an `if`. -/
def arm (first : Bool) (c : Condition) : String :=
  (if first then "if" else "elseif") ++ ":" ++ c.polarity.describe ++ " " ++
    expression c.expression

mutual
def lines (level : Nat) : Compiled → List Line
  | .element id tag attributes reference children _ =>
    ⟨level, startTag tag attributes reference ++ " " ++ node id⟩ :: linesAll (level + 1) children
  | .text _ content _ =>
    if Text.isBlankText content then [] else [⟨level, Text.quote (Text.trim content)⟩]
  | .comment _ content _ => [⟨level, "<!--" ++ content ++ "-->"⟩]
  | .branch arms otherwise _ =>
    ⟨level, "branch"⟩ :: (linesArms level true arms ++ linesOption level otherwise)

def linesAll (level : Nat) : List Compiled → List Line
  | [] => []
  | n :: ns => lines level n ++ linesAll level ns

def linesArms (level : Nat) (first : Bool) : List (Condition × Compiled) → List Line
  | [] => []
  | (c, n) :: arms =>
    ⟨level + 1, arm first c⟩ :: (lines (level + 2) n ++ linesArms level false arms)

def linesOption (level : Nat) : Option Compiled → List Line
  | none => []
  | some n => ⟨level + 1, "else"⟩ :: lines (level + 2) n
end

def entry (e : RefEntry) : Line :=
  ⟨1, e.last.name ++ " -> <" ++ e.last.tag ++ "> " ++ node e.last.node ++ " (candidates " ++
    ", ".intercalate (e.candidates.map node) ++ ")"⟩

def table (t : RefTable) : List Line :=
  if t.entries.isEmpty then [] else ⟨0, "refs"⟩ :: t.entries.values.map entry

def render (lines : List Line) : String :=
  String.join (lines.map Line.render)

/-- A line for each bound name, and the node that it stands for. -/
def binding {η : Type} (b : Binding η) : List Line :=
  b.entries.map fun (name, r) => ⟨0, name ++ " -> " ++ node r.node⟩

end Outline

def CompiledTemplate.outline (c : CompiledTemplate) : String :=
  Outline.render (Outline.linesAll 0 c.nodes ++ Outline.table c.refs)

/-- The bound names and handles on one line. -/
def Binding.quoted (b : Binding String) : String :=
  "\x7b" ++ ", ".intercalate (b.handles.map fun (name, handle) =>
    Text.quote name ++ ": " ++ Text.quote handle) ++ "\x7d"

def Binding.outline {η : Type} (b : Binding η) : String :=
  Outline.render (Outline.binding b)

end Stencil
