import Stencil.Attribute
import Stencil.CompileError
import Stencil.Node
import Stencil.Options

/-!
The directives of one element, told from its own attributes: at most one conditional, which
takes an expression (or nothing, for `else`), and a `ref`, which names the element by a literal.
Where a conditional may stand among its siblings is not decided here.
-/
namespace Stencil

/-- The truth value that a conditional tests for. -/
inductive Polarity where
  | positive
  | negative
  deriving DecidableEq, Repr

namespace Polarity

def accepts : Polarity → Bool → Bool
  | positive, answer => answer
  | negative, answer => !answer

def describe : Polarity → String
  | positive => "true"
  | negative => "false"

end Polarity

structure Condition where
  expression : Expression
  polarity : Polarity
  deriving DecidableEq, Repr

/-- A member of a chain: it opens one, continues one, or ends one. -/
inductive Conditional where
  | opens (condition : Condition)
  | continues (condition : Condition)
  | otherwise
  deriving DecidableEq, Repr

/-- What an element is to the compiler. -/
inductive Directive where
  | plain
  | conditional (conditional : Conditional)
  | ref (name : String)
  deriving DecidableEq, Repr

/-- The attribute names of conditionals. -/
inductive Keyword where
  | ifThen (polarity : Polarity)
  | elseIf (polarity : Polarity)
  | otherwise
  deriving DecidableEq, Repr

def Keyword.ofName? (name : String) : Option Keyword :=
  if name = "if:true" then some (ifThen .positive)
  else if name = "if:false" then some (ifThen .negative)
  else if name = "elseif:true" then some (elseIf .positive)
  else if name = "elseif:false" then some (elseIf .negative)
  else if name = "else" then some otherwise
  else none

namespace Attribute

def keyword? (a : Attribute) : Option Keyword :=
  Keyword.ofName? a.name.value

/-- The expression of a condition. A value of another form stands in for one, so that the place
of the element can be checked all the same. -/
def conditionExpression (a : Attribute) : Expression :=
  match a.value with
  | some ⟨.expression e, _⟩ => e
  | some ⟨.literal s, span⟩ => ⟨s, span⟩
  | none => ⟨"", a.span⟩

def hasExpression (a : Attribute) : Bool :=
  match a.value with
  | some ⟨.expression _, _⟩ => true
  | _ => false

end Attribute

/-- The part that an attribute with this keyword gives its element. -/
def Keyword.conditional (k : Keyword) (a : Attribute) : Conditional :=
  match k with
  | ifThen polarity => .opens ⟨a.conditionExpression, polarity⟩
  | elseIf polarity => .continues ⟨a.conditionExpression, polarity⟩
  | otherwise => .otherwise

/-- What is wrong with the value beside a keyword. -/
def Keyword.valueFault? (k : Keyword) (a : Attribute) : Option CompileError.Cause :=
  match k with
  | ifThen _ | elseIf _ =>
    if a.hasExpression then none else some (.wrongValue a.name.value .expression)
  | otherwise => if a.value.isSome then some .elseWithValue else none

namespace StartTag

def refName : String :=
  "ref"

/-- Attributes that the compiler takes for itself. -/
def isDirective (tag : StartTag) (a : Attribute) : Bool :=
  a.keyword?.isSome || a.name.value == refName ||
    (tag.isTemplate && a.name.value == preserveComments)

def conditionals (tag : StartTag) : List Attribute :=
  tag.attributes.filter (·.keyword?.isSome)

/-- Why a `ref` on this element could never be bound. -/
def refusesRef? (options : Options) (tag : StartTag) : Option String :=
  if tag.isTemplate then some "a <template> renders only its children"
  else if tag.isSlot && options.lightMode then
    some "a <slot> has no element of its own in light rendering mode"
  else none

/-- The name in a `ref`, when it is a literal that is not empty. -/
def refLiteral? (a : Attribute) : Option String :=
  a.literal?.filter (· ≠ "")

/-- The ref that the element declares. -/
def reference (options : Options) (tag : StartTag) : Option String :=
  match tag.refusesRef? options with
  | some _ => none
  | none => (tag.attribute? refName).bind refLiteral?

/-- The first conditional, with its attribute. -/
def conditional? (tag : StartTag) : Option (Conditional × Attribute) :=
  tag.conditionals.head?.bind fun a => a.keyword?.map fun k => (k.conditional a, a)

/-- The role of the element, also when its directives are faulty. -/
def directive (options : Options) (tag : StartTag) : Directive :=
  match tag.conditional?, tag.reference options with
  | some (c, _), _ => .conditional c
  | none, some name => .ref name
  | none, none => .plain

/-- The faults of the element's own directives, each with the place to point at. -/
def faults (options : Options) (tag : StartTag) : List (CompileError.Cause × Span) :=
  multiple ++ badRef ++ badHost ++ badValue
where
  multiple :=
    match tag.conditionals with
    | _ :: _ :: _ =>
      [(.multipleConditionals (tag.conditionals.map (·.name.value)), tag.name.span)]
    | _ => []
  badRef :=
    match tag.attribute? refName with
    | some a => if (refLiteral? a).isSome then [] else [(.wrongValue refName .literal, a.span)]
    | none => []
  badHost :=
    match tag.attribute? refName, tag.refusesRef? options with
    | some a, some reason => [(.refNotAllowed reason, a.span)]
    | _, _ => []
  badValue :=
    match tag.conditionals.head? with
    | some a => ((a.keyword?.bind (·.valueFault? a)).toList).map (·, a.span)
    | none => []

/-- The same as errors of a node. -/
def errors (options : Options) (id : Nat) (tag : StartTag) : List CompileError :=
  (tag.faults options).map fun (cause, span) => ⟨cause, tag.name.value, span, id⟩

end StartTag

namespace Node

/-- The role of a node, or everything wrong with its directives. Texts and comments have
none. -/
def classify (options : Options) : Node → Except (List CompileError) Directive
  | element id _ tag _ _ =>
    match tag.errors options id with
    | [] => .ok (tag.directive options)
    | errors => .error errors
  | text .. | comment .. => .ok .plain

end Node
end Stencil
