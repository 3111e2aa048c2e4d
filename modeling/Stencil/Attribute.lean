import Stencil.Span

/-!
Attributes of an element and the start tag that carries them.
-/
namespace Stencil

/-- An expression of the host component. Only its text is known here: equal texts are the same
question to an evaluator. -/
structure Expression where
  source : String
  span : Span
  deriving DecidableEq, Repr

inductive AttributeValue where
  | literal (text : String)
  | expression (expression : Expression)
  deriving DecidableEq, Repr

/-- A bare attribute has no value. -/
structure Attribute where
  name : Located String
  value : Option (Located AttributeValue)
  span : Span
  deriving DecidableEq, Repr

/-- The name of an element and its attributes in source order. -/
structure StartTag where
  name : Located String
  attributes : List Attribute
  deriving DecidableEq, Repr

namespace Attribute

/-- The value, when it is a literal. -/
def literal? (a : Attribute) : Option String :=
  match a.value with
  | some ⟨.literal s, _⟩ => some s
  | _ => none

end Attribute

namespace StartTag

/-- The first attribute of a name. -/
def attribute? (tag : StartTag) (name : String) : Option Attribute :=
  tag.attributes.find? (·.name.value == name)

/-- The grouping element, which renders only its children. -/
def isTemplate (tag : StartTag) : Bool :=
  tag.name.value == "template"

/-- The element that projects content from outside. -/
def isSlot (tag : StartTag) : Bool :=
  tag.name.value == "slot"

/-- The attribute that makes comments below a `<template>` significant. -/
def preserveComments : String :=
  "preserve-comments"

def preservesComments (tag : StartTag) : Bool :=
  tag.isTemplate && (tag.attribute? preserveComments).isSome

/-- The first attribute name, in source order, that an earlier attribute has too. -/
def duplicate? (tag : StartTag) : Option String :=
  go [] (tag.attributes.map (·.name.value))
where
  go (seen : List String) : List String → Option String
    | [] => none
    | n :: ns => if n ∈ seen then some n else go (n :: seen) ns

end StartTag
end Stencil
