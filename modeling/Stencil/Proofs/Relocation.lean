import Stencil.Chain

/-!
# Relocation

Compilation hands numbers and places on without looking at them. A relocation puts others in their
stead, and what an element is told to be after a relocation is what it was before, relocated.
-/
namespace Stencil

/-- What becomes of the numbers of nodes and of the offsets in the source. -/
structure Relocation where
  node : Nat → Nat
  offset : Nat → Nat

def Span.relocate (offset : Nat → Nat) (s : Span) : Span :=
  ⟨offset s.start, offset s.stop⟩

/-- The value has no place in it. -/
def Located.relocate {α : Type} (offset : Nat → Nat) (l : Located α) : Located α :=
  ⟨l.value, l.span.relocate offset⟩

def Expression.relocate (offset : Nat → Nat) (e : Expression) : Expression :=
  ⟨e.source, e.span.relocate offset⟩

def AttributeValue.relocate (offset : Nat → Nat) : AttributeValue → AttributeValue
  | literal text => literal text
  | expression e => expression (e.relocate offset)

def Attribute.relocate (offset : Nat → Nat) (a : Attribute) : Attribute :=
  ⟨a.name.relocate offset, a.value.map fun v => ⟨v.value.relocate offset, v.span.relocate offset⟩,
    a.span.relocate offset⟩

def StartTag.relocate (offset : Nat → Nat) (tag : StartTag) : StartTag :=
  ⟨tag.name.relocate offset, tag.attributes.map (·.relocate offset)⟩

def Condition.relocate (offset : Nat → Nat) (k : Condition) : Condition :=
  ⟨k.expression.relocate offset, k.polarity⟩

def Conditional.relocate (offset : Nat → Nat) : Conditional → Conditional
  | opens k => opens (k.relocate offset)
  | continues k => continues (k.relocate offset)
  | otherwise => otherwise

def Site.relocate (r : Relocation) (s : Site) : Site :=
  ⟨s.directive, s.tag, s.span.relocate r.offset, s.extent.relocate r.offset, r.node s.node⟩

def CompileError.relocate (r : Relocation) (e : CompileError) : CompileError :=
  ⟨e.cause, e.tag, e.span.relocate r.offset, r.node e.node⟩

variable (offset : Nat → Nat)

@[simp] theorem Span.start_relocate (s : Span) : (s.relocate offset).start = offset s.start := rfl
@[simp] theorem Span.stop_relocate (s : Span) : (s.relocate offset).stop = offset s.stop := rfl
@[simp] theorem Located.relocate_mk {α : Type} (value : α) (span : Span) :
    (⟨value, span⟩ : Located α).relocate offset = ⟨value, span.relocate offset⟩ := rfl
@[simp] theorem Located.value_relocate {α : Type} (l : Located α) :
    (l.relocate offset).value = l.value := rfl
@[simp] theorem Located.span_relocate {α : Type} (l : Located α) :
    (l.relocate offset).span = l.span.relocate offset := rfl
@[simp] theorem Span.relocate_id (s : Span) : s.relocate id = s := rfl
@[simp] theorem Located.relocate_id {α : Type} (l : Located α) : l.relocate id = l := rfl
@[simp] theorem Conditional.relocate_id (c : Conditional) : c.relocate id = c := by
  cases c <;> rfl
@[simp] theorem Attribute.relocate_id (a : Attribute) : a.relocate id = a := by
  obtain ⟨name, _ | ⟨_ | _, place⟩, span⟩ := a <;> rfl
@[simp] theorem StartTag.relocate_id (tag : StartTag) : tag.relocate id = tag := by
  simp [relocate]

namespace Attribute
variable (a : Attribute)

@[simp] theorem name_relocate : (a.relocate offset).name = a.name.relocate offset := rfl
@[simp] theorem span_relocate : (a.relocate offset).span = a.span.relocate offset := rfl
@[simp] theorem isSome_value_relocate :
    (a.relocate offset).value.isSome = a.value.isSome := Option.isSome_map
@[simp] theorem keyword?_relocate : (a.relocate offset).keyword? = a.keyword? := rfl
@[simp] theorem literal?_relocate : (a.relocate offset).literal? = a.literal? := by
  obtain ⟨name, _ | ⟨_ | _, place⟩, span⟩ := a <;> rfl
@[simp] theorem conditionExpression_relocate :
    (a.relocate offset).conditionExpression = a.conditionExpression.relocate offset := by
  obtain ⟨name, _ | ⟨_ | _, place⟩, span⟩ := a <;> rfl
@[simp] theorem hasExpression_relocate : (a.relocate offset).hasExpression = a.hasExpression := by
  obtain ⟨name, _ | ⟨_ | _, place⟩, span⟩ := a <;> rfl

end Attribute

namespace Keyword
variable (k : Keyword) (a : Attribute)

@[simp] theorem conditional_relocate :
    k.conditional (a.relocate offset) = (k.conditional a).relocate offset := by
  cases k <;> simp [conditional, Conditional.relocate, Condition.relocate]

@[simp] theorem valueFault?_relocate : k.valueFault? (a.relocate offset) = k.valueFault? a := by
  cases k <;> simp [valueFault?]

end Keyword

namespace StartTag
variable (tag : StartTag)

@[simp] theorem name_relocate : (tag.relocate offset).name = tag.name.relocate offset := rfl
@[simp] theorem isTemplate_relocate : (tag.relocate offset).isTemplate = tag.isTemplate := rfl
@[simp] theorem refusesRef?_relocate (options : Options) :
    (tag.relocate offset).refusesRef? options = tag.refusesRef? options := rfl

@[simp] theorem attribute?_relocate (name : String) :
    (tag.relocate offset).attribute? name = (tag.attribute? name).map (·.relocate offset) := by
  rw [attribute?, relocate, List.find?_map]
  rfl

@[simp] theorem preservesComments_relocate :
    (tag.relocate offset).preservesComments = tag.preservesComments := by
  simp [preservesComments]

@[simp] theorem conditionals_relocate :
    (tag.relocate offset).conditionals = tag.conditionals.map (·.relocate offset) := by
  rw [conditionals, relocate, List.filter_map]
  rfl

@[simp] theorem refLiteral?_relocate (a : Attribute) :
    refLiteral? (a.relocate offset) = refLiteral? a := by
  simp [refLiteral?]

@[simp] theorem reference_relocate (options : Options) :
    (tag.relocate offset).reference options = tag.reference options := by
  simp only [reference, refusesRef?_relocate, attribute?_relocate]
  cases tag.refusesRef? options with
  | some reason => rfl
  | none => cases tag.attribute? refName <;> simp

theorem conditional?_relocate :
    (tag.relocate offset).conditional? =
      tag.conditional?.map fun (c, a) => (c.relocate offset, a.relocate offset) := by
  rw [conditional?, conditional?, conditionals_relocate, List.head?_map]
  cases tag.conditionals.head? with
  | none => rfl
  | some a => cases h : a.keyword? <;> simp [h]

theorem faults_relocate (options : Options) :
    (tag.relocate offset).faults options =
      (tag.faults options).map (Prod.map id (Span.relocate offset)) := by
  have hmultiple : faults.multiple (tag.relocate offset) =
      (faults.multiple tag).map (Prod.map id (Span.relocate offset)) := by
    rw [faults.multiple, faults.multiple, conditionals_relocate]
    obtain _ | ⟨a, _ | ⟨b, as⟩⟩ := tag.conditionals <;> simp
  have href : faults.badRef (tag.relocate offset) =
      (faults.badRef tag).map (Prod.map id (Span.relocate offset)) := by
    rw [faults.badRef, faults.badRef, attribute?_relocate]
    cases tag.attribute? refName with
    | none => rfl
    | some a => cases h : refLiteral? a <;> simp [h]
  have hhost : faults.badHost options (tag.relocate offset) =
      (faults.badHost options tag).map (Prod.map id (Span.relocate offset)) := by
    rw [faults.badHost, faults.badHost, attribute?_relocate, refusesRef?_relocate]
    cases tag.attribute? refName <;> cases tag.refusesRef? options <;> rfl
  have hvalue : faults.badValue (tag.relocate offset) =
      (faults.badValue tag).map (Prod.map id (Span.relocate offset)) := by
    rw [faults.badValue, faults.badValue, conditionals_relocate, List.head?_map]
    cases tag.conditionals.head? with
    | none => rfl
    | some a => cases h : a.keyword? <;> simp [h, Function.comp_def]
  simp only [faults, hmultiple, href, hhost, hvalue, List.map_append]

theorem errors_relocate (r : Relocation) (options : Options) (id : Nat) :
    (tag.relocate r.offset).errors options (r.node id) =
      (tag.errors options id).map (·.relocate r) := by
  simp [errors, faults_relocate, CompileError.relocate, Function.comp_def]

end StartTag
end Stencil
