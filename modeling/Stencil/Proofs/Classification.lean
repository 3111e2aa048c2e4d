import Stencil.Directive

/-!
# Classification

The verdict on an element is either a role or a list of errors. Where there are no errors, the
role and the reference that the compiler works with are those that the attributes declare.
-/
namespace Stencil

namespace Node

/-- The errors of a node's own directives. -/
def faults (options : Options) (n : Node) : List CompileError :=
  match n.classify options with
  | .ok _ => []
  | .error errors => errors

/-- The part in a chain that classification gives to a node. -/
def role (options : Options) (n : Node) : Option Conditional :=
  match n.classify options with
  | .ok (.conditional c) => some c
  | _ => none

@[simp] theorem faults_text (options : Options) (id : Nat) (span : Span) (content : String) :
    (text id span content).faults options = [] := rfl
@[simp] theorem faults_comment (options : Options) (id : Nat) (span : Span) (content : String) :
    (comment id span content).faults options = [] := rfl
@[simp] theorem role_text (options : Options) (id : Nat) (span : Span) (content : String) :
    (text id span content).role options = none := rfl
@[simp] theorem role_comment (options : Options) (id : Nat) (span : Span) (content : String) :
    (comment id span content).role options = none := rfl

@[simp] theorem faults_element (options : Options) (id : Nat) (span : Span) (tag : StartTag)
    (preserve : Bool) (children : List Node) :
    (element id span tag preserve children).faults options = tag.errors options id := by
  cases h : tag.errors options id <;> simp [faults, classify, h]

theorem role_element {options : Options} {id : Nat} {tag : StartTag}
    (h : tag.errors options id = []) (span : Span) (preserve : Bool) (children : List Node) :
    (element id span tag preserve children).role options = tag.conditional?.map (·.1) := by
  have hc : (element id span tag preserve children).classify options =
      .ok (tag.directive options) := by simp [classify, h]
  simp only [role, hc, StartTag.directive]
  cases tag.conditional? with
  | some c => rfl
  | none => cases tag.reference options <;> rfl

end Node

namespace StartTag

theorem errors_eq_nil_iff {options : Options} {id : Nat} {tag : StartTag} :
    tag.errors options id = [] ↔ tag.faults options = [] := by
  simp [errors]

/-- An element without errors declares the literal of its first `ref`, and nothing refuses it. -/
theorem reference_of_errors {options : Options} {id : Nat} {tag : StartTag}
    (h : tag.errors options id = []) :
    tag.reference options = (tag.attribute? refName).bind refLiteral? := by
  have hf := errors_eq_nil_iff.mp h
  simp only [faults, List.append_eq_nil_iff] at hf
  obtain ⟨⟨-, hhost⟩, -⟩ := hf
  cases hr : tag.refusesRef? options with
  | none => simp [reference, hr]
  | some reason =>
    cases ha : tag.attribute? refName with
    | none => simp [reference, hr]
    | some a => simp [faults.badHost, ha, hr] at hhost

end StartTag
end Stencil
