import Stencil.Proofs.Compile.Errors

/-!
# Places of errors

An error is about an element, which its node names. It points at an attribute with the name of
the directive that it talks about, or at the name of the tag when there are several.
-/
namespace Stencil

namespace CompileError

/-- The directive that an error is about, unless it is about several. -/
def Cause.directive? : Cause → Option String
  | multipleConditionals _ => none
  | wrongValue directive _ | orphaned directive | notAdjacent directive => some directive
  | elseWithValue => some "else"
  | refNotAllowed _ => some StartTag.refName

/-- A cause with the place to point at in a start tag. -/
def Cause.PointsInto (tag : StartTag) (cause : Cause) (span : Span) : Prop :=
  match cause.directive? with
  | none => span = tag.name.span
  | some directive => ∃ a ∈ tag.attributes, a.name.value = directive ∧ span = a.span

end CompileError

namespace StartTag

theorem attribute?_mem {tag : StartTag} {name : String} {a : Attribute}
    (h : tag.attribute? name = some a) : a ∈ tag.attributes ∧ a.name.value = name := by
  refine ⟨List.mem_of_find?_eq_some h, ?_⟩
  simpa using List.find?_some h

theorem mem_conditionals {tag : StartTag} {a : Attribute} (h : tag.conditionals.head? = some a) :
    a ∈ tag.attributes :=
  (List.mem_filter.mp (List.mem_of_head? h)).1

end StartTag

theorem Keyword.ofName?_otherwise {name : String} (h : Keyword.ofName? name = some .otherwise) :
    name = "else" := by
  grind [Keyword.ofName?]

/-- A value is at fault for the keyword of its attribute. -/
theorem Keyword.directive?_valueFault {k : Keyword} {a : Attribute} {cause : CompileError.Cause}
    (hk : a.keyword? = some k) (h : k.valueFault? a = some cause) :
    cause.directive? = some a.name.value := by
  cases k with
  | ifThen polarity | elseIf polarity =>
    rw [valueFault?] at h
    split at h
    · cases h
    · cases h
      rfl
  | otherwise =>
    rw [valueFault?] at h
    split at h
    · cases h
      exact congrArg some (ofName?_otherwise hk).symm
    · cases h

namespace StartTag

/-- What can be wrong with one attribute: a `ref` has the wrong value or is on the wrong element, or
the first conditional has the wrong value. -/
theorem attributeFault_cases {options : Options} {tag : StartTag} {cause : CompileError.Cause}
    {span : Span}
    (h : (cause, span) ∈ faults.badRef tag ++ faults.badHost options tag ++ faults.badValue tag) :
    ∃ a ∈ tag.attributes, span = a.span ∧
      ((a.name.value = refName ∧ (cause = .wrongValue refName .literal ∨
          ∃ reason, tag.refusesRef? options = some reason ∧ cause = .refNotAllowed reason)) ∨
        ∃ k, a.keyword? = some k ∧ k.valueFault? a = some cause) := by
  simp only [List.mem_append] at h
  rcases h with (h | h) | h
  · rw [faults.badRef] at h
    split at h
    · next a ha =>
      split at h
      · cases h
      · obtain ⟨rfl, rfl⟩ := Prod.mk.inj (List.mem_singleton.mp h)
        obtain ⟨hm, hn⟩ := attribute?_mem ha
        exact ⟨a, hm, rfl, .inl ⟨hn, .inl rfl⟩⟩
    · cases h
  · rw [faults.badHost] at h
    split at h
    · next a reason ha hr =>
      obtain ⟨rfl, rfl⟩ := Prod.mk.inj (List.mem_singleton.mp h)
      obtain ⟨hm, hn⟩ := attribute?_mem ha
      exact ⟨a, hm, rfl, .inl ⟨hn, .inr ⟨reason, hr, rfl⟩⟩⟩
    · cases h
  · rw [faults.badValue] at h
    split at h
    · next a ha =>
      obtain ⟨fault, hf, heq⟩ := List.mem_map.mp h
      obtain ⟨rfl, rfl⟩ := Prod.mk.inj heq
      obtain ⟨k, hk, hv⟩ := Option.bind_eq_some_iff.mp (Option.mem_toList.mp hf)
      exact ⟨a, mem_conditionals ha, rfl, .inr ⟨k, hk, hv⟩⟩
    · cases h

/-- Such a fault is about the directive that the attribute has the name of. -/
theorem directive?_attributeFault {options : Options} {tag : StartTag}
    {cause : CompileError.Cause} {span : Span}
    (h : (cause, span) ∈ faults.badRef tag ++ faults.badHost options tag ++ faults.badValue tag) :
    ∃ a ∈ tag.attributes, span = a.span ∧ cause.directive? = some a.name.value := by
  obtain ⟨a, hm, hs, ⟨hn, rfl | ⟨reason, -, rfl⟩⟩ | ⟨k, hk, hv⟩⟩ := attributeFault_cases h
  · exact ⟨a, hm, hs, congrArg some hn.symm⟩
  · exact ⟨a, hm, hs, congrArg some hn.symm⟩
  · exact ⟨a, hm, hs, Keyword.directive?_valueFault hk hv⟩

theorem faults_eq (options : Options) (tag : StartTag) :
    tag.faults options = faults.multiple tag ++
      (faults.badRef tag ++ faults.badHost options tag ++ faults.badValue tag) := by
  simp [faults]

/-- Several conditionals are wrong together, with the place of the name of the tag. -/
theorem multiple_cases {tag : StartTag} {cause : CompileError.Cause} {span : Span}
    (h : (cause, span) ∈ faults.multiple tag) :
    cause = .multipleConditionals (tag.conditionals.map (·.name.value)) ∧
      span = tag.name.span := by
  rw [faults.multiple] at h
  split at h
  · exact Prod.mk.inj (List.mem_singleton.mp h)
  · cases h

/-- Each fault points at what it is about. -/
theorem pointsInto_faults {options : Options} {tag : StartTag} {cause : CompileError.Cause}
    {span : Span} (h : (cause, span) ∈ tag.faults options) : cause.PointsInto tag span := by
  rw [faults_eq, List.mem_append] at h
  rcases h with h | h
  · obtain ⟨rfl, rfl⟩ := multiple_cases h
    rfl
  · obtain ⟨a, hm, hs, hd⟩ := directive?_attributeFault h
    rw [CompileError.Cause.PointsInto, hd]
    exact ⟨a, hm, rfl, hs⟩

theorem pointsInto_errors {options : Options} {id : Nat} {tag : StartTag} {e : CompileError}
    (h : e ∈ tag.errors options id) : e.tag = tag.name.value ∧ e.cause.PointsInto tag e.span := by
  obtain ⟨⟨cause, span⟩, hf, rfl⟩ := List.mem_map.mp h
  exact ⟨rfl, pointsInto_faults hf⟩

theorem conditional?_mem {tag : StartTag} {c : Conditional} {a : Attribute}
    (h : tag.conditional? = some (c, a)) : a ∈ tag.attributes := by
  obtain ⟨b, hb, hm⟩ := Option.bind_eq_some_iff.mp h
  obtain ⟨k, -, hk⟩ := Option.map_eq_some_iff.mp hm
  cases hk
  exact mem_conditionals hb

end StartTag

/-- An error of a node points into the start tag that the node has. -/
def CompileError.PointsAt (n : Node) (e : CompileError) : Prop :=
  match n with
  | .element id _ tag _ _ =>
    e.node = id ∧ e.tag = tag.name.value ∧ e.cause.PointsInto tag e.span
  | .text .. | .comment .. => False

namespace Node

theorem pointsAt_faults {options : Options} {n : Node} {e : CompileError}
    (h : e ∈ n.faults options) : e.PointsAt n := by
  cases n with
  | element id span tag preserve children =>
    have hn := node_of_mem_faults h
    rw [faults_element] at h
    exact ⟨hn, StartTag.pointsInto_errors h⟩
  | text id span content => cases h
  | comment id span content => cases h

theorem pointsAt_step {keep : Bool} {context : Chain.Context Node} {n : Node}
    {e : CompileError} (h : (context.step (n.sibling keep)).error = some e) : e.PointsAt n := by
  obtain ⟨c, site, m, hs, -, he⟩ := Chain.Context.error_step h
  cases n with
  | element id span tag preserve children =>
    simp only [sibling] at hs
    split at hs
    · next part a ha =>
      cases hs
      have hm := StartTag.conditional?_mem ha
      rcases he with rfl | rfl
      · exact ⟨rfl, rfl, a, hm, rfl, rfl⟩
      · exact ⟨rfl, rfl, a, hm, rfl, rfl⟩
    · cases hs
  | text id span content => simp at h
  | comment id span content => simp at h

theorem pointsAt_of_mem_errors {options : Options} {keep : Bool} {context : Chain.Context Node}
    {ns : List Node} {v : Verdict} (hv : v ∈ judgeAll keep context ns) {e : CompileError}
    (he : e ∈ v.errors options) : e.PointsAt v.node := by
  rcases List.mem_append.mp he with he | he
  · exact pointsAt_faults he
  · obtain ⟨keep', context', h⟩ := placement_judgeAll v hv
    exact pointsAt_step (h.symm.trans (Option.mem_toList.mp he))

end Node

/-- Every error of a template points at one of its nodes. -/
theorem Template.pointsAt_of_compile {options : Options} {t : Template} {es : List CompileError}
    (h : t.compile options = .error es) :
    ∀ e ∈ es, ∃ n ∈ Node.walkAll t.number, e.PointsAt n := by
  obtain ⟨-, rfl⟩ := compile_error h
  intro e he
  obtain ⟨v, hv, he⟩ := List.mem_flatMap.mp he
  refine ⟨v.node, ?_, Node.pointsAt_of_mem_errors hv he⟩
  rw [← Node.judgeAll_nodes options.preserveComments .idle]
  exact List.mem_map_of_mem hv

end Stencil
