import Stencil.Proofs.Compile.Places

/-!
# The table of directives

    attribute       value            the element
    if:true         an expression    opens a chain, where the expression is true
    if:false        an expression    opens a chain, where it is false
    elseif:true     an expression    continues a chain, where it is true
    elseif:false    an expression    continues a chain, where it is false
    else            none             ends a chain
    ref             a literal        has a name

An element has at most one of the first five. Its first `ref` is a literal that is not empty, and it
stands on an element that is rendered. Classification accepts what conforms to this table, and it
looks at nothing but these attributes and the name of the tag.
-/
namespace Stencil

/-- The names of the attributes of which an element has at most one. -/
def conditionalNames : List String :=
  ["if:true", "if:false", "elseif:true", "elseif:false", "else"]

namespace Attribute

/-- A row of the table: what an attribute with the right value makes of its element. -/
inductive Makes (a : Attribute) : Conditional → Prop where
  | opens {polarity : Polarity} {e : Expression} {span : Span}
      (name : a.name.value = "if:" ++ polarity.describe)
      (value : a.value = some ⟨.expression e, span⟩) : Makes a (.opens ⟨e, polarity⟩)
  | continues {polarity : Polarity} {e : Expression} {span : Span}
      (name : a.name.value = "elseif:" ++ polarity.describe)
      (value : a.value = some ⟨.expression e, span⟩) : Makes a (.continues ⟨e, polarity⟩)
  | otherwise (name : a.name.value = "else") (value : a.value = none) : Makes a .otherwise

def IsConditional (a : Attribute) : Prop :=
  a.name.value ∈ conditionalNames

def IsRef (a : Attribute) : Prop :=
  a.name.value = "ref"

instance (a : Attribute) : Decidable a.IsConditional :=
  inferInstanceAs (Decidable (_ ∈ _))

instance (a : Attribute) : Decidable a.IsRef :=
  inferInstanceAs (Decidable (_ = _))

end Attribute

namespace StartTag

/-- The attributes that the table knows, in source order. -/
def listed (tag : StartTag) : List Attribute :=
  tag.attributes.filter fun a => a.IsConditional ∨ a.IsRef

/-- What the table asks of a start tag. -/
structure Conforms (options : Options) (tag : StartTag) : Prop where
  single : (tag.attributes.filter (·.IsConditional)).length ≤ 1
  valued : ∀ a ∈ tag.attributes, a.IsConditional → ∃ c, a.Makes c
  named : ∀ a, tag.attributes.find? (·.IsRef) = some a →
    ∃ name span, a.value = some ⟨.literal name, span⟩ ∧ name ≠ ""
  host : (∃ a ∈ tag.attributes, a.IsRef) →
    tag.name.value ≠ "template" ∧ ¬ (tag.name.value = "slot" ∧ options.lightMode = true)

/-- What the table makes of an element: a conditional counts more than a `ref`. -/
inductive Declares (tag : StartTag) : Directive → Prop where
  | conditional {a : Attribute} {c : Conditional} (mem : a ∈ tag.attributes) (makes : a.Makes c) :
    Declares tag (.conditional c)
  | ref {a : Attribute} {name : String} {span : Span}
      (unconditional : ∀ a ∈ tag.attributes, ¬ a.IsConditional)
      (first : tag.attributes.find? (·.IsRef) = some a)
      (value : a.value = some ⟨.literal name, span⟩) : Declares tag (.ref name)
  | plain (unconditional : ∀ a ∈ tag.attributes, ¬ a.IsConditional)
      (unnamed : ∀ a ∈ tag.attributes, ¬ a.IsRef) : Declares tag .plain

end StartTag

/-! ## One attribute -/

/-- The attribute name of a keyword. -/
def Keyword.name : Keyword → String
  | ifThen polarity => "if:" ++ polarity.describe
  | elseIf polarity => "elseif:" ++ polarity.describe
  | otherwise => "else"

theorem Keyword.ofName?_eq_some_iff {name : String} {k : Keyword} :
    ofName? name = some k ↔ name = k.name := by
  constructor
  · rw [ofName?]
    repeat' split
    all_goals rintro ⟨⟩ <;> assumption
  · rintro rfl
    obtain ⟨⟨⟩⟩ | ⟨⟨⟩⟩ | _ := k <;> decide

namespace Attribute

theorem keyword?_eq_some_iff {a : Attribute} {k : Keyword} :
    a.keyword? = some k ↔ a.name.value = k.name :=
  Keyword.ofName?_eq_some_iff

theorem isSome_keyword? (a : Attribute) : a.keyword?.isSome = decide a.IsConditional := by
  rw [Bool.eq_iff_iff, Option.isSome_iff_exists, decide_eq_true_eq]
  constructor
  · rintro ⟨k, hk⟩
    rw [IsConditional, keyword?_eq_some_iff.mp hk]
    obtain ⟨⟨⟩⟩ | ⟨⟨⟩⟩ | _ := k <;> decide
  · intro h
    simp only [IsConditional, conditionalNames, List.mem_cons, List.not_mem_nil, or_false] at h
    rcases h with h | h | h | h | h <;> simp only [keyword?, h] <;> exact ⟨_, rfl⟩

theorem hasExpression_eq_true_iff {a : Attribute} :
    a.hasExpression = true ↔ ∃ e span, a.value = some ⟨.expression e, span⟩ := by
  obtain ⟨name, value, span⟩ := a
  obtain _ | ⟨_ | e, s⟩ := value <;> simp [hasExpression]

theorem conditionExpression_of_value {a : Attribute} {e : Expression} {span : Span}
    (h : a.value = some ⟨.expression e, span⟩) : a.conditionExpression = e := by
  simp [conditionExpression, h]

/-- An attribute is without fault exactly when it has a row in the table. -/
theorem valueFault?_eq_none_iff {a : Attribute} {k : Keyword} (hk : a.keyword? = some k) :
    k.valueFault? a = none ↔ a.Makes (k.conditional a) := by
  have hname := keyword?_eq_some_iff.mp hk
  cases k with
  | ifThen polarity =>
    have hnone : Keyword.valueFault? (.ifThen polarity) a = none ↔ a.hasExpression = true := by
      simp [Keyword.valueFault?]
    rw [hnone, hasExpression_eq_true_iff]
    constructor
    · rintro ⟨e, span, hv⟩
      rw [Keyword.conditional, conditionExpression_of_value hv]
      exact .opens hname hv
    · intro h
      cases h with
      | opens _ hv => exact ⟨_, _, hv⟩
  | elseIf polarity =>
    have hnone : Keyword.valueFault? (.elseIf polarity) a = none ↔ a.hasExpression = true := by
      simp [Keyword.valueFault?]
    rw [hnone, hasExpression_eq_true_iff]
    constructor
    · rintro ⟨e, span, hv⟩
      rw [Keyword.conditional, conditionExpression_of_value hv]
      exact .continues hname hv
    · intro h
      cases h with
      | continues _ hv => exact ⟨_, _, hv⟩
  | otherwise =>
    have hnone : Keyword.valueFault? .otherwise a = none ↔ a.value = none := by
      simp [Keyword.valueFault?]
    rw [hnone]
    constructor
    · exact .otherwise hname
    · intro h
      cases h with
      | otherwise _ hv => exact hv

/-- The row of an attribute is that of its keyword. -/
theorem Makes.keyword {a : Attribute} {c : Conditional} (h : a.Makes c) :
    ∃ k, a.keyword? = some k ∧ c = k.conditional a := by
  cases h with
  | @opens polarity e span hn hv =>
    exact ⟨.ifThen polarity, keyword?_eq_some_iff.mpr hn,
      by rw [Keyword.conditional, conditionExpression_of_value hv]⟩
  | @continues polarity e span hn hv =>
    exact ⟨.elseIf polarity, keyword?_eq_some_iff.mpr hn,
      by rw [Keyword.conditional, conditionExpression_of_value hv]⟩
  | otherwise hn hv => exact ⟨.otherwise, keyword?_eq_some_iff.mpr hn, rfl⟩

theorem Makes.isConditional {a : Attribute} {c : Conditional} (h : a.Makes c) :
    a.IsConditional := by
  obtain ⟨k, hk, -⟩ := h.keyword
  have hs := isSome_keyword? a
  rw [hk] at hs
  exact of_decide_eq_true hs.symm

theorem isSome_refLiteral? {a : Attribute} :
    (StartTag.refLiteral? a).isSome = true ↔
      ∃ name span, a.value = some ⟨.literal name, span⟩ ∧ name ≠ "" := by
  obtain ⟨name, value, span⟩ := a
  obtain _ | ⟨text | e, s⟩ := value <;> simp [StartTag.refLiteral?, literal?]

end Attribute

/-! ## One start tag -/

namespace StartTag

variable {options : Options} {tag other : StartTag}

theorem conditionals_eq (tag : StartTag) :
    tag.conditionals = tag.attributes.filter (·.IsConditional) := by
  simp only [conditionals, Attribute.isSome_keyword?]

theorem attribute?_ref (tag : StartTag) :
    tag.attribute? refName = tag.attributes.find? (·.IsRef) := rfl

theorem mem_conditionals_iff {a : Attribute} :
    a ∈ tag.conditionals ↔ a ∈ tag.attributes ∧ a.IsConditional := by
  simp [conditionals_eq]

theorem refusesRef?_eq_none_iff :
    tag.refusesRef? options = none ↔
      tag.name.value ≠ "template" ∧ ¬ (tag.name.value = "slot" ∧ options.lightMode = true) := by
  rw [refusesRef?]
  by_cases ht : tag.name.value = "template" <;> by_cases hs : tag.name.value = "slot" <;>
    simp [isTemplate, isSlot, ht, hs]

theorem exists_of_several (h : 1 < tag.conditionals.length) :
    ∃ a b rest, tag.conditionals = a :: b :: rest := by
  rcases hc : tag.conditionals with _ | ⟨a, _ | ⟨b, rest⟩⟩
  · simp [hc] at h
  · simp [hc] at h
  · exact ⟨a, b, rest, rfl⟩

theorem multiple_eq_nil_iff :
    faults.multiple tag = [] ↔ tag.conditionals.length ≤ 1 := by
  rw [faults.multiple]
  split
  · next h => simp [h]
  · next h =>
    refine iff_of_true rfl (Nat.le_of_not_lt fun hlt => ?_)
    obtain ⟨a, b, rest, hc⟩ := exists_of_several hlt
    exact h a b rest hc

theorem badRef_eq_nil_iff :
    faults.badRef tag = [] ↔
      ∀ a, tag.attributes.find? (·.IsRef) = some a →
        ∃ name span, a.value = some ⟨.literal name, span⟩ ∧ name ≠ "" := by
  rw [faults.badRef, ← attribute?_ref]
  cases tag.attribute? refName with
  | none => simp
  | some a =>
    simp only [Option.some.injEq, forall_eq', ← Attribute.isSome_refLiteral?]
    split <;> simp_all

theorem badHost_eq_nil_iff :
    faults.badHost options tag = [] ↔
      ((∃ a ∈ tag.attributes, a.IsRef) → tag.refusesRef? options = none) := by
  have hfirst : (∃ a ∈ tag.attributes, a.IsRef) ↔ (tag.attribute? refName).isSome = true := by
    rw [attribute?_ref]
    simp
  rw [faults.badHost, hfirst]
  cases tag.attribute? refName <;> cases tag.refusesRef? options <;> simp

/-- Where there is at most one conditional, its value alone counts. -/
theorem badValue_eq_nil_iff (h : tag.conditionals.length ≤ 1) :
    faults.badValue tag = [] ↔
      ∀ a ∈ tag.attributes, a.IsConditional → ∃ c, a.Makes c := by
  have hall : (∀ a ∈ tag.attributes, a.IsConditional → ∃ c, a.Makes c) ↔
      ∀ a ∈ tag.conditionals, ∃ c, a.Makes c := by
    simp [mem_conditionals_iff]
  rw [faults.badValue, hall]
  rcases hc : tag.conditionals with _ | ⟨a, _ | ⟨b, rest⟩⟩
  · simp
  · obtain ⟨k, hk⟩ : ∃ k, a.keyword? = some k := by
      have ha : a ∈ tag.conditionals := by simp [hc]
      rw [← Option.isSome_iff_exists, Attribute.isSome_keyword?]
      exact decide_eq_true (mem_conditionals_iff.mp ha).2
    have hmakes : (∃ c, a.Makes c) ↔ k.valueFault? a = none := by
      rw [Attribute.valueFault?_eq_none_iff hk]
      constructor
      · rintro ⟨c, hm⟩
        obtain ⟨k', hk', rfl⟩ := hm.keyword
        obtain rfl := Option.some.inj (hk.symm.trans hk')
        exact hm
      · intro hm
        exact ⟨_, hm⟩
    simp [hk, hmakes]
  · simp [hc] at h

/-- A start tag is without fault exactly when it conforms to the table. -/
theorem faults_eq_nil_iff : tag.faults options = [] ↔ tag.Conforms options := by
  rw [faults, List.append_eq_nil_iff, List.append_eq_nil_iff, List.append_eq_nil_iff,
    multiple_eq_nil_iff, badRef_eq_nil_iff, badHost_eq_nil_iff, refusesRef?_eq_none_iff]
  constructor
  · rintro ⟨⟨⟨hsingle, hnamed⟩, hhost⟩, hvalued⟩
    exact ⟨conditionals_eq tag ▸ hsingle, (badValue_eq_nil_iff hsingle).mp hvalued, hnamed, hhost⟩
  · rintro ⟨hsingle, hvalued, hnamed, hhost⟩
    rw [← conditionals_eq] at hsingle
    exact ⟨⟨⟨hsingle, hnamed⟩, hhost⟩, (badValue_eq_nil_iff hsingle).mpr hvalued⟩

/-- The table gives every element that conforms to it a role. -/
theorem Conforms.exists_declares (h : tag.Conforms options) : ∃ d, tag.Declares d := by
  by_cases hc : ∃ a ∈ tag.attributes, a.IsConditional
  · obtain ⟨a, ha, hcond⟩ := hc
    obtain ⟨c, hmakes⟩ := h.valued a ha hcond
    exact ⟨_, .conditional ha hmakes⟩
  · have hnone : ∀ a ∈ tag.attributes, ¬ a.IsConditional := fun a ha hcond => hc ⟨a, ha, hcond⟩
    cases hr : tag.attributes.find? (·.IsRef) with
    | none => exact ⟨_, .plain hnone (by simpa using hr)⟩
    | some a =>
      obtain ⟨name, span, hv, -⟩ := h.named a hr
      exact ⟨_, .ref hnone hr hv⟩

theorem conditional?_eq_none (h : ∀ a ∈ tag.attributes, ¬ a.IsConditional) :
    tag.conditional? = none := by
  have hnil : tag.conditionals = [] := by
    rw [conditionals_eq, List.filter_eq_nil_iff]
    simpa using h
  rw [conditional?, hnil]
  rfl

/-- The role that classification gives is the one of the table. -/
theorem Declares.directive_eq {d : Directive} (hd : tag.Declares d) (h : tag.Conforms options) :
    tag.directive options = d := by
  cases hd with
  | @conditional a c ha hmakes =>
    obtain ⟨k, hk, rfl⟩ := hmakes.keyword
    have hmem : a ∈ tag.conditionals := mem_conditionals_iff.mpr ⟨ha, hmakes.isConditional⟩
    have hsingle := h.single
    rw [← conditionals_eq] at hsingle
    obtain ⟨b, hb⟩ := List.length_eq_one_iff.mp
      (Nat.le_antisymm hsingle (List.length_pos_of_mem hmem))
    rw [hb, List.mem_singleton] at hmem
    simp [directive, conditional?, hb, ← hmem, hk]
  | @ref a name span hnone hfirst hv =>
    obtain ⟨name', span', hv', hne⟩ := h.named a hfirst
    have hname : name ≠ "" := by
      cases hv.symm.trans hv'
      exact hne
    have hhost := refusesRef?_eq_none_iff.mpr
      (h.host ⟨a, List.mem_of_find?_eq_some hfirst, by simpa using List.find?_some hfirst⟩)
    have href : tag.reference options = some name := by
      rw [reference, hhost]
      simp [attribute?_ref, hfirst, refLiteral?, Attribute.literal?, hv, hname]
    simp [directive, conditional?_eq_none hnone, href]
  | plain hnone hunnamed =>
    have hfirst : tag.attribute? refName = none := by
      rw [attribute?_ref]
      simpa using hunnamed
    have href : tag.reference options = none := by
      rw [reference]
      split
      · rfl
      · rw [hfirst]
        rfl
    simp [directive, conditional?_eq_none hnone, href]

/-! ## Two start tags -/

/-- Classification looks at the name of the tag, its conditionals and its first `ref`. -/
theorem classify_congr (hname : other.name = tag.name)
    (hc : other.conditionals = tag.conditionals)
    (hr : other.attribute? refName = tag.attribute? refName) (options : Options) (id : Nat)
    (span span' : Span) (preserve preserve' : Bool) (children children' : List Node) :
    (Node.element id span' other preserve' children').classify options =
      (Node.element id span tag preserve children).classify options := by
  have hhost : other.refusesRef? options = tag.refusesRef? options := by
    rw [refusesRef?, refusesRef?, isTemplate, isTemplate, isSlot, isSlot, hname]
  have hreference : other.reference options = tag.reference options := by
    rw [reference, reference, hhost, hr]
  have hdirective : other.directive options = tag.directive options := by
    rw [directive, directive, conditional?, conditional?, hc, hreference]
  have hfaults : other.faults options = tag.faults options := by
    rw [faults, faults, faults.multiple, faults.multiple, faults.badRef, faults.badRef,
      faults.badHost, faults.badHost, faults.badValue, faults.badValue, hname, hc, hr, hhost]
  rw [Node.classify, Node.classify, errors, errors, hfaults, hname, hdirective]

theorem conditionals_listed (tag : StartTag) :
    tag.conditionals = tag.listed.filter (·.IsConditional) := by
  rw [conditionals_eq, listed, List.filter_filter]
  refine List.filter_congr fun a _ => ?_
  by_cases h : a.IsConditional <;> simp [h]

theorem attribute?_listed (tag : StartTag) :
    tag.attribute? refName = tag.listed.find? (·.IsRef) := by
  rw [attribute?_ref, listed, ← List.head?_filter, ← List.head?_filter, List.filter_filter]
  congr 1
  refine List.filter_congr fun a _ => ?_
  by_cases h : a.IsRef <;> simp [h]

/-- Of the lists of at most one element, each has one order only. -/
theorem eq_of_perm_of_length_le_one {as bs : List Attribute} (h : as.Perm bs)
    (hl : bs.length ≤ 1) : as = bs := by
  match bs with
  | [] => exact h.eq_nil
  | [b] => exact List.perm_singleton.mp h
  | _ :: _ :: _ => simp at hl

end StartTag

namespace Node

variable {options : Options} {id : Nat} {span : Span} {tag : StartTag} {preserve : Bool}
  {children : List Node}

theorem classify_eq_ok_iff {d : Directive} :
    (element id span tag preserve children).classify options = .ok d ↔
      tag.Conforms options ∧ tag.Declares d := by
  have hroles (h : tag.Conforms options) : tag.directive options = d ↔ tag.Declares d := by
    refine ⟨fun hd => ?_, fun hd => hd.directive_eq h⟩
    obtain ⟨d', hd'⟩ := h.exists_declares
    rwa [← hd, hd'.directive_eq h]
  rw [classify]
  cases he : tag.errors options id with
  | nil =>
    have h := StartTag.faults_eq_nil_iff.mp (StartTag.errors_eq_nil_iff.mp he)
    simp [h, hroles h]
  | cons e es =>
    have h : ¬ tag.Conforms options := fun h => by
      have hnil : tag.errors options id = [] :=
        StartTag.errors_eq_nil_iff.mpr (StartTag.faults_eq_nil_iff.mpr h)
      simp [he] at hnil
    simp [h]

/-- Several conditionals are the first error, and no other error is about several. -/
theorem classify_of_several (h : 1 < tag.conditionals.length) :
    ∃ rest, (element id span tag preserve children).classify options =
        .error (⟨.multipleConditionals (tag.conditionals.map (·.name.value)), tag.name.value,
          tag.name.span, id⟩ :: rest) ∧
      ∀ e ∈ rest, ∀ directives, e.cause ≠ .multipleConditionals directives := by
  obtain ⟨a, b, more, hc⟩ := StartTag.exists_of_several h
  have hm : StartTag.faults.multiple tag =
      [(.multipleConditionals (tag.conditionals.map (·.name.value)), tag.name.span)] := by
    rw [StartTag.faults.multiple, hc]
  refine ⟨(StartTag.faults.badRef tag ++ StartTag.faults.badHost options tag ++
    StartTag.faults.badValue tag).map fun fault => ⟨fault.1, tag.name.value, fault.2, id⟩,
    ?_, ?_⟩
  · rw [classify, StartTag.errors, StartTag.faults_eq, hm]
    rfl
  · rw [List.forall_mem_map]
    rintro ⟨cause, place⟩ hrest directives rfl
    obtain ⟨a, _, _, hd⟩ := StartTag.directive?_attributeFault hrest
    cases hd

/-- Classification is the table of directives: an element is accepted when it conforms to the
table, and then has the role that the table gives it. No other attribute matters, and where the table
knows at most one conditional and one `ref`, the order of the attributes does not either. Several
conditionals are one error, which lists them all in order. -/
theorem classify_table (options : Options) (id : Nat) (span : Span) (tag : StartTag)
    (preserve : Bool) (children : List Node) :
    ((∃ d, (element id span tag preserve children).classify options = .ok d) ↔
        tag.Conforms options) ∧
      (∀ d, (element id span tag preserve children).classify options = .ok d ↔
        tag.Conforms options ∧ tag.Declares d) ∧
      (∀ other : StartTag, other.name = tag.name → other.listed = tag.listed →
        ∀ span' preserve' children',
          (element id span' other preserve' children').classify options =
            (element id span tag preserve children).classify options) ∧
      (∀ other : StartTag, other.name = tag.name → tag.attributes.Perm other.attributes →
        (tag.attributes.filter (·.IsConditional)).length ≤ 1 →
        (tag.attributes.filter (·.IsRef)).length ≤ 1 →
          (element id span other preserve children).classify options =
            (element id span tag preserve children).classify options) ∧
      (1 < (tag.attributes.filter (·.IsConditional)).length →
        ∃ rest, (element id span tag preserve children).classify options =
            .error (⟨.multipleConditionals
              ((tag.attributes.filter (·.IsConditional)).map (·.name.value)), tag.name.value,
              tag.name.span, id⟩ :: rest) ∧
          ∀ e ∈ rest, ∀ directives, e.cause ≠ .multipleConditionals directives) := by
  refine ⟨⟨fun ⟨d, hd⟩ => (classify_eq_ok_iff.mp hd).1, fun h => ?_⟩,
    fun d => classify_eq_ok_iff, ?_, ?_, ?_⟩
  · obtain ⟨d, hd⟩ := h.exists_declares
    exact ⟨d, classify_eq_ok_iff.mpr ⟨h, hd⟩⟩
  · intro other hname hlisted span' preserve' children'
    have hc : other.conditionals = tag.conditionals := by
      rw [StartTag.conditionals_listed, hlisted, ← StartTag.conditionals_listed]
    have hr : other.attribute? StartTag.refName = tag.attribute? StartTag.refName := by
      rw [StartTag.attribute?_listed, hlisted, ← StartTag.attribute?_listed]
    exact StartTag.classify_congr hname hc hr ..
  · intro other hname hperm hsingle hrefs
    have hc : other.conditionals = tag.conditionals := by
      rw [StartTag.conditionals_eq, StartTag.conditionals_eq]
      exact StartTag.eq_of_perm_of_length_le_one (hperm.filter _).symm hsingle
    have hr : other.attribute? StartTag.refName = tag.attribute? StartTag.refName := by
      rw [StartTag.attribute?_ref, StartTag.attribute?_ref, ← List.head?_filter,
        ← List.head?_filter]
      exact congrArg _ (StartTag.eq_of_perm_of_length_le_one (hperm.filter _).symm hrefs)
    exact StartTag.classify_congr hname hc hr ..
  · rw [← StartTag.conditionals_eq]
    exact classify_of_several

/-- The start tag `<slot ref="r" class if:false={a}>`. -/
def testedSlot : StartTag :=
  ⟨⟨"slot", ⟨1, 5⟩⟩,
    [⟨⟨"ref", ⟨6, 9⟩⟩, some ⟨.literal "r", ⟨10, 13⟩⟩, ⟨6, 13⟩⟩,
      ⟨⟨"class", ⟨14, 19⟩⟩, none, ⟨14, 19⟩⟩,
      ⟨⟨"if:false", ⟨20, 28⟩⟩, some ⟨.expression ⟨"a", ⟨29, 32⟩⟩, ⟨29, 32⟩⟩, ⟨20, 32⟩⟩]⟩

/-- Its attributes make the same of it from last to first. -/
theorem classify_table_reversed :
    testedSlot.attributes.Perm testedSlot.attributes.reverse ∧
      (testedSlot.attributes.filter (·.IsConditional)).length ≤ 1 ∧
      (testedSlot.attributes.filter (·.IsRef)).length ≤ 1 ∧
      (element 0 ⟨0, 40⟩ ⟨testedSlot.name, testedSlot.attributes.reverse⟩ false []).classify
          .standard =
        .ok (.conditional (.opens ⟨⟨"a", ⟨29, 32⟩⟩, .negative⟩)) := by
  obtain ⟨-, hok, -, hswap, -⟩ := classify_table .standard 0 ⟨0, 40⟩ testedSlot false []
  have hperm := (List.reverse_perm testedSlot.attributes).symm
  have hsingle : (testedSlot.attributes.filter (·.IsConditional)).length ≤ 1 := by decide
  have hrefs : (testedSlot.attributes.filter (·.IsRef)).length ≤ 1 := by decide
  have hconforms : testedSlot.Conforms .standard := by
    rw [← StartTag.faults_eq_nil_iff]
    decide
  refine ⟨hperm, hsingle, hrefs, ?_⟩
  rw [hswap ⟨testedSlot.name, testedSlot.attributes.reverse⟩ rfl hperm hsingle hrefs, hok]
  exact ⟨hconforms, .conditional (List.getLast_mem (by decide)) (.opens rfl rfl)⟩

end Node
end Stencil
