import Stencil.Compile
import Stencil.Proofs.Chain.Grouping
import Stencil.Proofs.Chain.Naturality
import Stencil.Proofs.Classification
import Stencil.Proofs.Numbering

/-!
# A sibling list under compilation

Compilation groups source nodes by their roles and puts the compiled node in the place of each.
So what it makes of a sibling list can be read off the grouping of the source nodes themselves,
and, where nothing is wrong, off their roles alone.
-/
namespace Stencil.Node

/-- A node as grouping sees it, in a scope that keeps comments or not. -/
def sibling (keep : Bool) : Node → Sibling Node
  | element id span tag preserve children =>
    let node := element id span tag preserve children
    match tag.conditional? with
    | some (c, a) => .conditional c ⟨a.name.value, tag.name.value, a.span, span, id⟩ node
    | none => .content node
  | text id span content =>
    if Text.isBlankText content then .gap (some (text id span content))
    else .content (text id span content)
  | comment id span content => if keep then .content (comment id span content) else .gap none

/-- What a node compiles to, by itself. -/
def compiled (options : Options) : Node → Compiled
  | element id span tag preserve children =>
    .element id tag.name.value (tag.attributes.filter (!tag.isDirective ·)) (tag.reference options)
      (Compiled.ofSiblings
        (compileAll options (preserve || options.preserveComments) children)).1 span
  | text id span content => .text id content span
  | comment id span content => .comment id content span

@[simp] theorem compiled_element (options : Options) (id : Nat) (span : Span) (tag : StartTag)
    (preserve : Bool) (children : List Node) :
    (element id span tag preserve children).compiled options =
      .element id tag.name.value (tag.attributes.filter (!tag.isDirective ·))
        (tag.reference options)
        (Compiled.ofSiblings
          (compileAll options (preserve || options.preserveComments) children)).1 span := rfl
@[simp] theorem compiled_text (options : Options) (id : Nat) (span : Span) (content : String) :
    (text id span content).compiled options = .text id content span := rfl
@[simp] theorem compiled_comment (options : Options) (id : Nat) (span : Span) (content : String) :
    (comment id span content).compiled options = .comment id content span := rfl

/-- A sibling list grouped by the roles of its nodes. -/
def grouped (keep : Bool) (ns : List Node) : List (Emitted Node) × List CompileError :=
  Chain.build (ns.map (sibling keep))

theorem compile_sibling (options : Options) (keep : Bool) (n : Node) :
    (n.compile options keep).1 = (n.sibling keep).map (compiled options) := by
  cases n with
  | element id span tag preserve children =>
    simp only [compile, StartTag.compiled, sibling]
    cases tag.conditional? with
    | none => rfl
    | some part => rfl
  | text id span content =>
    simp only [compile, sibling]
    split <;> rfl
  | comment id span content =>
    simp only [compile, sibling]
    split <;> rfl

theorem compileAll_siblings (options : Options) (keep : Bool) (ns : List Node) :
    (compileAll options keep ns).1 =
      (ns.map (sibling keep)).map (Sibling.map (compiled options)) := by
  induction ns with
  | nil => rfl
  | cons n ns ih => simp [compileAll, compile_sibling, ih]

/-- Compiling a sibling list is grouping its nodes and compiling each; the errors inside the
nodes come first. -/
theorem ofSiblings_compileAll (options : Options) (keep : Bool) (ns : List Node) :
    Compiled.ofSiblings (compileAll options keep ns) =
      (((grouped keep ns).1.map (Emitted.map (compiled options))).map Compiled.ofEmitted,
        (compileAll options keep ns).2 ++ (grouped keep ns).2) := by
  simp only [Compiled.ofSiblings, compileAll_siblings, Chain.build_map, grouped]

/-- No node of a sibling list is faulty, and nothing is wrong below them. -/
def Clean (options : Options) (keep : Bool) (ns : List Node) : Prop :=
  (compileAll options keep ns).2 = []

theorem clean_cons {options : Options} {keep : Bool} {n : Node} {ns : List Node} :
    Clean options keep (n :: ns) ↔ (n.compile options keep).2 = [] ∧ Clean options keep ns := by
  simp [Clean, compileAll]

/-- A clean element has no faults of its own, and its children are clean and well placed. -/
theorem clean_element {options : Options} {keep : Bool} {id : Nat} {span : Span} {tag : StartTag}
    {preserve : Bool} {children ns : List Node}
    (h : Clean options keep (element id span tag preserve children :: ns)) :
    tag.errors options id = [] ∧
      Clean options (preserve || options.preserveComments) children ∧
      (grouped (preserve || options.preserveComments) children).2 = [] ∧
      Clean options keep ns := by
  rw [clean_cons, compile] at h
  simp only [ofSiblings_compileAll, List.append_eq_nil_iff] at h
  exact ⟨h.1.1, h.1.2.1, h.1.2.2, h.2⟩

/-- A node that may stand between the members of a chain. -/
def isGap (keep : Bool) : Node → Bool
  | element .. => false
  | text _ _ content => Text.isBlankText content
  | comment .. => !keep

/-- An element that classification calls an `elseif` or an `else`. -/
def isLater (options : Options) (n : Node) : Bool :=
  (n.role options).any Conditional.isLater

/-- The next sibling that is not a gap is an `elseif` or an `else`. -/
def laterNext (options : Options) (keep : Bool) (rest : List Node) : Bool :=
  (rest.find? (!·.isGap keep)).any (isLater options)

/-- Whether a node is left of its sibling list, where `rest` is what stands behind it: comments
are where they are kept, and blanks unless they stand in front of an `elseif` or `else`. -/
def remains (options : Options) (keep : Bool) (rest : List Node) : Node → Bool
  | element .. => true
  | text _ _ content => !(Text.isBlankText content && laterNext options keep rest)
  | comment .. => keep

/-- The nodes that are left of a sibling list, each with its role. -/
def placedAll (options : Options) (keep : Bool) : List Node → List (Placed Node)
  | [] => []
  | n :: ns =>
    if n.remains options keep ns then ⟨n.role options, n⟩ :: placedAll options keep ns
    else placedAll options keep ns

theorem mem_placedAll_cons {options : Options} {keep : Bool} {n : Node} {ns : List Node}
    {p : Placed Node} (h : p ∈ placedAll options keep (n :: ns)) :
    p = ⟨n.role options, n⟩ ∨ p ∈ placedAll options keep ns := by
  rw [placedAll] at h
  split at h
  · exact List.mem_cons.mp h
  · exact .inr h

theorem laterNext_siblings {options : Options} {keep : Bool} {ns : List Node}
    (h : Clean options keep ns) :
    Sibling.laterNext (ns.map (sibling keep)) = laterNext options keep ns := by
  induction ns with
  | nil => rfl
  | cons n ns ih =>
    cases n with
    | element id span tag preserve children =>
      obtain ⟨he, -⟩ := clean_element h
      simp only [List.map_cons, sibling, laterNext, List.find?_cons, isGap, Bool.not_false,
        Option.any_some, isLater, role_element he]
      cases tag.conditional? <;> rfl
    | text id span content =>
      have hr := ih (clean_cons.mp h).2
      cases hb : Text.isBlankText content with
      | true => simpa [sibling, hb, laterNext, isGap] using hr
      | false => simp [sibling, hb, laterNext, isGap, isLater]
    | comment id span content =>
      have hr := ih (clean_cons.mp h).2
      cases keep with
      | true => simp [sibling, laterNext, isGap, isLater]
      | false => simpa [sibling, laterNext, isGap] using hr

/-- By their roles, clean siblings leave exactly the nodes that remain. -/
theorem placedAll_siblings {options : Options} {keep : Bool} {ns : List Node}
    (h : Clean options keep ns) :
    Sibling.placedAll (ns.map (sibling keep)) = placedAll options keep ns := by
  induction ns with
  | nil => rfl
  | cons n ns ih =>
    have hn := (clean_cons.mp h).2
    have hl := laterNext_siblings hn
    simp only [List.map_cons, Sibling.placedAll, placedAll, hl, ih hn]
    cases n with
    | element id span tag preserve children =>
      obtain ⟨he, -⟩ := clean_element h
      simp only [sibling, remains, role_element he]
      cases tag.conditional? <;> rfl
    | text id span content =>
      cases hb : Text.isBlankText content <;> cases hj : laterNext options keep ns <;>
        simp [sibling, remains, hb, hj, Sibling.place]
    | comment id span content =>
      cases keep <;> simp [sibling, remains, Sibling.place]

/-- What compilation makes of a clean and well placed sibling list holds the nodes that remain,
in their order and with their roles. -/
theorem placed_grouped {options : Options} {keep : Bool} {ns : List Node}
    (h : Clean options keep ns) (hp : (grouped keep ns).2 = []) :
    (grouped keep ns).1.flatMap Emitted.placed = placedAll options keep ns := by
  rw [grouped, Chain.placed_build hp, placedAll_siblings h]

/-- The same list holds the compiled nodes, and each of its branches has an `if`. -/
theorem ofSiblings_emitted {options : Options} {keep : Bool} {ns : List Node}
    (h : Clean options keep ns) (hp : (grouped keep ns).2 = []) :
    ∃ es : List (Emitted Compiled),
      (Compiled.ofSiblings (compileAll options keep ns)).1 = es.map Compiled.ofEmitted ∧
      es.flatMap Emitted.placed = (placedAll options keep ns).map (Placed.map (compiled options)) ∧
      ∀ c, .chain c ∈ es → c.arms ≠ [] := by
  refine ⟨(grouped keep ns).1.map (Emitted.map (compiled options)), ?_, ?_, ?_⟩
  · rw [ofSiblings_compileAll]
  · rw [flatMap_placed_map, placed_grouped h hp]
  · intro c hc
    obtain ⟨e, he, hce⟩ := List.mem_map.mp hc
    cases e with
    | node n => cases hce
    | chain d =>
      cases hce
      simpa [Chain.map] using Chain.arms_of_build he

end Stencil.Node

namespace Stencil.Template

/-- A template compiles when there is nothing wrong with its numbered tree. -/
theorem compile_eq_ok_iff {options : Options} {t : Template} {c : CompiledTemplate} :
    t.compile options = .ok c ↔
      Compiled.ofSiblings (Node.compileAll options options.preserveComments t.number) =
        (c.nodes, []) := by
  rw [compile, compile_input, compileNumbered]
  obtain ⟨nodes⟩ := c
  generalize Compiled.ofSiblings _ = built
  obtain ⟨built, errors⟩ := built
  cases errors <;> simp

/-- A template compiles only when its numbered tree is clean and well placed, and then to that
tree grouped. -/
theorem compile_ok {options : Options} {t : Template} {c : CompiledTemplate}
    (h : t.compile options = .ok c) :
    Node.Clean options options.preserveComments t.number ∧
      (Node.grouped options.preserveComments t.number).2 = [] ∧
      c.nodes = (Compiled.ofSiblings
        (Node.compileAll options options.preserveComments t.number)).1 := by
  have heq := compile_eq_ok_iff.mp h
  have he := congrArg Prod.snd heq
  rw [Node.ofSiblings_compileAll] at he
  simp only [List.append_eq_nil_iff] at he
  exact ⟨he.1, he.2, (congrArg Prod.fst heq).symm⟩

end Stencil.Template
