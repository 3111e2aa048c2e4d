import Stencil.Proofs.Compile.Siblings
import Stencil.Proofs.Compiled.Flat

/-!
# Compilation keeps the tree

Without its branches a compiled template is the numbered source tree, less the comments that no
scope keeps and the blanks that lead on to an `elseif` or `else`. Every other node is there once,
at its place, with the part in a branch that classification gives it.
-/
namespace Stencil

namespace Node

mutual
/-- A source node as it is to appear in the compiled tree: an element has lost its directives,
and its reference is the literal of its first `ref`. -/
def flat (options : Options) (keep : Bool) : Node → Flat
  | element id span tag preserve children =>
    .node ((element id span tag preserve children).role options) id span
      (.element tag.name.value (tag.attributes.filter (!tag.isDirective ·))
        ((tag.attribute? StartTag.refName).bind StartTag.refLiteral?))
      (flatAll options (keep || tag.preservesComments) children)
  | text id span content => .node none id span (.text content) []
  | comment id span content => .node none id span (.comment content) []

/-- The nodes of a sibling list that remain. -/
def flatAll (options : Options) (keep : Bool) : List Node → List Flat
  | [] => []
  | n :: ns =>
    if n.remains options keep ns then n.flat options keep :: flatAll options keep ns
    else flatAll options keep ns
end

theorem flatAll_ofSiblings {options : Options} {keep : Bool} {ns : List Node}
    (h : Clean options keep ns) (hp : (grouped keep ns).2 = []) :
    Compiled.flatAll (Compiled.ofSiblings (compileAll options keep ns)).1 =
      (placedAll options keep ns).flatMap fun p => (p.item.compiled options).flat p.role := by
  obtain ⟨es, hes, hps, -⟩ := ofSiblings_emitted h hp
  rw [hes, Compiled.flatAll_emitted, hps, List.flatMap_map]
  rfl

/-- The compiled nodes that remain, without branches, are the source nodes that remain. -/
theorem flat_placedAll (options : Options) {scope : Bool} {next : Nat} {ns : List Node}
    (hn : isNumberedAll scope next ns = true)
    (h : Clean options (scope || options.preserveComments) ns) :
    ((placedAll options (scope || options.preserveComments) ns).flatMap fun p =>
        (p.item.compiled options).flat p.role) =
      flatAll options (scope || options.preserveComments) ns := by
  induction ns using siblings_induction generalizing scope next with
  | nil => rfl
  | element id span tag preserve children ns ihc ihn =>
    obtain ⟨he, hc, hp, hr⟩ := clean_element h
    obtain ⟨rfl, rfl, hb, hs⟩ := isNumberedAll_element.mp hn
    have hk := Bool.or_right_comm scope options.preserveComments tag.preservesComments
    have hbelow := (flatAll_ofSiblings hc hp).trans (ihc hb hc)
    simp [placedAll, remains, flatAll, flat, Compiled.flat, hbelow, hk, ihn hs hr,
      StartTag.reference_of_errors he]
  | text id span content ns ihn | comment id span content ns ihn =>
    have ih := ihn (isNumberedAll_cons.mp hn).2 (clean_cons.mp h).2
    rw [placedAll, flatAll]
    split <;> simp [flat, Compiled.flat, ih]

theorem mem_of_mem_placedAll {options : Options} {keep : Bool} {ns : List Node}
    {p : Placed Node} (h : p ∈ placedAll options keep ns) :
    p.role = p.item.role options ∧ p.item ∈ ns := by
  induction ns with
  | nil => cases h
  | cons n ns ih =>
    rcases mem_placedAll_cons h with rfl | h
    · exact ⟨rfl, List.mem_cons_self⟩
    · exact (ih h).imp_right (List.mem_cons_of_mem n)

/-- Only elements take a part in a chain. -/
theorem isElement_of_role {options : Options} {n : Node} (h : (n.role options).isSome = true) :
    (n.compiled options).isElement = true := by
  cases n with
  | element id span tag preserve children => rfl
  | text id span content => cases h
  | comment id span content => cases h

/-- A compiled node is a branch, properly made, or what a node of the source compiles to. -/
def Accounts (options : Options) (ns : List Node) (n : Compiled) : Prop :=
  (n.id? = none ∧ n.IsProper) ∨ ∃ m ∈ walkAll ns, n = m.compiled options

theorem Accounts.isProper {options : Options} {ns : List Node} {n : Compiled}
    (h : Accounts options ns n) : n.IsProper := by
  obtain ⟨-, hproper⟩ | ⟨m, -, rfl⟩ := h
  · exact hproper
  · cases m <;> trivial

/-- A chain whose members are compiled nodes of the source, each in its own role. -/
def IsChainOf (options : Options) (ns : List Node) (c : Chain Compiled) : Prop :=
  c.arms ≠ [] ∧ ∀ p ∈ c.placed, ∃ m ∈ ns, p.role = m.role options ∧ p.item = m.compiled options

theorem IsChainOf.mono {options : Options} {ms ns : List Node} {c : Chain Compiled}
    (h : IsChainOf options ms c) (hsub : ∀ m ∈ ms, m ∈ ns) : IsChainOf options ns c :=
  h.imp_right fun hp p hmem => (hp p hmem).imp fun m hm => hm.imp_left (hsub m)

/-- What holds of the branches of a sibling list and in its members holds in the whole. -/
theorem forall_ofSiblings {P : Compiled → Prop} {options : Options} {keep : Bool}
    {ns : List Node} (h : Clean options keep ns) (hp : (grouped keep ns).2 = [])
    (hbranch : ∀ c, IsChainOf options ns c → P (.ofEmitted (.chain c)))
    (hns : ∀ p ∈ placedAll options keep ns, ∀ n ∈ (p.item.compiled options).walk, P n) :
    ∀ n ∈ Compiled.walkAll (Compiled.ofSiblings (compileAll options keep ns)).1, P n := by
  obtain ⟨es, hes, hps, harms⟩ := ofSiblings_emitted h hp
  have hplaced : ∀ p ∈ es.flatMap Emitted.placed,
      ∃ q ∈ placedAll options keep ns, p = q.map (compiled options) := by
    intro p hpm
    rw [hps] at hpm
    obtain ⟨q, hq, rfl⟩ := List.mem_map.mp hpm
    exact ⟨q, hq, rfl⟩
  intro n hn
  rw [hes] at hn
  rcases Compiled.mem_walkAll_emitted hn with ⟨c, hc, rfl⟩ | ⟨p, hpm, hm⟩
  · refine hbranch c ⟨harms c hc, fun p hpc => ?_⟩
    obtain ⟨q, hq, rfl⟩ := hplaced p (List.mem_flatMap.mpr ⟨_, hc, hpc⟩)
    obtain ⟨hrole, hmem⟩ := mem_of_mem_placedAll hq
    exact ⟨q.item, hmem, hrole, rfl⟩
  · obtain ⟨q, hq, rfl⟩ := hplaced p hpm
    exact hns q hq n hm

theorem mem_walkAll_of_mem {n : Node} {ns : List Node} (h : n ∈ ns) : n ∈ walkAll ns := by
  induction ns with
  | nil => cases h
  | cons m ns ih =>
    rcases List.mem_cons.mp h with rfl | h
    · cases n <;> simp [walkAll, walk]
    · exact List.mem_append_right _ (ih h)

/-- What holds of every compiled node of the source, and of every branch of them, holds of all that
a member compiles to. -/
theorem forall_placedAll {P : Compiled → Prop} {options : Options} {keep : Bool} {ns : List Node}
    (h : Clean options keep ns) (hnode : ∀ m ∈ walkAll ns, P (m.compiled options))
    (hbranch : ∀ c, IsChainOf options (walkAll ns) c → P (.ofEmitted (.chain c))) :
    ∀ p ∈ placedAll options keep ns, ∀ n ∈ (p.item.compiled options).walk, P n := by
  induction ns using siblings_induction generalizing keep with
  | nil => intro p hp; cases hp
  | element id span tag preserve children ns ihc ihn =>
    obtain ⟨-, hc, hg, hr⟩ := clean_element h
    have hchildren : ∀ m ∈ walkAll children,
        m ∈ walkAll (element id span tag preserve children :: ns) := fun m hm => by
      simp [walkAll, walk, hm]
    have hrest : ∀ m ∈ walkAll ns, m ∈ walkAll (element id span tag preserve children :: ns) :=
      fun m hm => List.mem_append_right _ hm
    have hmembers := ihc hc (fun m hm => hnode m (hchildren m hm))
      fun c hchain => hbranch c (hchain.mono hchildren)
    have hbelow := forall_ofSiblings hc hg
      (fun c hchain => hbranch c (hchain.mono fun m hm => hchildren m (mem_walkAll_of_mem hm)))
      hmembers
    intro p hp n hn
    rcases mem_placedAll_cons hp with rfl | hp
    · rcases List.mem_cons.mp hn with rfl | hn
      · exact hnode _ (mem_walkAll_of_mem List.mem_cons_self)
      · exact hbelow n hn
    · exact ihn hr (fun m hm => hnode m (hrest m hm))
        (fun c hchain => hbranch c (hchain.mono hrest)) p hp n hn
  | text id span content ns ihn | comment id span content ns ihn =>
    intro p hp n hn
    rcases mem_placedAll_cons hp with rfl | hp
    · cases List.mem_singleton.mp hn
      exact hnode _ (mem_walkAll_of_mem List.mem_cons_self)
    · have hmembers := ihn (clean_cons.mp h).2 (fun m hm => hnode m (List.mem_append_right _ hm))
        fun c hchain => hbranch c (hchain.mono fun m hm => List.mem_append_right _ hm)
      exact hmembers p hp n hn

/-- The nodes that remain are met in the order of the source. -/
theorem ids_flatAll_sublist (options : Options) (keep : Bool) (ns : List Node) :
    (Flat.idsAll (flatAll options keep ns)).Sublist ((walkAll ns).map id) := by
  induction ns using siblings_induction generalizing keep with
  | nil => exact .slnil
  | element id span tag preserve children ns ihc ihn =>
    simp only [flatAll, remains, if_true, Flat.idsAll, flat, Flat.ids, walkAll, walk,
      List.map_append, List.map_cons]
    exact ((ihc _).cons_cons id).append (ihn keep)
  | text id span content ns ihn | comment id span content ns ihn =>
    rw [flatAll]
    split
    · exact (ihn keep).cons_cons id
    · exact (ihn keep).cons id

end Node

namespace Template

/-- A template as it is to appear once compiled. -/
def flat (options : Options) (t : Template) : List Flat :=
  Node.flatAll options options.preserveComments t

theorem flatAll_nodes {options : Options} {t : Template} {c : CompiledTemplate}
    (h : t.compile options = .ok c) : Compiled.flatAll c.nodes = flat options t.number := by
  obtain ⟨hc, hp, hn⟩ := compile_ok h
  rw [hn, Node.flatAll_ofSiblings hc hp]
  exact Node.flat_placedAll options t.isNumbered_number hc

theorem ids_eq_flat {options : Options} {t : Template} {c : CompiledTemplate}
    (h : t.compile options = .ok c) : c.ids = Flat.idsAll (flat options t.number) := by
  rw [CompiledTemplate.ids, Compiled.ids, Compiled.ids_flatAll, flatAll_nodes h]

/-- What holds of every compiled node of the source, and of every branch of them, holds of all
nodes of the compiled template. -/
theorem forall_nodes {P : Compiled → Prop} {options : Options} {t : Template}
    {c : CompiledTemplate} (h : t.compile options = .ok c)
    (hnode : ∀ m ∈ Node.walkAll t.number, P (m.compiled options))
    (hbranch : ∀ d, Node.IsChainOf options (Node.walkAll t.number) d → P (.ofEmitted (.chain d))) :
    ∀ n ∈ Compiled.walkAll c.nodes, P n := by
  obtain ⟨hc, hp, hn⟩ := compile_ok h
  rw [hn]
  exact Node.forall_ofSiblings hc hp
    (fun d hd => hbranch d (hd.mono fun m hm => Node.mem_walkAll_of_mem hm))
    (Node.forall_placedAll hc hnode hbranch)

theorem accounts_nodes {options : Options} {t : Template} {c : CompiledTemplate}
    (h : t.compile options = .ok c) :
    ∀ n ∈ Compiled.walkAll c.nodes, Node.Accounts options t.number n := by
  refine forall_nodes h (fun m hm => .inr ⟨m, hm, rfl⟩) fun d ⟨harms, hmembers⟩ => ?_
  refine .inl ⟨rfl, harms, fun m hm => ?_⟩
  rw [Compiled.subtrees_placed] at hm
  obtain ⟨p, hp, rfl⟩ := List.mem_map.mp hm
  obtain ⟨m, -, hrole, hitem⟩ := hmembers p hp
  rw [hitem]
  exact Node.isElement_of_role (hrole ▸ Chain.role_of_placed hp)

/-- Along a walk the numbers of a compiled template increase. -/
theorem ids_increase {options : Options} {t : Template} {c : CompiledTemplate}
    (h : t.compile options = .ok c) : c.ids.Pairwise (· < ·) := by
  rw [ids_eq_flat h]
  refine List.Pairwise.sublist (Node.ids_flatAll_sublist options _ t.number) ?_
  rw [Node.ids_of_isNumbered t.isNumbered_number]
  exact List.pairwise_lt_range'

/-- A compiled template is its numbered source, laid out in branches: without them it is the
source less what does not remain, each branch is properly made, and its numbers increase and are
those of the nodes that remain. -/
theorem compile_keeps {options : Options} {t : Template} {c : CompiledTemplate}
    (h : t.compile options = .ok c) :
    Compiled.flatAll c.nodes = flat options t.number ∧
      (∀ n ∈ Compiled.walkAll c.nodes, n.IsProper) ∧
      c.ids.Pairwise (· < ·) ∧
      ∀ id, c.containsNode id = true ↔ id ∈ Flat.idsAll (flat options t.number) := by
  refine ⟨flatAll_nodes h, fun n hn => (accounts_nodes h n hn).isProper, ids_increase h, ?_⟩
  intro id
  rw [CompiledTemplate.containsNode, ids_eq_flat h]
  exact List.contains_iff_mem

/-- A comment, and a chain of two with a blank in it; the first member has a class and a `ref`. -/
def commented : Template :=
  let declared (name : String) (value : Option AttributeValue) : Attribute :=
    ⟨⟨name, ⟨0, 0⟩⟩, value.map (⟨·, ⟨0, 0⟩⟩), ⟨0, 0⟩⟩
  let member (attributes : List Attribute) : Node :=
    .element 0 ⟨0, 0⟩ ⟨⟨"p", ⟨0, 0⟩⟩, attributes⟩ false []
  [.comment 0 ⟨0, 0⟩ "c",
    member [declared "class" (some (.literal "x")), declared "ref" (some (.literal "r")),
      declared "if:true" (some (.expression ⟨"a", ⟨0, 0⟩⟩))],
    .text 0 ⟨0, 0⟩ " ", member [declared "else" none]]

/-- The comment and the blank are gone, the members have lost their directives, and all numbers
are kept. -/
theorem compile_keeps_commented :
    ∃ c, commented.compile .standard = .ok c ∧
      Compiled.flatAll c.nodes =
        [.node (some (.opens ⟨⟨"a", ⟨0, 0⟩⟩, .positive⟩)) 1 ⟨0, 0⟩
            (.element "p" [⟨⟨"class", ⟨0, 0⟩⟩, some ⟨.literal "x", ⟨0, 0⟩⟩, ⟨0, 0⟩⟩] (some "r")) [],
          .node (some .otherwise) 3 ⟨0, 0⟩ (.element "p" [] none) []] ∧
      c.containsNode 3 = true := by
  obtain ⟨c, hc⟩ : ∃ c, commented.compile .standard = .ok c := ⟨_, rfl⟩
  obtain ⟨hflat, -, -, hids⟩ := compile_keeps hc
  refine ⟨c, hc, ?_, ?_⟩
  · rw [hflat]
    rfl
  · rw [hids]
    decide

end Template
end Stencil
