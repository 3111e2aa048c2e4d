import Stencil.Proofs.Chain.Omission
import Stencil.Proofs.Compile.Concatenation
import Stencil.Proofs.Compile.Errors
import Stencil.Proofs.Node.Visible

/-!
# Invisible comments

Where comments are not significant everywhere, a comment that no element around it keeps leaves no
trace in what is compiled: it is a gap that is never emitted. So a template compiles to the same as
without these comments, up to the numbers of the nodes, which move up.
-/
namespace Stencil

theorem Compiled.ofSiblings_filter_nothing (members : List (Sibling Compiled))
    (errors : List CompileError) :
    ofSiblings (members.filter (!·.isNothing), errors) = ofSiblings (members, errors) := by
  simp only [ofSiblings, Chain.build, Chain.Context.run_filter_nothing]

namespace Node

/-- Invisible comments are the siblings that are nothing. -/
theorem compileAll_visibleAll (light : Bool) {scope : Bool} {next : Nat} {ns : List Node}
    (hn : isNumberedAll scope next ns = true) :
    compileAll ⟨light, false⟩ scope (visibleAll scope ns) =
      ((compileAll ⟨light, false⟩ scope ns).1.filter (!·.isNothing),
        (compileAll ⟨light, false⟩ scope ns).2) := by
  induction ns using siblings_induction generalizing scope next with
  | nil => rfl
  | element id span tag preserve children ns hc hs =>
    obtain ⟨rfl, rfl, hbelow, hbehind⟩ := isNumberedAll_element.mp hn
    simp only [visibleAll, visible, List.singleton_append, compileAll, compile, Bool.or_false,
      hc hbelow, hs hbehind, Compiled.ofSiblings_filter_nothing, Prod.mk.eta, StartTag.compiled]
    cases tag.conditional? <;> simp
  | text id span content ns hs =>
    have hbehind := hs (isNumberedAll_cons.mp hn).2
    simp only [visibleAll, visible, List.singleton_append, compileAll, compile, hbehind]
    split <;> simp
  | comment id span content ns hs =>
    have hbehind := hs (isNumberedAll_cons.mp hn).2
    cases scope <;> simp [visibleAll, visible, compileAll, compile, hbehind]

end Node

def RefEntry.relocate (r : Relocation) (entry : RefEntry) : RefEntry :=
  ⟨entry.last.relocate r, entry.candidates.map r.node⟩

namespace CompiledTemplate

def relocate (r : Relocation) (c : CompiledTemplate) : CompiledTemplate :=
  ⟨Compiled.relocateAll r c.nodes⟩

variable (r : Relocation) (c : CompiledTemplate)

theorem ids_relocate : (c.relocate r).ids = c.ids.map r.node := by
  rw [ids, ids, Compiled.ids, Compiled.ids, relocate, Compiled.walkAll_relocateAll,
    List.filterMap_map, List.map_filterMap]
  congr 1
  funext n
  cases n <;> rfl

theorem refs_relocate :
    (c.relocate r).refs =
      RefTable.ofDeclarations ((Compiled.declarations c.nodes).map (·.relocate r)) := by
  rw [refs_eq, relocate, Compiled.declarations_relocateAll]

theorem get?_relocate (name : String) :
    (c.relocate r).refs.get? name = (c.refs.get? name).map (·.relocate r) := by
  rw [refs_relocate, refs_eq, RefTable.get?_ofDeclarations, RefTable.get?_ofDeclarations,
    RefTable.named_relocate, List.getLast?_map]
  cases (RefTable.named name (Compiled.declarations c.nodes)).getLast? with
  | none => rfl
  | some d => simp [RefEntry.relocate, Declaration.relocate]

theorem candidates_relocate (name : String) :
    (c.relocate r).refs.candidates name = (c.refs.candidates name).map r.node := by
  rw [refs_relocate, refs_eq, RefTable.candidates_ofDeclarations,
    RefTable.candidates_ofDeclarations, RefTable.named_relocate]
  simp [Declaration.relocate]

end CompiledTemplate

namespace Template

/-- The numbers of a compiled template are those of nodes of its source. -/
theorem lt_of_mem_ids {options : Options} {t : Template} {c : CompiledTemplate}
    (h : t.compile options = .ok c) {id : Nat} (hid : id ∈ c.ids) : id < Node.sizeAll t := by
  rw [ids_eq_flat h] at hid
  have hmem := (Node.ids_flatAll_sublist options _ t.number).subset hid
  rw [Node.ids_of_isNumbered t.isNumbered_number, sizeAll_number] at hmem
  have hrange := List.mem_range'_1.mp hmem
  omega

/-- So are the numbers in the errors that are found. -/
theorem lt_of_mem_found {options : Options} {t : Template} {e : CompileError}
    (he : e ∈ (Compiled.ofSiblings
      (Node.compileAll options options.preserveComments t.number)).2) :
    e.node < Node.sizeAll t := by
  have hmem := (List.mergeSort_perm _ (·.node ≤ ·.node)).mem_iff.mpr he
  rw [mergeSort_found] at hmem
  have hid := Node.id_of_mem_reports hmem
  rw [Node.ids_of_isNumbered t.isNumbered_number, sizeAll_number] at hid
  have hrange := List.mem_range'_1.mp hid
  omega

/-- Only the numbers of visible nodes have a place among them. -/
theorem mem_kept_of_lt {t : Template} {id : Nat}
    (h : t.movesUp.node id < Node.sizeAll (visible t)) : id ∈ t.kept := by
  have hlength := congrArg List.length (map_kept t)
  rw [List.length_map, List.length_range] at hlength
  exact List.idxOf_lt_length_iff.mp (hlength ▸ h)

/-- Everything found without the invisible comments is what was found with them, moved up. -/
theorem ofSiblings_visible (light : Bool) (t : Template) :
    Compiled.ofSiblings (Node.compileAll ⟨light, false⟩ false (visible t).number) =
      (Compiled.relocateAll t.movesUp
          (Compiled.ofSiblings (Node.compileAll ⟨light, false⟩ false t.number)).1,
        (Compiled.ofSiblings (Node.compileAll ⟨light, false⟩ false t.number)).2.map
          (·.relocate t.movesUp)) := by
  have hvisible := Node.compileAll_visibleAll light t.isNumbered_number
  rw [number_visible, Node.compileAll_relocateAll, Compiled.ofSiblings_relocate, Prod.mk.eta,
    visible, hvisible, Compiled.ofSiblings_filter_nothing, Prod.mk.eta]

theorem mem_kept_of_found {light : Bool} {t : Template} {e : CompileError}
    (he : e ∈ (Compiled.ofSiblings (Node.compileAll ⟨light, false⟩ false t.number)).2) :
    e.node ∈ t.kept := by
  have hmoved : e.relocate t.movesUp ∈
      (Compiled.ofSiblings (Node.compileAll ⟨light, false⟩ false (visible t).number)).2 := by
    rw [ofSiblings_visible]
    exact List.mem_map_of_mem he
  exact mem_kept_of_lt (@lt_of_mem_found ⟨light, false⟩ _ _ hmoved)

/-- Moving up keeps the order of the errors. -/
theorem reports_visible (light : Bool) (t : Template) :
    Node.reports ⟨light, false⟩ false .idle (visible t).number =
      (Node.reports ⟨light, false⟩ false .idle t.number).map (·.relocate t.movesUp) := by
  have hthere := mergeSort_found ⟨light, false⟩ (visible t)
  have hhere := mergeSort_found ⟨light, false⟩ t
  rw [← hthere, ← hhere, ofSiblings_visible]
  symm
  refine List.map_mergeSort fun d hd e he => ?_
  have hle := idxOf_le_idxOf_iff t.kept_increase (mem_kept_of_found hd) (mem_kept_of_found he)
  exact decide_eq_decide.mpr hle.symm

theorem compile_visible_eq (light : Bool) (t : Template) :
    (visible t).compile ⟨light, false⟩ =
      (match t.compile ⟨light, false⟩ with
      | .ok c => .ok (c.relocate t.movesUp)
      | .error es => .error (es.map (·.relocate t.movesUp))) := by
  cases h : t.compile ⟨light, false⟩ with
  | ok c =>
    rw [compile_eq_ok_iff] at h ⊢
    rw [ofSiblings_visible, h]
    rfl
  | error es =>
    obtain ⟨hne, rfl⟩ := compile_error h
    have hreports := reports_visible light t
    simp only [← hreports]
    refine (compile_eq ⟨light, false⟩ (visible t)).2 ?_
    rw [hreports]
    simpa using hne

/-- Without the invisible comments a template compiles to the same tree and the same table of refs,
or has the same errors, with the numbers moved up. -/
theorem compile_visible (light : Bool) (t : Template) :
    let options : Options := ⟨light, false⟩
    let r := t.movesUp
    t.kept.Pairwise (· < ·) ∧
      t.kept.map r.node = (Node.walkAll (visible t).number).map Node.id ∧
      (visible t).compile options =
        (match t.compile options with
        | .ok c => .ok (c.relocate r)
        | .error es => .error (es.map (·.relocate r))) ∧
      (∀ c, t.compile options = .ok c →
        (∀ id ∈ c.ids, id ∈ t.kept) ∧
        (∀ name, (c.relocate r).refs.get? name = (c.refs.get? name).map (·.relocate r)) ∧
        ∀ id name, (c.relocate r).refs.nameOf? id = some name ↔
          ∃ old ∈ t.kept, r.node old = id ∧ c.refs.nameOf? old = some name) ∧
      ∀ es, t.compile options = .error es → ∀ e ∈ es, e.node ∈ t.kept := by
  intro options r
  have hcompile : (visible t).compile options =
      (match t.compile options with
      | .ok c => .ok (c.relocate r)
      | .error es => .error (es.map (·.relocate r))) := compile_visible_eq light t
  refine ⟨t.kept_increase, ?_, hcompile, fun c hc => ?_, fun es hes e he => ?_⟩
  · rw [map_kept, Node.ids_of_isNumbered (visible t).isNumbered_number, sizeAll_number,
      List.range_eq_range']
  · rw [hc] at hcompile
    have hkept : ∀ id ∈ c.ids, id ∈ t.kept := by
      intro id hid
      refine mem_kept_of_lt (lt_of_mem_ids hcompile ?_)
      rw [CompiledTemplate.ids_relocate]
      exact List.mem_map_of_mem hid
    refine ⟨hkept, c.get?_relocate r, fun id name => ?_⟩
    rw [nameOf?_eq_some_iff hcompile, c.candidates_relocate r, List.mem_map]
    constructor
    · rintro ⟨old, hold, rfl⟩
      exact ⟨old, hkept old ((c.candidates_sublist name).subset hold), rfl,
        (nameOf?_eq_some_iff hc).mpr hold⟩
    · rintro ⟨old, -, rfl, hold⟩
      exact ⟨old, (nameOf?_eq_some_iff hc).mp hold, rfl⟩
  · rw [(compile_error hes).2, ← mergeSort_found] at he
    exact mem_kept_of_found ((List.mergeSort_perm _ _).mem_iff.mp he)

/-- An `if` and an `else` with two invisible comments around the blank between them. -/
def parted : Template :=
  let member (name : String) (value : Option AttributeValue) : Node :=
    .element 0 ⟨0, 0⟩ ⟨⟨"p", ⟨0, 0⟩⟩, [⟨⟨name, ⟨0, 0⟩⟩, value.map (⟨·, ⟨0, 0⟩⟩), ⟨0, 0⟩⟩,
      ⟨⟨"ref", ⟨0, 0⟩⟩, some ⟨.literal "r", ⟨0, 0⟩⟩, ⟨0, 0⟩⟩]⟩ false []
  [member "if:true" (some (.expression ⟨"a", ⟨0, 0⟩⟩)), .comment 0 ⟨0, 0⟩ "c",
    .text 0 ⟨0, 0⟩ " ", .comment 0 ⟨0, 0⟩ "d", member "else" none]

/-- The `else` moves up from 4 to 2, also in the table of refs. -/
theorem compile_visible_parted :
    ∃ c c', parted.compile .standard = .ok c ∧ parted.visible.compile .standard = .ok c' ∧
      c.ids = [0, 4] ∧ c'.ids = [0, 2] ∧ c'.refs.nameOf? 2 = some "r" := by
  obtain ⟨c, hc⟩ : ∃ c, parted.compile .standard = .ok c := ⟨_, rfl⟩
  obtain ⟨-, -, hcompile, hok, -⟩ := compile_visible false parted
  have hvisible : parted.visible.compile .standard = .ok (c.relocate parted.movesUp) := by
    have hmatch := hcompile
    rw [show parted.compile ⟨false, false⟩ = .ok c from hc] at hmatch
    exact hmatch
  refine ⟨c, _, hc, hvisible, ?_, ?_, ?_⟩
  · cases hc
    rfl
  · cases hc
    rfl
  · rw [(hok c hc).2.2 2 "r"]
    cases hc
    exact ⟨4, by decide, by decide, rfl⟩

end Template
end Stencil
