import Stencil.Proofs.Chain.Concatenation
import Stencil.Proofs.Compile.Relocation
import Stencil.Proofs.Node.Concatenation
import Stencil.Proofs.RefTable
import Stencil.Source

/-!
# Compilation of templates one behind the other

Sources that compile by themselves compile one behind the other, to the one compiled tree behind
the other: what the first one leaves open, a chain or its gaps, is completed before the second one
begins. The second one is relocated, and its declarations come last.
-/
namespace Stencil

theorem Node.compileAll_append (options : Options) (keep : Bool) (a b : List Node) :
    compileAll options keep (a ++ b) =
      ((compileAll options keep a).1 ++ (compileAll options keep b).1,
        (compileAll options keep a).2 ++ (compileAll options keep b).2) := by
  induction a with
  | nil => rfl
  | cons n a ih => simp [compileAll, ih]

namespace Compiled

theorem ofSiblings_append (front back : List (Sibling Compiled) × List CompileError)
    (h : (ofSiblings back).2 = []) :
    ofSiblings (front.1 ++ back.1, front.2 ++ back.2) =
      ((ofSiblings front).1 ++ (ofSiblings back).1, (ofSiblings front).2) := by
  obtain ⟨hmembers, hbuilt⟩ := List.append_eq_nil_iff.mp h
  simp [ofSiblings, Chain.build_append front.1 hbuilt, hmembers]

theorem walkAll_append (a b : List Compiled) : walkAll (a ++ b) = walkAll a ++ walkAll b := by
  induction a with
  | nil => rfl
  | cons n a ih => simp [walkAll, ih]

theorem declarations_append (a b : List Compiled) :
    declarations (a ++ b) = declarations a ++ declarations b := by
  simp [declarations, walkAll_append]

theorem renderAll_append {σ : Type} (ask : Evaluator σ) (a b : List Compiled) :
    renderAll ask (a ++ b) = (do
      let front ← renderAll ask a
      let back ← renderAll ask b
      pure (front ++ back)) := by
  induction a with
  | nil => simp [renderAll]
  | cons n a ih =>
    simp only [List.cons_append, renderAll, ih, bind_assoc, pure_bind, List.append_assoc]

end Compiled

namespace RefTable

theorem last_ofDeclarations (name : String) (ds : List Declaration) :
    ((ofDeclarations ds).get? name).map (·.last) = (named name ds).getLast? := by
  rw [get?_ofDeclarations]
  cases (named name ds).getLast? <;> rfl

theorem named_relocate (r : Relocation) (name : String) (ds : List Declaration) :
    named name (ds.map (·.relocate r)) = (named name ds).map (·.relocate r) := by
  rw [named, List.filter_map]
  rfl

/-- Later declarations are candidates behind the earlier ones, and the last one counts. -/
theorem ofDeclarations_append (r : Relocation) (name : String) (ds es : List Declaration) :
    let t := ofDeclarations (ds ++ es.map (·.relocate r))
    t.candidates name =
        (ofDeclarations ds).candidates name ++ ((ofDeclarations es).candidates name).map r.node ∧
      (t.get? name).map (·.last) =
        (((ofDeclarations es).get? name).map (·.last.relocate r)).or
          (((ofDeclarations ds).get? name).map (·.last)) := by
  have hnamed : named name (ds ++ es.map (·.relocate r)) =
      named name ds ++ (named name es).map (·.relocate r) := by
    rw [← named_relocate, named, List.filter_append]
    rfl
  have hlast : ((ofDeclarations es).get? name).map (·.last.relocate r) =
      (named name es).getLast?.map (·.relocate r) := by
    rw [← last_ofDeclarations, Option.map_map]
    rfl
  refine ⟨?_, ?_⟩
  · rw [candidates_ofDeclarations, candidates_ofDeclarations, candidates_ofDeclarations, hnamed]
    simp [Declaration.relocate]
  · rw [last_ofDeclarations, last_ofDeclarations, hlast, hnamed, List.getLast?_append,
      List.getLast?_map]

end RefTable

namespace Template

/-- Templates one behind the other, where the numbers of the second are raised. -/
theorem compile_append {options : Options} {t u : Template} {c d : CompiledTemplate}
    (ht : t.compile options = .ok c) (hu : u.compile options = .ok d) {r : Relocation}
    (hr : r.node = (· + Node.sizeAll t)) :
    (t ++ Node.relocateAll r u).compile options =
      .ok ⟨c.nodes ++ Compiled.relocateAll r d.nodes⟩ := by
  rw [compile_eq_ok_iff] at ht hu ⊢
  have hnumber : number (t ++ Node.relocateAll r u) =
      number t ++ Node.relocateAll r (number u) := by
    rw [number_append, ← hr]
  have hback : Compiled.ofSiblings
      (Node.compileAll options options.preserveComments (Node.relocateAll r (number u))) =
        (Compiled.relocateAll r d.nodes, []) := by
    rw [Node.compileAll_relocateAll, Compiled.ofSiblings_relocate, hu, List.map_nil]
  rw [hnumber, Node.compileAll_append, Compiled.ofSiblings_append _ _ (by rw [hback]), ht, hback]

end Template

/-- A source compiles when it is a template that does. -/
theorem compileSource_eq_ok_iff {options : Options} {source : String} {c : CompiledTemplate} :
    compileSource options source = .ok c ↔
      ∃ t, Template.parse source = .ok t ∧ t.compile options = .ok c := by
  rw [compileSource]
  cases Template.parse source with
  | error e => simp [bind, Except.bind, Except.mapError]
  | ok t => cases h : t.compile options <;> simp [bind, Except.bind, Except.mapError, h]

/-- A source behind another one compiles to the tree that it compiles to by itself, with numbers
raised by the nodes of the other one and places by its bytes, unless two texts meet. Of each name
the candidates of the second source come last, and one of them counts if there is any. A pass that
goes by the texts of expressions goes through the first tree and then through the second. -/
theorem compileSource_append {options : Options} {a b : String} {t u : Template}
    {c d : CompiledTemplate} (ht : Template.parse a = .ok t) (hu : Template.parse b = .ok u)
    (hc : compileSource options a = .ok c) (hd : compileSource options b = .ok d)
    (hmeet : Template.textsMeet t u = false) :
    let r : Relocation := .behind t a
    ∃ e, compileSource options (a ++ b) = .ok e ∧
      e.nodes = c.nodes ++ Compiled.relocateAll r d.nodes ∧
      (∀ name,
        e.refs.candidates name =
            c.refs.candidates name ++ (d.refs.candidates name).map r.node ∧
          (e.refs.get? name).map (·.last) =
            ((d.refs.get? name).map (·.last.relocate r)).or ((c.refs.get? name).map (·.last))) ∧
      ∀ (σ : Type) (ask : String → StateM σ Bool),
        e.render (fun x => ask x.source) = (do
          let front ← c.render fun x => ask x.source
          let back ← d.render fun x => ask x.source
          pure (front ++ back.map r.node)) := by
  intro r
  obtain ⟨t', ht', hct⟩ := compileSource_eq_ok_iff.mp hc
  obtain ⟨u', hu', hdu⟩ := compileSource_eq_ok_iff.mp hd
  cases ht.symm.trans ht'
  cases hu.symm.trans hu'
  have hcompile := compileSource_eq_ok_iff.mpr
    ⟨_, Template.parse_append ht hu hmeet, Template.compile_append hct hdu (r := r) rfl⟩
  refine ⟨_, hcompile, rfl, ?_, ?_⟩
  · intro name
    rw [CompiledTemplate.refs_eq, CompiledTemplate.refs_eq, CompiledTemplate.refs_eq]
    rw [Compiled.declarations_append, Compiled.declarations_relocateAll]
    exact RefTable.ofDeclarations_append r name _ _
  · intro σ ask
    have hback := Compiled.renderAll_relocateAll (fun x => ask x.source) r d.nodes
    simp only [CompiledTemplate.render, Compiled.renderAll_append, hback, bind_map_left]
    rfl

/-- A chain is open at the end of the first source, with a blank behind it, and the second source
begins with an element that has a `ref`. -/
theorem compileSource_append_open :
    ∃ e, compileSource .standard ("<b if:true=\x7bx\x7d/> " ++ "<b ref=\"r\"/>") = .ok e ∧
      e.ids = [0, 1, 2] ∧ e.refs.candidates "r" = [2] := by
  let first : List Phrase :=
    [.selfClosing ⟨⟨0, 1⟩, ⟨"b", ⟨1, 2⟩⟩,
      [.valued ⟨"if:true", ⟨3, 10⟩⟩ ⟨10, 11⟩ (.expression ⟨"x", ⟨11, 14⟩⟩)]⟩ ⟨14, 16⟩,
      .text ⟨" ", ⟨16, 17⟩⟩]
  let second : List Phrase :=
    [.selfClosing ⟨⟨0, 1⟩, ⟨"b", ⟨1, 2⟩⟩,
      [.valued ⟨"ref", ⟨3, 6⟩⟩ ⟨6, 7⟩ (.literal ⟨"r", ⟨7, 10⟩⟩)]⟩ ⟨10, 12⟩]
  have hfirst : Token.lex "<b if:true=\x7bx\x7d/> " = Phrase.tokensAll first := by decide +kernel
  have hsecond : Token.lex "<b ref=\"r\"/>" = Phrase.tokensAll second := by decide +kernel
  have ht := Template.parse_of_derives (by rw [hfirst]; rfl)
    ⟨hfirst.symm, List.nodup_singleton _, trivial, trivial⟩
  have hu := Template.parse_of_derives (by rw [hsecond]; rfl)
    ⟨hsecond.symm, List.nodup_singleton _, trivial⟩
  obtain ⟨e, he, hnodes, hrefs, -⟩ := compileSource_append ht hu
    (compileSource_eq_ok_iff.mpr ⟨_, ht, rfl⟩) (compileSource_eq_ok_iff.mpr ⟨_, hu, rfl⟩) rfl
  refine ⟨e, he, ?_, ?_⟩
  · rw [CompiledTemplate.ids, hnodes]
    rfl
  · rw [(hrefs "r").1]
    rfl

end Stencil
