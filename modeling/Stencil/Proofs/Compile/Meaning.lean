import Stencil.Compiled.Evaluation
import Stencil.Proofs.Compile.Siblings
import Stencil.Proofs.Compiled.Turns

/-!
# Compilation preserves meaning

A template can be rendered as it is written, without branches: sibling by sibling, where an `if`
asks, an `elseif` asks unless its chain has rendered a member, and an `else` renders unless it
has. The compiled template makes the same pass: it renders the same nodes in the same order, asks
the same questions in the same order, and leaves the evaluator in the same state.
-/
namespace Stencil

variable {σ : Type}

/-- An evaluator that also keeps a record of what it is asked, the first question first. -/
def Evaluator.recorded (ask : Evaluator σ) : Evaluator (σ × List Expression) :=
  fun e (s, asked) =>
    let (answer, s) := ask e s
    (answer, s, asked ++ [e])

/-- What a pass shows to the outside: the numbers that it renders and the questions that it asks,
both in order. -/
def Evaluator.observe (ask : Evaluator σ)
    (pass : Evaluator (σ × List Expression) → StateM (σ × List Expression) (List Nat)) (s : σ) :
    List Nat × List Expression :=
  let (ids, _, asked) := (pass ask.recorded).run (s, [])
  (ids, asked)

namespace Node

mutual
/-- A pass over a source node that renders. -/
def interpret (options : Options) (ask : Evaluator σ) (keep : Bool) :
    Node → StateM σ (List Nat)
  | element id _ tag _ children => do
    let below ← interpretAll options ask (keep || tag.preservesComments) false children
    pure (id :: below)
  | text id _ _ => pure [id]
  | comment id _ _ => pure [id]

/-- A pass over a sibling list, where `taken` says whether a member has rendered since the
nearest `if`. Nodes that do not remain have no turn. -/
def interpretAll (options : Options) (ask : Evaluator σ) (keep taken : Bool) :
    List Node → StateM σ (List Nat)
  | [] => pure []
  | n :: ns => do
    let (here, taken) ←
      if n.remains options keep ns then
        turn ask taken (n.interpret options ask keep) (n.role options)
      else pure ([], taken)
    let rest ← interpretAll options ask keep taken ns
    pure (here ++ rest)
end

theorem turns_map {α β : Type} (ask : Evaluator σ) (render : β → StateM σ (List Nat))
    (f : α → β) (taken : Bool) (ps : List (Placed α)) :
    turns ask render taken (ps.map (Placed.map f)) = turns ask (fun a => render (f a)) taken ps := by
  induction ps generalizing taken with
  | nil => rfl
  | cons p ps ih => simp [turns, Placed.map, ih]

/-- Grouped siblings render as the nodes that remain take their turns. -/
theorem renderAll_ofSiblings {options : Options} (ask : Evaluator σ) {keep : Bool}
    {ns : List Node} (h : Clean options keep ns) (hp : (grouped keep ns).2 = []) (taken : Bool) :
    Compiled.renderAll ask (Compiled.ofSiblings (compileAll options keep ns)).1 =
      turns ask (fun n => (n.compiled options).render ask) taken (placedAll options keep ns) := by
  obtain ⟨es, hes, hps, harms⟩ := ofSiblings_emitted h hp
  rw [hes, ← Compiled.turns_emitted harms taken, hps, turns_map]

/-- Taking turns over the nodes that remain is the pass over the source nodes. -/
theorem turns_placedAll (options : Options) (ask : Evaluator σ) {scope : Bool} {next : Nat}
    {ns : List Node} (hn : isNumberedAll scope next ns = true)
    (h : Clean options (scope || options.preserveComments) ns) (taken : Bool) :
    turns ask (fun n => (n.compiled options).render ask) taken
        (placedAll options (scope || options.preserveComments) ns) =
      interpretAll options ask (scope || options.preserveComments) taken ns := by
  induction ns using siblings_induction generalizing scope next taken with
  | nil => rfl
  | element id span tag preserve children ns ihc ihn =>
    obtain ⟨-, hc, hp, hr⟩ := clean_element h
    obtain ⟨rfl, rfl, hb, hs⟩ := isNumberedAll_element.mp hn
    have hk := Bool.or_right_comm scope options.preserveComments tag.preservesComments
    have hbelow := (renderAll_ofSiblings ask hc hp false).trans (ihc hb hc false)
    simp [placedAll, remains, turns, interpretAll, Compiled.render, interpret, hbelow, hk,
      ihn hs hr]
  | text id span content ns ihn | comment id span content ns ihn =>
    have ih := ihn (isNumberedAll_cons.mp hn).2 (clean_cons.mp h).2
    rw [placedAll, interpretAll]
    split <;> simp [turns, turn, Compiled.render, interpret, ih]

end Node

namespace Template

/-- A pass over a template as it is written. -/
def interpret (options : Options) (ask : Evaluator σ) (t : Template) : StateM σ (List Nat) :=
  Node.interpretAll options ask options.preserveComments false t

theorem render_eq_interpret {options : Options} {t : Template} {c : CompiledTemplate}
    (h : t.compile options = .ok c) (ask : Evaluator σ) :
    c.render ask = interpret options ask t.number := by
  obtain ⟨hc, hp, hn⟩ := compile_ok h
  rw [CompiledTemplate.render, hn, Node.renderAll_ofSiblings ask hc hp false]
  exact Node.turns_placedAll options ask t.isNumbered_number hc false

/-- A compiled template makes the pass of its source: with any evaluator it renders the same
nodes, asks the same questions, and leaves the same state. -/
theorem compile_observe {options : Options} {t : Template} {c : CompiledTemplate}
    (h : t.compile options = .ok c) (ask : Evaluator σ) (s : σ) :
    c.render ask = interpret options ask t.number ∧
      ask.observe (fun ask => c.render ask) s =
        ask.observe (fun ask => interpret options ask t.number) s := by
  refine ⟨render_eq_interpret h ask, ?_⟩
  simp only [Evaluator.observe, render_eq_interpret h ask.recorded]

/-- Three members with blanks between them, the second with a text in it. -/
def threeWays : Template :=
  let member (name : String) (value : Option (Located AttributeValue)) (below : List Node) : Node :=
    .element 0 ⟨0, 0⟩ ⟨⟨"p", ⟨0, 0⟩⟩, [⟨⟨name, ⟨0, 0⟩⟩, value, ⟨0, 0⟩⟩]⟩ false below
  let braced (source : String) : Option (Located AttributeValue) :=
    some ⟨.expression ⟨source, ⟨0, 0⟩⟩, ⟨0, 0⟩⟩
  [member "if:true" (braced "a") [], .text 0 ⟨0, 0⟩ " ",
    member "elseif:true" (braced "b") [.text 0 ⟨0, 0⟩ "y"], .text 0 ⟨0, 0⟩ " ",
    member "else" none []]

/-- Where `a` is false and `b` is true, both are asked for once and only the second member is
rendered. -/
theorem observe_threeWays :
    ∃ c, threeWays.compile .standard = .ok c ∧
      (Answers.ofAssumptions [("b", true)]).ask.observe (fun ask => c.render ask) [] =
        ([2, 3], [⟨"a", ⟨0, 0⟩⟩, ⟨"b", ⟨0, 0⟩⟩]) := by
  obtain ⟨c, hc⟩ : ∃ c, threeWays.compile .standard = .ok c := ⟨_, rfl⟩
  refine ⟨c, hc, ?_⟩
  rw [(compile_observe hc (Answers.ofAssumptions [("b", true)]).ask []).2]
  decide

end Template
end Stencil
