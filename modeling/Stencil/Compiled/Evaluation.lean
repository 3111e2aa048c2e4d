import Stencil.Compiled.Render

/-!
Evaluators that answer from prepared answers and keep a record of what they were asked.
-/
namespace Stencil

/-- Prepared answers: by place in the pass where one is given there, else by the text of the
expression, else `otherwise`. -/
structure Answers where
  byPlace : List (Option Bool)
  byText : List (String × Bool)
  otherwise : Bool
  deriving Repr

namespace Answers

/-- Answers by text alone. A text is false unless it is said to be true. -/
def ofAssumptions (assumptions : List (String × Bool)) : Answers :=
  ⟨[], assumptions, false⟩

/-- Of several answers for one text the last counts. -/
def textual (a : Answers) (source : String) : Bool :=
  ((a.byText.reverse.find? (·.1 == source)).map (·.2)).getD a.otherwise

/-- The answer to the question number `place` of a pass. -/
def answer (a : Answers) (place : Nat) (source : String) : Bool :=
  (a.byPlace[place]?.join).getD (a.textual source)

/-- Answers and records the question. The record has the latest first. -/
def ask (a : Answers) : Evaluator (List String) := fun e asked =>
  (a.answer asked.length e.source, e.source :: asked)

end Answers
end Stencil
