import Mathlib.Data.List.Forall2
import Stencil.CommandLine
import Stencil.Proofs.Compiled.Conditions
import Stencil.Proofs.Text.Trimming

/-!
# Passes under assumptions

An assumption is an expression, `=` and a truth value, with blanks around both. No truth value has a
`=`, so the last one parts the two, whatever the expression is. Of several assumptions about one
expression the last counts. Since a template asks for trimmed expressions only, each of them can be
assumed true or false, and the pass under assumptions about all of them is the pass under this truth
assignment.
-/
namespace Stencil

/-! ## One assumption -/

namespace CommandLine

/-- How a truth value is written. -/
def truthWords : Bool → List String
  | true => ["true", "1"]
  | false => ["false", "0"]

/-- The argument gives an expression a truth value. There may be blanks around both. -/
def Gives (raw e : String) (b : Bool) : Prop :=
  ∃ left right word, Text.Pads e.toList left ∧ word ∈ truthWords b ∧
    Text.Pads word.toList right ∧ raw.toList = left ++ '=' :: right

theorem splitAtLastEquals_append {left right : List Char} (h : '=' ∉ right) :
    splitAtLastEquals (left ++ '=' :: right) = some (left, right) := by
  have hbehind : (left ++ '=' :: right).reverse.takeWhile (· ≠ '=') = right.reverse := by
    rw [List.reverse_append, List.reverse_cons, List.append_assoc, List.takeWhile_append_of_pos]
    · simp
    · intro c hc
      simpa using fun heq : c = '=' => h (heq ▸ List.mem_reverse.mp hc)
  have hdrop : (left ++ '=' :: right).reverse.drop right.reverse.length = '=' :: left.reverse := by
    rw [List.reverse_append, List.reverse_cons, List.append_assoc, List.drop_left]
    rfl
  simp only [splitAtLastEquals, hbehind, hdrop, List.reverse_reverse]

theorem splitAtLastEquals_eq_some_iff {cs left right : List Char} :
    splitAtLastEquals cs = some (left, right) ↔ cs = left ++ '=' :: right ∧ '=' ∉ right := by
  constructor
  · intro h
    by_cases hmem : '=' ∈ cs
    · obtain ⟨behind, before, hcs, hbehind⟩ := List.eq_append_cons_of_mem (List.mem_reverse.mpr hmem)
      have hlast : '=' ∉ behind.reverse := by simpa using hbehind
      obtain rfl : cs = before.reverse ++ '=' :: behind.reverse := by
        simpa using congrArg List.reverse hcs
      cases (splitAtLastEquals_append hlast).symm.trans h
      exact ⟨rfl, hlast⟩
    · have hall : cs.reverse.takeWhile (· ≠ '=') = cs.reverse :=
        List.takeWhile_eq_self_iff.mpr fun c hc => by
          simpa using fun heq : c = '=' => hmem (heq ▸ List.mem_reverse.mp hc)
      simp only [splitAtLastEquals, hall, List.drop_length] at h
      cases h
  · rintro ⟨rfl, hright⟩
    exact splitAtLastEquals_append hright

theorem truthValue?_eq_some_iff {value : List Char} {b : Bool} :
    truthValue? value = some b ↔ ∃ word ∈ truthWords b, value = word.toList := by
  have hwords (first second : String) :
      (∃ word ∈ [first, second], value = word.toList) ↔
        value = first.toList ∨ value = second.toList := by simp
  rw [truthValue?]
  cases b with
  | true =>
    rw [truthWords, hwords]
    split
    · simp only [*]
    · split <;> simp only [*, reduceCtorEq, Option.some.injEq]
  | false =>
    rw [truthWords, hwords]
    split
    · rename_i htrue
      rcases htrue with rfl | rfl <;> decide
    · split <;> simp only [*, reduceCtorEq]

/-- No blank and no truth value has a `=` in it. -/
theorem not_mem_of_pads {word : String} {b : Bool} {right : List Char} (hw : word ∈ truthWords b)
    (h : Text.Pads word.toList right) : '=' ∉ right := by
  obtain ⟨before, behind, hbefore, hbehind, rfl⟩ := h
  have hword : '=' ∉ word.toList := by
    revert word
    cases b <;> decide
  have hblank : ¬ Text.isBlank '=' = true := by decide
  simp only [List.mem_append, not_or]
  exact ⟨⟨fun hc => hblank (hbefore _ hc), hword⟩, fun hc => hblank (hbehind _ hc)⟩

theorem trimChars_truthWord {word : String} {b : Bool} (hw : word ∈ truthWords b) :
    Text.trimChars word.toList = word.toList := by
  revert word
  cases b <;> decide

/-- A text is an assumption when it gives an expression a truth value, and then it is about this
expression without the blanks at its ends. -/
theorem parseAssumption_eq_ok_iff {raw e : String} {b : Bool} :
    parseAssumption raw = .ok (e, b) ↔ Gives raw e b ∧ Text.trim e = e := by
  constructor
  · intro h
    rw [parseAssumption] at h
    split at h
    · cases h
    · rename_i left right hsplit
      obtain ⟨hraw, -⟩ := splitAtLastEquals_eq_some_iff.mp hsplit
      split at h
      · rename_i hvalue
        obtain ⟨word, hword, htrim⟩ := truthValue?_eq_some_iff.mp hvalue
        cases h
        refine ⟨⟨left, right, word, ?_, hword, htrim ▸ Text.pads_trimChars right, hraw⟩, ?_⟩
        · rw [String.toList_ofList]
          exact Text.pads_trimChars left
        · rw [Text.trim, String.toList_ofList, Text.trimChars_trimChars]
      · cases h
  · rintro ⟨⟨left, right, word, hleft, hword, hright, hraw⟩, htrim⟩
    have hsplit : splitAtLastEquals raw.toList = some (left, right) :=
      splitAtLastEquals_eq_some_iff.mpr ⟨hraw, not_mem_of_pads hword hright⟩
    have hvalue : truthValue? (Text.trimChars right) = some b :=
      truthValue?_eq_some_iff.mpr
        ⟨word, hword, hright.trimChars_eq.trans (trimChars_truthWord hword)⟩
    rw [parseAssumption, hsplit]
    simp only [hvalue]
    rw [hleft.trimChars_eq]
    exact congrArg (fun e => Except.ok (e, b)) htrim

theorem Gives.trim {raw e : String} {b : Bool} (h : Gives raw e b) : Gives raw (Text.trim e) b := by
  obtain ⟨left, right, word, hleft, hword, hright, hraw⟩ := h
  refine ⟨left, right, word, Text.Pads.trans ?_ hleft, hword, hright, hraw⟩
  rw [Text.trim, String.toList_ofList]
  exact Text.pads_trimChars e.toList

/-- Every argument of this form is an assumption. -/
theorem Gives.parseAssumption_eq {raw e : String} {b : Bool} (h : Gives raw e b) :
    parseAssumption raw = .ok (Text.trim e, b) :=
  parseAssumption_eq_ok_iff.mpr ⟨h.trim, Text.trim_trim e⟩

/-! ## Several assumptions -/

/-- The last argument that gives the expression a truth value gives it this one. -/
def LastGives (raws : List String) (e : String) (b : Bool) : Prop :=
  ∃ before raw behind, raws = before ++ raw :: behind ∧ Gives raw e b ∧
    ∀ later ∈ behind, ¬ Gives later e (!b)

/-- The assumptions that arguments are read as, in their order. -/
def ReadAs (raws : List String) (assumptions : List Assumption) : Prop :=
  List.Forall₂ (fun raw a => parseAssumption raw = .ok a) raws assumptions

theorem exists_readAs {raws : List String} (h : ∀ raw ∈ raws, ∃ e b, Gives raw e b) :
    ∃ assumptions, ReadAs raws assumptions := by
  induction raws with
  | nil => exact ⟨[], .nil⟩
  | cons raw raws ih =>
    obtain ⟨⟨e, b, hraw⟩, hrest⟩ := List.forall_mem_cons.mp h
    obtain ⟨assumptions, hread⟩ := ih hrest
    exact ⟨_, .cons hraw.parseAssumption_eq hread⟩

theorem ReadAs.exists_of_mem {raws : List String} {assumptions : List Assumption}
    (h : ReadAs raws assumptions) {a : Assumption} (ha : a ∈ assumptions) :
    ∃ raw ∈ raws, parseAssumption raw = .ok a := by
  induction h with
  | nil => cases ha
  | @cons raw b raws assumptions hraw hrest ih =>
    rcases List.mem_cons.mp ha with rfl | ha
    · exact ⟨raw, List.mem_cons_self, hraw⟩
    · exact (ih ha).imp fun _ hread => hread.imp_left (List.mem_cons_of_mem raw)

/-- Each argument behind an `--assume=` adds its assumption. -/
theorem Arguments.addAll_assume {raws : List String} {assumptions : List Assumption}
    (h : ReadAs raws assumptions) (a : Arguments) :
    a.addAll raws.length (raws.map ("--assume=" ++ ·)) =
      .ok { a with assumptions := a.assumptions ++ assumptions } := by
  induction h generalizing a with
  | nil => simp [addAll]
  | @cons raw assumption raws assumptions hraw hrest ih =>
    have hoption : isOption ("--assume=" ++ raw) = true := by
      simp [isOption, String.toList_append]
    have hafter : after? "--assume=" ("--assume=" ++ raw) = some raw := by
      have hlength : "--assume=".length = 9 := rfl
      simp [after?, String.toList_append, hlength]
    have hadd : a.add ("--assume=" ++ raw) (raws.map ("--assume=" ++ ·)) =
        .ok ({ a with assumptions := a.assumptions ++ [assumption] },
          raws.map ("--assume=" ++ ·)) := by
      simp [add, hoption, hafter, addAssumption, hraw, Except.map]
    have hne : "--assume=" ++ raw ≠ "--" := fun heq => by
      simpa [String.toList_append] using congrArg String.toList heq
    rw [List.map_cons, List.length_cons, addAll, if_neg hne, hadd]
    simp only [bind, Except.bind]
    rw [ih]
    simp

end CommandLine

namespace Answers

open CommandLine (LastGives ReadAs parseAssumption_eq_ok_iff)
open Compiled (Replies)

/-- Where the answers by text are those of the questions, they are given whatever was asked. -/
theorem replies_ofAssumptions {assumptions : List (String × Bool)} {qs : List Compiled.Question}
    (h : ∀ q ∈ qs, (ofAssumptions assumptions).textual q.condition.expression.source = q.answer)
    (asked : List String) : ∃ last, Replies (ofAssumptions assumptions).ask asked qs last := by
  induction qs generalizing asked with
  | nil => exact ⟨asked, rfl⟩
  | cons q qs ih =>
    obtain ⟨hq, hqs⟩ := List.forall_mem_cons.mp h
    obtain ⟨last, hlast⟩ := ih hqs (q.condition.expression.source :: asked)
    exact ⟨last, _, congrArg (·, _) hq, hlast⟩

theorem textual_of_last {before behind : List (String × Bool)} {e : String} {b : Bool}
    (h : ∀ a ∈ behind, a.1 = e → a.2 = b) :
    (ofAssumptions (before ++ (e, b) :: behind)).textual e = b := by
  simp only [textual, ofAssumptions, List.reverse_append, List.reverse_cons, List.append_assoc,
    List.find?_append]
  cases hfind : behind.reverse.find? (·.1 == e) with
  | none => simp
  | some a =>
    have hname : a.1 = e := by simpa using List.find?_some hfind
    have hmem : a ∈ behind := List.mem_reverse.mp (List.mem_of_find?_eq_some hfind)
    simpa using h a hmem hname

theorem textual_of_lastGives {raws : List String} {assumptions : List (String × Bool)} {e : String}
    {b : Bool} (hread : ReadAs raws assumptions) (hlast : LastGives raws e b)
    (he : Text.trim e = e) : (ofAssumptions assumptions).textual e = b := by
  obtain ⟨before, raw, behind, rfl, hraw, hlater⟩ := hlast
  have hdrop := List.forall₂_drop_append assumptions before (raw :: behind) hread.flip
  obtain ⟨a, rest, ha, hrest, hassumptions⟩ := List.forall₂_cons_right_iff.mp hdrop
  obtain rfl : a = (e, b) := Except.ok.inj
    (ha.symm.trans (parseAssumption_eq_ok_iff.mpr ⟨hraw, he⟩))
  rw [← List.take_append_drop before.length assumptions, hassumptions]
  refine textual_of_last fun a ha hname => ?_
  obtain ⟨later, hmem, hparse⟩ := ReadAs.exists_of_mem hrest.flip ha
  obtain ⟨_, value⟩ := a
  obtain rfl : _ = e := hname
  have hgives := (parseAssumption_eq_ok_iff.mp hparse).1
  by_contra hvalue
  exact hlater later hmem (Bool.eq_not.mpr hvalue ▸ hgives)

/-- Assumptions that agree with a truth assignment on the expressions of a template make the same
pass. -/
theorem render_ofAssumptions {c : CompiledTemplate} {assumptions : List (String × Bool)}
    {truth : String → Bool}
    (h : ∀ e ∈ c.expressions, (ofAssumptions assumptions).textual e.source = truth e.source) :
    ((c.render (ofAssumptions assumptions).ask).run []).1 = (c.observe truth).1 := by
  obtain ⟨qs, ids, ⟨⟩, hpass, htruth⟩ :=
    Compiled.exists_passes (Evaluator.ofTruth truth) (Compiled.childrenAt [] c.nodes) ()
  have hsame : ∀ q ∈ qs, (ofAssumptions assumptions).textual q.condition.expression.source =
      q.answer := by
    intro q hq
    have hmem := CompiledTemplate.mem_expressions (hpass.orderly.entries q hq)
    exact (h _ hmem).trans (Compiled.replies_ofTruth.mp htruth q hq)
  obtain ⟨last, hreplies⟩ := replies_ofAssumptions hsame []
  rw [(CompiledTemplate.run_render hpass hreplies).1, CompiledTemplate.observe,
    (CompiledTemplate.run_render hpass htruth).2]

end Answers

namespace CommandLine

/-- Every truth assignment can be given by arguments. Each argument is read as the expression and
the truth value that it gives, whatever characters are in the expression. When the arguments end up
giving each expression of a template its truth value, the pass under them renders what the pass
under the assignment renders, and makes the same refs live. -/
theorem liveRefs_of_assumed {options : Options} {source : String} {c : CompiledTemplate}
    (h : compileSource options source = .ok c) (truth : String → Bool) {raws : List String}
    (hraws : ∀ raw ∈ raws, ∃ e b, Gives raw e b)
    (htruth : ∀ e ∈ c.expressions, LastGives raws e.source (truth e.source)) :
    (∀ raw e b, Gives raw e b → parseAssumption raw = .ok (Text.trim e, b)) ∧
      (∀ e ∈ c.expressions, ∀ raw b, Gives raw e.source b →
        parseAssumption raw = .ok (e.source, b)) ∧
      ∃ assumptions, ReadAs raws assumptions ∧
        Arguments.parse (raws.map ("--assume=" ++ ·)) =
          .ok { Arguments.empty with assumptions := assumptions } ∧
        ((c.render (Answers.ofAssumptions assumptions).ask).run []).1 = (c.observe truth).1 ∧
        liveRefs c assumptions = c.boundBy (fun _ => ()) truth := by
  have htrim := trim_of_mem_expressions h
  obtain ⟨assumptions, hread⟩ := exists_readAs hraws
  have hanswers : ∀ e ∈ c.expressions,
      (Answers.ofAssumptions assumptions).textual e.source = truth e.source := fun e he =>
    Answers.textual_of_lastGives hread (htruth e he) (htrim e he)
  have hrendered := Answers.render_ofAssumptions hanswers
  refine ⟨fun raw e b => Gives.parseAssumption_eq, fun e he raw b hgives => ?_, assumptions, hread,
    ?_, hrendered, ?_⟩
  · rw [hgives.parseAssumption_eq, htrim e he]
  · simpa [Arguments.parse, Arguments.empty] using Arguments.addAll_assume hread .empty
  · rw [liveRefs, CompiledTemplate.boundBy, hrendered]

/-- An expression with a `=` in it and an empty one. The second is assumed false, and then true. -/
def assumedTwice : List String :=
  ["=0", " a=b = false ", "=\u00a01"]

/-- The pass under these assumptions renders the first element. -/
theorem liveRefs_of_assumedTwice :
    ∃ c, compileSource .standard "<p if:false={a=b} ref='r'/><q elseif:true={ }/>" = .ok c ∧
      (∀ raw ∈ assumedTwice, ∃ e b, Gives raw e b) ∧
      (∀ e ∈ c.expressions, LastGives assumedTwice e.source (e.source == "")) ∧
      ∃ assumptions, ReadAs assumedTwice assumptions ∧
        (liveRefs c assumptions).node? "r" = some 0 := by
  let phrases : List Phrase :=
    [.selfClosing ⟨⟨0, 1⟩, ⟨"p", ⟨1, 2⟩⟩,
        [.valued ⟨"if:false", ⟨3, 11⟩⟩ ⟨11, 12⟩ (.expression ⟨"a=b", ⟨12, 17⟩⟩),
          .valued ⟨"ref", ⟨18, 21⟩⟩ ⟨21, 22⟩ (.literal ⟨"r", ⟨22, 25⟩⟩)]⟩ ⟨25, 27⟩,
      .selfClosing ⟨⟨27, 28⟩, ⟨"q", ⟨28, 29⟩⟩,
        [.valued ⟨"elseif:true", ⟨30, 41⟩⟩ ⟨41, 42⟩ (.expression ⟨"", ⟨42, 45⟩⟩)]⟩ ⟨45, 47⟩]
  have hlex : Token.lex "<p if:false={a=b} ref='r'/><q elseif:true={ }/>" =
      Phrase.tokensAll phrases := by decide +kernel
  have hdistinct : Phrase.WellFormedAll phrases := by
    simp [phrases, Phrase.WellFormedAll, Phrase.WellFormed, TagPhrase.Distinct,
      AttributePhrase.name]
  have hparse := Template.parse_of_derives (by rw [hlex]; rfl) ⟨hlex.symm, hdistinct⟩
  let c : CompiledTemplate :=
    ⟨[.branch
      [(⟨⟨"a=b", ⟨12, 17⟩⟩, .negative⟩, .element 0 "p" [] (some "r") [] ⟨0, 27⟩),
        (⟨⟨"", ⟨42, 45⟩⟩, .positive⟩, .element 1 "q" [] none [] ⟨27, 47⟩)] none ⟨0, 47⟩]⟩
  have hcompile : compileSource .standard "<p if:false={a=b} ref='r'/><q elseif:true={ }/>" =
      .ok c := compileSource_eq_ok_iff.mpr ⟨_, hparse, rfl⟩
  have hfirst : Gives "=0" "" false :=
    (parseAssumption_eq_ok_iff.mp (by decide +kernel)).1
  have hsecond : Gives " a=b = false " "a=b" false :=
    (parseAssumption_eq_ok_iff.mp (by decide +kernel)).1
  have hthird : Gives "=\u00a01" "" true :=
    (parseAssumption_eq_ok_iff.mp (by decide +kernel)).1
  have hraws : ∀ raw ∈ assumedTwice, ∃ e b, Gives raw e b := by
    simp only [assumedTwice, List.forall_mem_cons]
    exact ⟨⟨_, _, hfirst⟩, ⟨_, _, hsecond⟩, ⟨_, _, hthird⟩, by simp⟩
  have hlast : ∀ e ∈ c.expressions, LastGives assumedTwice e.source (e.source == "") := by
    have hexpressions : c.expressions = [⟨"a=b", ⟨12, 17⟩⟩, ⟨"", ⟨42, 45⟩⟩] := rfl
    simp only [hexpressions, List.forall_mem_cons]
    refine ⟨⟨["=0"], _, ["=\u00a01"], rfl, hsecond, ?_⟩, ⟨["=0", " a=b = false "], _, [], rfl,
      hthird, by simp⟩, by simp⟩
    rw [List.forall_mem_singleton]
    intro hgives
    cases (hthird.parseAssumption_eq).symm.trans hgives.parseAssumption_eq
  obtain ⟨-, -, assumptions, hread, -, -, hlive⟩ :=
    liveRefs_of_assumed hcompile (· == "") hraws hlast
  refine ⟨c, hcompile, hraws, hlast, assumptions, hread, ?_⟩
  rw [hlive]
  decide

end CommandLine
end Stencil
