import Stencil.Node.Parser
import Stencil.Proofs.Token.Ascending

/-!
# What a token does

The moves of the reader, one for each way in which a token can be accepted, and its refusals. All
that holds along a reading follows from these. A parse is the nesting check, then a run of moves to
its end or to a refusal.
-/
namespace Stencil.Node.Reader

theorem finish_ok {span : Span} {tag : StartTag} {closing : Option String} {children : List Node}
    {n : Node} (h : finish span tag closing children = .ok n) :
    (∀ name ∈ closing, name = tag.name.value) ∧ tag.duplicate? = none ∧
      n = .element 0 span tag false children := by
  rw [finish] at h
  split at h
  · cases h
  · next hc =>
    split at h
    · cases h
    · next hd =>
      cases h
      refine ⟨?_, hd, rfl⟩
      intro name hn
      have hf := Option.filter_eq_none_iff.mp hc name hn
      simpa using hf

/-- A refused element has the wrong closing name, or else an attribute twice. -/
theorem finish_error {span : Span} {tag : StartTag} {closing : Option String}
    {children : List Node} {e : SyntaxError} (h : finish span tag closing children = .error e) :
    (∃ name ∈ closing, name ≠ tag.name.value ∧
        e = ⟨span, .mismatchedClosing name tag.name.value⟩) ∨
      (∀ name ∈ closing, name = tag.name.value) ∧
        ∃ name, tag.duplicate? = some name ∧
          e = ⟨span, .duplicateAttribute name tag.name.value⟩ := by
  rw [finish] at h
  split at h
  · next name hc =>
    cases h
    obtain ⟨hn, hne⟩ := Option.filter_eq_some_iff.mp hc
    exact .inl ⟨name, hn, by simpa using hne, rfl⟩
  · next hc =>
    split at h
    · next name hd =>
      cases h
      refine .inr ⟨?_, name, hd, rfl⟩
      intro name hn
      have hf := Option.filter_eq_none_iff.mp hc name hn
      simpa using hf
    · cases h

/-- What a token does to a reader that accepts it. -/
inductive Moves : Reader → Located Token → Reader → Prop where
  | text {stack : List Frame} {nodes : List Node} {span : Span} {s : String} :
    Moves ⟨stack, nodes, .content⟩ ⟨.text s, span⟩ ⟨stack, nodes ++ [.text 0 span s], .content⟩
  | comment {stack : List Frame} {nodes : List Node} {span : Span} {s : String} :
    Moves ⟨stack, nodes, .content⟩ ⟨.comment s, span⟩
      ⟨stack, nodes ++ [.comment 0 span s], .content⟩
  | opens {stack : List Frame} {nodes : List Node} {span : Span} :
    Moves ⟨stack, nodes, .content⟩ ⟨.tagOpen, span⟩ ⟨stack, nodes, .tagName span.start⟩
  | leaves {stack : List Frame} {nodes : List Node} {span : Span} (h : stack ≠ []) :
    Moves ⟨stack, nodes, .content⟩ ⟨.closeTagOpen, span⟩ ⟨stack, nodes, .closingName⟩
  | tagName {stack : List Frame} {nodes : List Node} {start : Nat} {span : Span} {name : String} :
    Moves ⟨stack, nodes, .tagName start⟩ ⟨.name name, span⟩
      ⟨stack, nodes, .attributes start ⟨⟨name, span⟩, []⟩ none⟩
  | bareName {stack : List Frame} {nodes : List Node} {start : Nat} {tag : StartTag}
      {bare : Option (Located String)} {span : Span} {name : String} :
    Moves ⟨stack, nodes, .attributes start tag bare⟩ ⟨.name name, span⟩
      ⟨stack, nodes, .attributes start (addBare tag bare) (some ⟨name, span⟩)⟩
  | equals {stack : List Frame} {nodes : List Node} {start : Nat} {tag : StartTag}
      {name : Located String} {span : Span} :
    Moves ⟨stack, nodes, .attributes start tag (some name)⟩ ⟨.equals, span⟩
      ⟨stack, nodes, .value start tag name⟩
  | literal {stack : List Frame} {nodes : List Node} {start : Nat} {tag : StartTag}
      {name : Located String} {span : Span} {s : String} :
    Moves ⟨stack, nodes, .value start tag name⟩ ⟨.literal s, span⟩
      ⟨stack, nodes, .attributes start (addValued tag name ⟨.literal s, span⟩) none⟩
  | expression {stack : List Frame} {nodes : List Node} {start : Nat} {tag : StartTag}
      {name : Located String} {span : Span} {e : String} :
    Moves ⟨stack, nodes, .value start tag name⟩ ⟨.expression e, span⟩
      ⟨stack, nodes, .attributes start (addValued tag name ⟨.expression ⟨e, span⟩, span⟩) none⟩
  | enters {stack : List Frame} {nodes : List Node} {start : Nat} {tag : StartTag}
      {bare : Option (Located String)} {span : Span} :
    Moves ⟨stack, nodes, .attributes start tag bare⟩ ⟨.tagClose, span⟩
      ⟨⟨start, addBare tag bare, nodes⟩ :: stack, [], .content⟩
  | closesItself {stack : List Frame} {nodes : List Node} {start : Nat} {tag : StartTag}
      {bare : Option (Located String)} {span : Span} (h : (addBare tag bare).duplicate? = none) :
    Moves ⟨stack, nodes, .attributes start tag bare⟩ ⟨.selfClose, span⟩
      ⟨stack, nodes ++ [.element 0 ⟨start, span.stop⟩ (addBare tag bare) false []], .content⟩
  | closingName {stack : List Frame} {nodes : List Node} {span : Span} {name : String} :
    Moves ⟨stack, nodes, .closingName⟩ ⟨.name name, span⟩
      ⟨stack, nodes, .closingEnd ⟨name, span⟩⟩
  | closes {stack : List Frame} {frame : Frame} {nodes : List Node} {name : Located String}
      {span : Span} (hname : name.value = frame.tag.name.value)
      (h : frame.tag.duplicate? = none) :
    Moves ⟨frame :: stack, nodes, .closingEnd name⟩ ⟨.tagClose, span⟩
      ⟨stack, frame.before ++ [.element 0 ⟨frame.start, span.stop⟩ frame.tag false nodes], .content⟩

/-- How a reader refuses a token: it cannot come next, or it ends a faulty element. -/
inductive Refuses : Reader → Located Token → SyntaxError → Prop where
  | unexpected {r : Reader} {t : Located Token} :
    Refuses r t ⟨t.span, .unexpected (some t.value) r.expected⟩
  | closesItself {stack : List Frame} {nodes : List Node} {start : Nat} {tag : StartTag}
      {bare : Option (Located String)} {span : Span} {e : SyntaxError}
      (h : finish ⟨start, span.stop⟩ (addBare tag bare) none [] = .error e) :
    Refuses ⟨stack, nodes, .attributes start tag bare⟩ ⟨.selfClose, span⟩ e
  | closes {stack : List Frame} {frame : Frame} {nodes : List Node} {name : Located String}
      {span : Span} {e : SyntaxError}
      (h : finish ⟨frame.start, span.stop⟩ frame.tag (some name.value) nodes = .error e) :
    Refuses ⟨frame :: stack, nodes, .closingEnd name⟩ ⟨.tagClose, span⟩ e

theorem step_cases (r : Reader) (t : Located Token) :
    (∃ r', r.step t = .ok r' ∧ Moves r t r') ∨ ∃ e, r.step t = .error e ∧ Refuses r t e := by
  obtain ⟨stack, nodes, phase⟩ := r
  obtain ⟨value, span⟩ := t
  cases phase with
  | content =>
    cases value with
    | text s => exact .inl ⟨_, rfl, .text⟩
    | comment s => exact .inl ⟨_, rfl, .comment⟩
    | tagOpen => exact .inl ⟨_, rfl, .opens⟩
    | closeTagOpen =>
      cases stack with
      | nil => exact .inr ⟨_, rfl, .unexpected⟩
      | cons frame stack => exact .inl ⟨_, rfl, .leaves (by simp)⟩
    | _ => exact .inr ⟨_, rfl, .unexpected⟩
  | tagName start =>
    cases value with
    | name n => exact .inl ⟨_, rfl, .tagName⟩
    | _ => exact .inr ⟨_, rfl, .unexpected⟩
  | attributes start tag bare =>
    cases value with
    | name n => exact .inl ⟨_, rfl, .bareName⟩
    | equals =>
      cases bare with
      | none => exact .inr ⟨_, rfl, .unexpected⟩
      | some name => exact .inl ⟨_, rfl, .equals⟩
    | tagClose => exact .inl ⟨_, rfl, .enters⟩
    | selfClose =>
      cases hf : finish ⟨start, span.stop⟩ (addBare tag bare) none [] with
      | ok n =>
        obtain ⟨-, hd, rfl⟩ := finish_ok hf
        exact .inl ⟨_, by simp only [step, hf]; rfl, .closesItself hd⟩
      | error e => exact .inr ⟨e, by simp only [step, hf]; rfl, .closesItself hf⟩
    | _ => exact .inr ⟨_, rfl, .unexpected⟩
  | value start tag name =>
    cases value with
    | literal s => exact .inl ⟨_, rfl, .literal⟩
    | expression e => exact .inl ⟨_, rfl, .expression⟩
    | _ => exact .inr ⟨_, rfl, .unexpected⟩
  | closingName =>
    cases value with
    | name n => exact .inl ⟨_, rfl, .closingName⟩
    | _ => exact .inr ⟨_, rfl, .unexpected⟩
  | closingEnd name =>
    cases value with
    | tagClose =>
      cases stack with
      | nil => exact .inr ⟨_, rfl, .unexpected⟩
      | cons frame stack =>
        cases hf : finish ⟨frame.start, span.stop⟩ frame.tag (some name.value) nodes with
        | ok n =>
          obtain ⟨hn, hd, rfl⟩ := finish_ok hf
          exact .inl ⟨_, by simp only [step, hf]; rfl, .closes (hn _ rfl) hd⟩
        | error e => exact .inr ⟨e, by simp only [step, hf]; rfl, .closes hf⟩
    | _ => exact .inr ⟨_, rfl, .unexpected⟩

theorem run_of_step_ok {r s : Reader} {t : Located Token} (h : r.step t = .ok s)
    (ts : List (Located Token)) : r.run (t :: ts) = s.run ts := by
  rw [run, h]
  rfl

theorem run_of_step_error {r : Reader} {t : Located Token} {e : SyntaxError}
    (h : r.step t = .error e) (ts : List (Located Token)) : r.run (t :: ts) = .error e := by
  rw [run, h]
  rfl

theorem run_append (r : Reader) (ts us : List (Located Token)) :
    r.run (ts ++ us) = (r.run ts).bind (·.run us) := by
  induction ts generalizing r with
  | nil => rfl
  | cons t ts ih =>
    rw [List.cons_append, run, run]
    cases r.step t with
    | error e => rfl
    | ok s => exact ih s

theorem run_of_prefix {r r' : Reader} {u ts : List (Located Token)} (hu : u <+: ts)
    (h : r.run ts = .ok r') : ∃ s, r.run u = .ok s := by
  obtain ⟨rest, rfl⟩ := hu
  rw [run_append] at h
  cases hs : r.run u with
  | ok s => exact ⟨s, rfl⟩
  | error e =>
    rw [hs] at h
    cases h

theorem run_concat {r r' : Reader} {u : List (Located Token)} {t : Located Token}
    (h : r.run (u ++ [t]) = .ok r') : ∃ s, r.run u = .ok s ∧ s.step t = .ok r' := by
  obtain ⟨s, hs⟩ := run_of_prefix (List.prefix_append u [t]) h
  rw [run_append, hs] at h
  replace h : s.run [t] = .ok r' := h
  cases hstep : s.step t with
  | ok s' =>
    rw [run_of_step_ok hstep] at h
    cases h
    exact ⟨s, hs, hstep⟩
  | error e => cases (run_of_step_error hstep []).symm.trans h

/-- What every move keeps, a run keeps. -/
theorem run_invariant {P : Reader → List (Located Token) → Prop}
    (hmoves : ∀ {r r' t read}, P r read → Moves r t r' → P r' (read ++ [t])) {r r' : Reader}
    {read ts : List (Located Token)} (h : P r read) (hr : r.run ts = .ok r') :
    P r' (read ++ ts) := by
  induction ts generalizing r read with
  | nil =>
    cases hr
    rwa [List.append_nil]
  | cons t ts ih =>
    rcases step_cases r t with ⟨s, hs, hm⟩ | ⟨e, he, -⟩
    · rw [run_of_step_ok hs] at hr
      rw [List.append_cons]
      exact ih (hmoves h hm) hr
    · rw [run_of_step_error he] at hr
      cases hr

/-- A run ends at the first token that is refused. -/
theorem run_error {r : Reader} {ts : List (Located Token)} {e : SyntaxError}
    (h : r.run ts = .error e) :
    ∃ u t rest s, ts = u ++ t :: rest ∧ r.run u = .ok s ∧ s.step t = .error e ∧ Refuses s t e := by
  induction ts generalizing r with
  | nil => cases h
  | cons t ts ih =>
    rcases step_cases r t with ⟨s, hs, -⟩ | ⟨f, hf, hrefuses⟩
    · rw [run_of_step_ok hs] at h
      obtain ⟨u, t', rest, s', rfl, hu, hrest⟩ := ih h
      exact ⟨t :: u, t', rest, s', rfl, by rw [run_of_step_ok hs, hu], hrest⟩
    · cases (run_of_step_error hf ts).symm.trans h
      exact ⟨[], t, ts, r, rfl, rfl, hf, hrefuses⟩

/-- Between nodes, and no element is open. -/
def Finished (r : Reader) : Prop :=
  r.phase = .content ∧ r.stack = []

theorem close_ok {r : Reader} (h : r.Finished) (length lastStop : Nat) :
    r.close length lastStop = .ok r.nodes := by
  rw [close, h.1, h.2]

theorem close_error {r : Reader} (h : ¬ r.Finished) (length lastStop : Nat) :
    r.close length lastStop = .error ⟨⟨length, lastStop⟩, .unexpected none r.expected⟩ := by
  obtain ⟨stack, nodes, phase⟩ := r
  cases phase with
  | content =>
    cases stack with
    | nil => exact absurd ⟨rfl, rfl⟩ h
    | cons frame stack => rfl
  | _ => rfl

end Stencil.Node.Reader

namespace Stencil.Template

open Node (Reader)

/-- The ways in which a parse can go. -/
inductive Parse (source : String) : Except SyntaxError Template → Prop where
  | nested {e : SyntaxError} (h : Nesting.check (Token.lex source) = .error e) :
    Parse source (.error e)
  | refused {e : SyntaxError} (hn : Nesting.check (Token.lex source) = .ok ())
      (h : Reader.start.run (Token.lex source) = .error e) : Parse source (.error e)
  | unfinished {r : Reader} (hn : Nesting.check (Token.lex source) = .ok ())
      (h : Reader.start.run (Token.lex source) = .ok r) (hr : ¬ r.Finished) :
    Parse source (.error ⟨⟨source.utf8ByteSize, Token.lastStop 0 (Token.lex source)⟩,
      .unexpected none r.expected⟩)
  | finished {r : Reader} (hn : Nesting.check (Token.lex source) = .ok ())
      (h : Reader.start.run (Token.lex source) = .ok r) (hr : r.Finished) :
    Parse source (.ok (number r.nodes))

theorem parse_spec (source : String) : Parse source (parse source) := by
  cases hn : Nesting.check (Token.lex source) with
  | error e =>
    have hp : parse source = .error e := by
      simp only [parse, hn]
      rfl
    exact hp ▸ .nested hn
  | ok u =>
    have hp : parse source =
        (ofTokens source.utf8ByteSize (Token.lex source)).map number := by
      simp only [parse, hn]
      rfl
    rw [hp, ofTokens]
    cases h : Reader.start.run (Token.lex source) with
    | error e => exact .refused hn h
    | ok r =>
      by_cases hr : r.Finished
      · simp only [Except.bind, Reader.close_ok hr]
        exact .finished hn h hr
      · simp only [Except.bind, Reader.close_error hr]
        exact .unfinished hn h hr

end Stencil.Template
