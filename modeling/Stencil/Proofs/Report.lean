import Stencil.CommandLine
import Stencil.Proofs.Compile.Places
import Stencil.Proofs.Node.Within

/-!
# Failures and their reports

A source that does not compile has a report of every error, since each error has a place in the
source. There is one exception: where the source breaks off inside a tag and blanks follow the last
token, the place of the error is reversed, and it cannot be shown.
-/
namespace Stencil

theorem Report.render?_isSome (source file : String) (span : Span) (message label : String) :
    (render? source file span message label).isSome = true ↔
      Text.charOffset source.toList span.start ≤ Text.charOffset source.toList span.stop := by
  simp only [render?]
  split
  · simpa
  · simpa using Nat.le_of_not_lt ‹_›

theorem Report.render?_within {source : String} {span : Span} (h : span.start ≤ span.stop)
    (file message label : String) :
    (render? source file span message label).isSome = true :=
  (render?_isSome source file span message label).mpr (Text.charOffset_mono _ h)

/-- Blanks at the end have characters of their own, so a span from the end back over them is
reversed in characters, too. -/
theorem Report.render?_reversed {source : String} (h : Token.EndsInBlanks source)
    (file message label : String) :
    render? source file ⟨source.utf8ByteSize, Token.lastStop 0 (Token.lex source)⟩ message label =
      none := by
  obtain ⟨read, blanks, hs, hne, -, hl⟩ := h
  have hlt := Text.charOffset_lt read hne
  rw [← hs, ← hl, Text.byteLength_toList] at hlt
  rw [← Option.not_isSome_iff_eq_none, render?_isSome, Nat.not_le]
  exact hlt

theorem CompileError.PointsAt.within {high : Nat} {n : Node} {e : CompileError}
    (he : e.PointsAt n) (hn : n.Within high) : e.span.Within high := by
  cases n with
  | element id span tag preserve children =>
    obtain ⟨-, -, hp⟩ := he
    rw [Cause.PointsInto] at hp
    split at hp
    · exact hp ▸ hn.2.1
    · obtain ⟨a, ha, -, hs⟩ := hp
      exact hs ▸ hn.2.2 a ha
  | text id span content => exact he.elim
  | comment id span content => exact he.elim

namespace SourceError

/-- The places of all errors. -/
def spans : SourceError → List Span
  | parse error => [error.span]
  | compile errors => errors.map (·.span)

theorem compileSource_error {options : Options} {source : String} {e : SourceError}
    (h : compileSource options source = .error e) :
    (∃ error, Template.parse source = .error error ∧ e = .parse error) ∨
      ∃ t errors, Template.parse source = .ok t ∧ t.compile options = .error errors ∧
        e = .compile errors := by
  cases hp : Template.parse source with
  | error error =>
    rw [compileSource, hp] at h
    cases h
    exact .inl ⟨error, rfl, rfl⟩
  | ok t =>
    cases hc : t.compile options with
    | error errors =>
      simp only [compileSource, hp, Except.mapError, bind, Except.bind, hc] at h
      cases h
      exact .inr ⟨t, errors, rfl, hc, rfl⟩
    | ok c =>
      simp only [compileSource, hp, Except.mapError, bind, Except.bind, hc] at h
      cases h

/-- The source breaks off too early, and behind blanks. -/
def IsCut (source : String) (e : SourceError) : Prop :=
  (∃ error, e = .parse error ∧ error.AtEnd) ∧ Token.EndsInBlanks source

theorem spans_of_isCut {options : Options} {source : String} {e : SourceError}
    (h : compileSource options source = .error e) (hc : e.IsCut source) :
    e.spans = [⟨source.utf8ByteSize, Token.lastStop 0 (Token.lex source)⟩] := by
  obtain ⟨⟨error, rfl, hend⟩, -⟩ := hc
  rcases compileSource_error h with ⟨f, hp, hf⟩ | ⟨t, errors, -, -, hf⟩
  · cases hf
    rcases Template.span_of_parse_error hp with ⟨-, hn⟩ | ⟨-, hs⟩
    · exact absurd hend hn
    · rw [spans, hs]
  · cases hf

/-- Otherwise every error has a place in the source. -/
theorem within_spans {options : Options} {source : String} {e : SourceError}
    (h : compileSource options source = .error e) (hc : ¬ e.IsCut source) :
    ∀ s ∈ e.spans, s.Within source.utf8ByteSize := by
  rcases compileSource_error h with ⟨error, hp, rfl⟩ | ⟨t, errors, hp, ht, rfl⟩
  · rw [spans, List.forall_mem_singleton]
    rcases Template.span_of_parse_error hp with ⟨hw, -⟩ | ⟨hend, hs⟩
    · exact hw
    · have hle := (Token.ascending_lex source).lastStop_le.2
      have hnot : ¬ Token.lastStop 0 (Token.lex source) < source.utf8ByteSize := by
        rw [← Token.endsInBlanks_iff]
        exact fun hb => hc ⟨⟨error, rfl, hend⟩, hb⟩
      rw [hs]
      exact ⟨by simp only; omega, hle⟩
  · intro s hs
    obtain ⟨e, he, rfl⟩ := List.mem_map.mp hs
    obtain ⟨n, hn, hpoints⟩ := Template.pointsAt_of_compile ht e he
    exact hpoints.within ((Template.withinAll_parse hp).numberAll n hn)

theorem report?_isSome {e : SourceError} (h : ∀ s ∈ e.spans, s.start ≤ s.stop)
    (source file : String) : (e.report? source file).isSome = true := by
  cases e with
  | parse error => exact Report.render?_within (h error.span (by simp [spans])) file _ _
  | compile errors =>
    rw [report?, Option.isSome_map]
    induction errors with
    | nil => rfl
    | cons e es ih =>
      simp only [spans, List.map_cons, List.forall_mem_cons] at h ih
      have hfirst : (e.report? source file).isSome = true := Report.render?_within h.1 file _ _
      obtain ⟨report, hr⟩ := Option.isSome_iff_exists.mp hfirst
      obtain ⟨reports, hrs⟩ := Option.isSome_iff_exists.mp (ih h.2)
      simp [List.mapM_cons, hr, hrs]

theorem report?_of_isCut {options : Options} {source : String} {e : SourceError}
    (h : compileSource options source = .error e) (hc : e.IsCut source) (file : String) :
    e.report? source file = none := by
  have hs := spans_of_isCut h hc
  obtain ⟨⟨error, rfl, -⟩, hb⟩ := hc
  rw [report?, SyntaxError.report?, List.singleton_inj.mp hs]
  exact Report.render?_reversed hb file _ _

end SourceError

namespace CommandLine

theorem outcome_source (e : SourceError) (text file : String) :
    (Failure.source e text file).outcome =
      ⟨if (e.report? text file).isSome then 1 else 101, "",
        (e.report? text file).elim "" (· ++ "\n")⟩ := rfl

/-- Once arguments, options and source are read, a failure to compile is the outcome. -/
theorem run_source_error {m : Type → Type} [Monad m] [LawfulMonad m]
    {read : Input → m (Except String String)} {arguments : List String} {a : Arguments}
    {options : Options} {text file : String} {e : SourceError}
    (ha : Arguments.parse arguments = .ok a) (ho : (a.options read).run = pure (.ok options))
    (hs : (a.source read).run = pure (.ok (text, file)))
    (he : compileSource options text = .error e) :
    run read arguments = pure (Failure.source e text file).outcome := by
  have hrun : (attempt read arguments).run = pure (.error (.source e text file)) := by
    simp [attempt, ha, ho, hs, he, ExceptT.run_bind]
  simp [run, hrun]

end CommandLine

namespace SourceError

open CommandLine in
/-- A source that does not compile has all its errors in places of its own, and a report of them,
which the command prints with status 1, except when the source breaks off behind blanks: then the
command crashes, with the status of a crash and no output. The text of the crash itself is no part
of the outcome. -/
theorem reported_iff {options : Options} {source : String} {e : SourceError}
    (h : compileSource options source = .error e) (file : String) :
    ((∀ s ∈ e.spans, s.Within source.utf8ByteSize) ↔ ¬ e.IsCut source) ∧
      ((e.report? source file).isSome = true ↔ ¬ e.IsCut source) ∧
      ∀ {m : Type → Type} [Monad m] [LawfulMonad m] (read : Input → m (Except String String))
        (arguments : List String) (a : Arguments), Arguments.parse arguments = .ok a →
        (a.options read).run = pure (.ok options) →
        (a.source read).run = pure (.ok (source, file)) →
        (e.IsCut source → run read arguments = pure ⟨101, "", ""⟩) ∧
          ∀ report, e.report? source file = some report →
            run read arguments = pure ⟨1, "", report ++ "\n"⟩ := by
  refine ⟨⟨?_, within_spans h⟩, ⟨?_, ?_⟩, ?_⟩
  · intro hw hc
    have hs := spans_of_isCut h hc
    have hlt := (Token.endsInBlanks_iff source).mp hc.2
    rw [hs, List.forall_mem_singleton] at hw
    exact absurd hw.1 (Nat.not_le.mpr hlt)
  · intro hr hc
    rw [report?_of_isCut h hc] at hr
    cases hr
  · intro hc
    exact report?_isSome (fun s hs => (within_spans h hc s hs).1) source file
  · intro m _ _ read arguments a ha ho hs
    rw [run_source_error ha ho hs h, outcome_source]
    constructor
    · intro hc
      rw [report?_of_isCut h hc file]
      rfl
    · intro report hr
      rw [hr]
      rfl

/-- A start tag that breaks off behind its name is reported. -/
theorem reported_tag :
    ∃ e report, compileSource .standard "<p" = .error e ∧ e.report? "<p" "<stdin>" = some report ∧
      CommandLine.run (fun _ => (pure (.ok "<p") : Id (Except String String))) [] =
        pure ⟨1, "", report ++ "\n"⟩ := by
  have hlex : Token.lex "<p" = [⟨.tagOpen, ⟨0, 1⟩⟩, ⟨.name "p", ⟨1, 2⟩⟩] := by decide +kernel
  have h : compileSource .standard "<p" =
      .error (.parse ⟨⟨2, 2⟩, .unexpected none ["attribute", "'/>'", "'>'"]⟩) := by
    simp only [compileSource, Template.parse, hlex]
    rfl
  obtain ⟨-, hreport, hrun⟩ := reported_iff h "<stdin>"
  have hc : ¬ IsCut "<p"
      (.parse ⟨⟨2, 2⟩, .unexpected none ["attribute", "'/>'", "'>'"]⟩) := by
    rintro ⟨-, hb⟩
    rw [Token.endsInBlanks_iff, hlex] at hb
    exact absurd hb (by decide)
  obtain ⟨report, hr⟩ := Option.isSome_iff_exists.mp (hreport.mpr hc)
  exact ⟨_, report, h, hr, (hrun _ [] .empty rfl rfl rfl).2 report hr⟩

/-- A start tag that breaks off behind a blank makes the command crash. -/
theorem unreported_tag :
    ∃ e, compileSource .standard "<div " = .error e ∧ e.spans = [⟨5, 4⟩] ∧
      e.report? "<div " "a.html" = none ∧
      (CommandLine.Failure.source e "<div " "a.html").outcome = ⟨101, "", ""⟩ := by
  have hlex : Token.lex "<div " = [⟨.tagOpen, ⟨0, 1⟩⟩, ⟨.name "div", ⟨1, 4⟩⟩] := by
    decide +kernel
  have h : compileSource .standard "<div " =
      .error (.parse ⟨⟨5, 4⟩, .unexpected none ["attribute", "'/>'", "'>'"]⟩) := by
    simp only [compileSource, Template.parse, hlex]
    rfl
  refine ⟨_, h, rfl, ?_, ?_⟩
  · decide
  · decide

end SourceError
end Stencil
