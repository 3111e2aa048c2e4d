import Stencil.Proofs.Nesting
import Stencil.Proofs.Node.Reading
import Stencil.Proofs.Token.Segments

/-!
# How deep a template may be

The nesting check counts where start tags end and closing tags begin. On the tokens of a derivation
its count is the number of elements around a place, except that an element which closes itself is
never counted. So such an element may stand inside as many others as the limit allows, one level
deeper than an element with a closing tag.
-/
namespace Stencil

namespace Node

mutual
/-- For each node of a tree, depth first, how many elements are on the path to it, itself included,
where `above` of them are above the tree. -/
def pathLengths (above : Nat) : Node → List Nat
  | element _ _ _ _ children => (above + 1) :: pathLengthsAll (above + 1) children
  | text .. => [above]
  | comment .. => [above]

def pathLengthsAll (above : Nat) : List Node → List Nat
  | [] => []
  | n :: ns => n.pathLengths above ++ pathLengthsAll above ns
end

end Node

namespace Phrase

/-- How deep an element is, itself included, and whether it closes itself. -/
structure Level where
  depth : Nat
  closesItself : Bool
  deriving DecidableEq, Repr

mutual
/-- The levels of all elements, depth first, where `above` elements are around the phrase. -/
def levels (above : Nat) : Phrase → List Level
  | text _ => []
  | comment _ => []
  | selfClosing _ _ => [⟨above + 1, true⟩]
  | enclosing _ _ children _ _ _ => ⟨above + 1, false⟩ :: levelsAll (above + 1) children

def levelsAll (above : Nat) : List Phrase → List Level
  | [] => []
  | p :: ps => p.levels above ++ levelsAll above ps
end

/-- The longest paths of a tree lead to elements. -/
theorem pathLengths_le_iff {above high : Nat} (habove : above ≤ high) (ps : List Phrase) :
    (∀ d ∈ Node.pathLengthsAll above (treeAll ps), d ≤ high) ↔
      ∀ l ∈ levelsAll above ps, l.depth ≤ high := by
  induction ps using list_induction generalizing above with
  | nil => simp [treeAll, levelsAll, Node.pathLengthsAll]
  | text content ps ih | comment content ps ih =>
    simpa [treeAll, tree, levelsAll, levels, Node.pathLengthsAll, Node.pathLengths, habove]
      using ih habove
  | selfClosing tag close ps ih =>
    simp [treeAll, tree, levelsAll, levels, Node.pathLengthsAll, Node.pathLengths, ih habove]
  | enclosing tag enter children leave name close ps ihc ih =>
    simp only [treeAll, tree, levelsAll, levels, Node.pathLengthsAll, Node.pathLengths,
      List.forall_mem_append, List.forall_mem_cons, ih habove]
    refine and_congr_left fun _ => and_congr_right fun hlt => ?_
    exact ihc hlt

end Phrase

namespace Nesting

open Phrase

/-- In a start tag only its `<` counts. -/
theorem run_tag (depth : Nat) (tag : TagPhrase) (ts : List (Located Token)) :
    run ⟨depth, none⟩ (tag.tokens ++ ts) = run ⟨depth, some tag.opening.start⟩ ts := by
  have hattributes (as : List AttributePhrase) :
      run ⟨depth, some tag.opening.start⟩ (as.flatMap (·.tokens) ++ ts) =
        run ⟨depth, some tag.opening.start⟩ ts := by
    induction as with
    | nil => rfl
    | cons a as ih =>
      rw [List.flatMap_cons, List.append_assoc]
      cases a with
      | bare name => exact ih
      | valued name equals v => cases v <;> exact ih
  exact hattributes tag.attributes

/-- No element with a closing tag is deeper than the limit. -/
def Allows (levels : List Level) : Prop :=
  ∀ l ∈ levels, l.closesItself = false → l.depth ≤ limit

theorem allows_enclosing {depth : Nat} {below : List Level} :
    Allows (⟨depth, false⟩ :: below) ↔ depth ≤ limit ∧ Allows below := by
  simp [Allows]

theorem allows_append {a b : List Level} : Allows (a ++ b) ↔ Allows a ∧ Allows b :=
  List.forall_mem_append

mutual
/-- The check passes a phrase that it allows, and counts on as before. -/
theorem run_of_allows {depth : Nat} {p : Phrase} (h : Allows (p.levels depth))
    (ts : List (Located Token)) :
    run ⟨depth, none⟩ (p.tokens ++ ts) = run ⟨depth, none⟩ ts := by
  cases p with
  | text content => rfl
  | comment content => rfl
  | selfClosing tag close =>
    rw [tokens, List.append_assoc, run_tag]
    rfl
  | enclosing tag enter children leave name close =>
    obtain ⟨hd, hchildren⟩ := allows_enclosing.mp h
    have hstep : step ⟨depth, some tag.opening.start⟩ ⟨.tagClose, enter⟩ =
        .ok ⟨depth + 1, none⟩ := if_pos hd
    rw [tokens, List.append_assoc, run_tag, List.cons_append, run, hstep, List.append_assoc]
    exact run_of_allowsAll hchildren _

theorem run_of_allowsAll {depth : Nat} {ps : List Phrase} (h : Allows (levelsAll depth ps))
    (ts : List (Located Token)) :
    run ⟨depth, none⟩ (tokensAll ps ++ ts) = run ⟨depth, none⟩ ts := by
  cases ps with
  | nil => rfl
  | cons p ps =>
    obtain ⟨hp, hps⟩ := allows_append.mp h
    rw [tokensAll, List.append_assoc, run_of_allows hp, run_of_allowsAll hps]
end

mutual
/-- The check refuses a phrase that it does not allow. -/
theorem run_of_not_allows {depth : Nat} {p : Phrase} (h : ¬ Allows (p.levels depth))
    (ts : List (Located Token)) : ∃ e, run ⟨depth, none⟩ (p.tokens ++ ts) = .error e := by
  cases p with
  | text content => exact absurd (by simp [Allows, levels]) h
  | comment content => exact absurd (by simp [Allows, levels]) h
  | selfClosing tag close => exact absurd (by simp [Allows, levels]) h
  | enclosing tag enter children leave name close =>
    rw [tokens, List.append_assoc, run_tag, List.cons_append, run, List.append_assoc]
    by_cases hd : depth < limit
    · have hstep : step ⟨depth, some tag.opening.start⟩ ⟨.tagClose, enter⟩ =
          .ok ⟨depth + 1, none⟩ := if_pos hd
      rw [hstep]
      exact run_of_not_allowsAll (fun hc => h (allows_enclosing.mpr ⟨hd, hc⟩)) _
    · have hstep : step ⟨depth, some tag.opening.start⟩ ⟨.tagClose, enter⟩ =
          .error ⟨⟨tag.opening.start, enter.stop⟩, .nestedDeeper limit⟩ := if_neg hd
      rw [hstep]
      exact ⟨_, rfl⟩

theorem run_of_not_allowsAll {depth : Nat} {ps : List Phrase}
    (h : ¬ Allows (levelsAll depth ps)) (ts : List (Located Token)) :
    ∃ e, run ⟨depth, none⟩ (tokensAll ps ++ ts) = .error e := by
  cases ps with
  | nil => exact absurd (by simp [Allows, levelsAll]) h
  | cons p ps =>
    rw [tokensAll, List.append_assoc]
    by_cases hp : Allows (p.levels depth)
    · rw [run_of_allows hp]
      exact run_of_not_allowsAll (fun hps => h (allows_append.mpr ⟨hp, hps⟩)) ts
    · exact run_of_not_allows hp _
end

/-- On a derivation the check asks for the depth of the elements with closing tags. -/
theorem check_ok_iff {ps : List Phrase} {ts : List (Located Token)} (h : Derives ps ts) :
    check ts = .ok () ↔ Allows (levelsAll 0 ps) := by
  rw [check, start, ← h.tokens, ← List.append_nil (tokensAll ps)]
  by_cases ha : Allows (levelsAll 0 ps)
  · rw [run_of_allowsAll ha]
    exact iff_of_true rfl ha
  · obtain ⟨e, he⟩ := run_of_not_allowsAll ha []
    rw [he]
    exact iff_of_false (fun hok => by cases hok) ha

end Nesting

namespace Template

open Phrase (Derives levelsAll treeAll)
open Token (lexFrom)

/-- A source that derives from the grammar is a template when its elements with closing tags are no
deeper than the limit, and otherwise it is refused for that. Elements that close themselves do not
count: with them, no path of the tree would have more elements than the limit. -/
theorem parse_ok_iff_levels {source : String} {ps : List Phrase}
    (h : Derives ps (Token.lex source)) :
    ((∃ t, parse source = .ok t) ↔
        ∀ l ∈ levelsAll 0 ps, l.closesItself = false → l.depth ≤ Nesting.limit) ∧
      ((∀ d ∈ Node.pathLengthsAll 0 (treeAll ps), d ≤ Nesting.limit) ↔
        ∀ l ∈ levelsAll 0 ps, l.depth ≤ Nesting.limit) ∧
      ∀ e, parse source = .error e → e.cause = .nestedDeeper Nesting.limit := by
  refine ⟨?_, Phrase.pathLengths_le_iff (Nat.zero_le _) ps, ?_⟩
  · refine Iff.trans ?_ (Nesting.check_ok_iff h)
    exact ⟨fun ⟨t, ht⟩ => (derives_of_parse ht).1, fun hn => ⟨_, parse_of_derives hn h⟩⟩
  · intro e he
    have hp := parse_spec source
    rw [he] at hp
    cases hp with
    | nested hn => exact (Nesting.within_of_check (Token.ascending_lex source) hn).2
    | refused hn _ => cases (parse_of_derives hn h).symm.trans he
    | unfinished hn _ _ => cases (parse_of_derives hn h).symm.trans he

/-- Two levels, the inner one without a closing tag. -/
theorem parse_ok_twoLevels :
    ∃ ps, Derives ps (Token.lex "<a><b/></a>") ∧
      (∀ d ∈ Node.pathLengthsAll 0 (treeAll ps), d ≤ Nesting.limit) ∧
      ∃ t, parse "<a><b/></a>" = .ok t := by
  let ps : List Phrase :=
    [.enclosing ⟨⟨0, 1⟩, ⟨"a", ⟨1, 2⟩⟩, []⟩ ⟨2, 3⟩
      [.selfClosing ⟨⟨3, 4⟩, ⟨"b", ⟨4, 5⟩⟩, []⟩ ⟨5, 7⟩] ⟨7, 9⟩ ⟨"a", ⟨9, 10⟩⟩ ⟨10, 11⟩]
  have hlex : Token.lex "<a><b/></a>" = Phrase.tokensAll ps := by decide +kernel
  have hd : Derives ps (Token.lex "<a><b/></a>") :=
    ⟨hlex.symm, ⟨rfl, List.nodup_nil, ⟨List.nodup_nil, trivial⟩⟩, trivial⟩
  obtain ⟨hparse, hpaths, -⟩ := parse_ok_iff_levels hd
  exact ⟨ps, hd, hpaths.mpr (by decide), hparse.mpr (by decide)⟩

/-- An element that closes itself, inside `depth` others. -/
def wrapped : Nat → List Char
  | 0 => ['<', 'b', '/', '>']
  | depth + 1 => '<' :: 'b' :: '>' :: (wrapped depth ++ ['<', '/', 'b', '>'])

/-- How the three tags are lexed. -/
theorem lexFrom_tags (pos : Nat) (cs : List Char) :
    lexFrom .content pos ('<' :: 'b' :: '/' :: '>' :: cs) =
        ⟨.tagOpen, ⟨pos, pos + 1⟩⟩ :: ⟨.name "b", ⟨pos + 1, pos + 2⟩⟩ ::
          ⟨.selfClose, ⟨pos + 2, pos + 4⟩⟩ :: lexFrom .content (pos + 4) cs ∧
      lexFrom .content pos ('<' :: 'b' :: '>' :: cs) =
        ⟨.tagOpen, ⟨pos, pos + 1⟩⟩ :: ⟨.name "b", ⟨pos + 1, pos + 2⟩⟩ ::
          ⟨.tagClose, ⟨pos + 2, pos + 3⟩⟩ :: lexFrom .content (pos + 3) cs ∧
      lexFrom .content pos ('<' :: '/' :: 'b' :: '>' :: cs) =
        ⟨.closeTagOpen, ⟨pos, pos + 2⟩⟩ :: ⟨.name "b", ⟨pos + 2, pos + 3⟩⟩ ::
          ⟨.tagClose, ⟨pos + 3, pos + 4⟩⟩ :: lexFrom .content (pos + 4) cs := by
  have hsize : '<'.utf8Size = 1 ∧ '/'.utf8Size = 1 ∧ '>'.utf8Size = 1 ∧ 'b'.utf8Size = 1 := by
    decide
  have hblank : Token.isTagBlank '/' = false ∧ Token.isTagBlank '>' = false ∧
      Token.isTagBlank 'b' = false := by decide
  have hstart : Token.isNameStart '/' = false ∧ Token.isNameStart '>' = false ∧
      Token.isNameStart 'b' = true := by decide
  have hname : Token.isNameChar '/' = false ∧ Token.isNameChar '>' = false := by decide
  refine ⟨?_, ?_, ?_⟩ <;>
    simp [lexFrom, Token.Mode.piece, Token.contentPiece, Token.tagPiece, hsize, hblank, hstart,
      hname]

theorem phrase_of_wrapped (depth pos : Nat) (rest : List Char) :
    ∃ (p : Phrase) (stop : Nat),
      lexFrom .content pos (wrapped depth ++ rest) = p.tokens ++ lexFrom .content stop rest ∧
        p.WellFormed ∧ ∀ above, ⟨above + depth + 1, true⟩ ∈ p.levels above ∧
          ∀ l ∈ p.levels above, l.closesItself = false → l.depth ≤ above + depth := by
  induction depth generalizing pos rest with
  | zero =>
    refine ⟨.selfClosing ⟨⟨pos, pos + 1⟩, ⟨"b", ⟨pos + 1, pos + 2⟩⟩, []⟩ ⟨pos + 2, pos + 4⟩,
      pos + 4, (lexFrom_tags pos rest).1, List.nodup_nil, ?_⟩
    simp [Phrase.levels]
  | succ depth ih =>
    obtain ⟨p, stop, hlex, hp, hlevels⟩ := ih (pos + 3) (['<', '/', 'b', '>'] ++ rest)
    refine ⟨.enclosing ⟨⟨pos, pos + 1⟩, ⟨"b", ⟨pos + 1, pos + 2⟩⟩, []⟩ ⟨pos + 2, pos + 3⟩ [p]
      ⟨stop, stop + 2⟩ ⟨"b", ⟨stop + 2, stop + 3⟩⟩ ⟨stop + 3, stop + 4⟩, stop + 4, ?_,
      ⟨rfl, List.nodup_nil, hp, trivial⟩, ?_⟩
    · rw [wrapped, List.cons_append, List.cons_append, List.cons_append, List.append_assoc,
        (lexFrom_tags pos _).2.1, hlex]
      simp only [List.cons_append, List.nil_append, (lexFrom_tags stop rest).2.2]
      simp [Phrase.tokens, Phrase.tokensAll, TagPhrase.tokens, Token.ofName]
    · intro above
      obtain ⟨hmem, hall⟩ := hlevels (above + 1)
      rw [Phrase.levels, levelsAll, levelsAll, List.append_nil, List.forall_mem_cons]
      refine ⟨List.mem_cons_of_mem _ ?_, ?_, ?_⟩
      · have hdepth : above + (depth + 1) + 1 = above + 1 + depth + 1 := by omega
        rwa [hdepth]
      · intro _
        simp only
        omega
      · intro l hl hc
        have := hall l hl hc
        omega

/-- With one path longer than the limit, and still a template. -/
theorem parse_wrapped :
    ∃ ps, Derives ps (Token.lex (String.ofList (wrapped Nesting.limit))) ∧
      (∃ d ∈ Node.pathLengthsAll 0 (treeAll ps), Nesting.limit < d) ∧
      ∃ t, parse (String.ofList (wrapped Nesting.limit)) = .ok t := by
  obtain ⟨p, stop, hlex, hp, hlevels⟩ := phrase_of_wrapped Nesting.limit 0 []
  obtain ⟨hdeep, hallows⟩ := hlevels 0
  have hend : lexFrom .content stop [] = [] := by rw [lexFrom]
  have hd : Derives [p] (Token.lex (String.ofList (wrapped Nesting.limit))) := by
    rw [List.append_nil, hend] at hlex
    exact ⟨by rw [Token.lex, String.toList_ofList, hlex]; rfl, hp, trivial⟩
  have hlevels : levelsAll 0 [p] = p.levels 0 := List.append_nil _
  refine ⟨[p], hd, ?_, ?_⟩
  · by_contra hpaths
    have hall := (Phrase.pathLengths_le_iff (Nat.zero_le Nesting.limit) [p]).mp fun d hd =>
      Nat.le_of_not_lt fun hlt => hpaths ⟨d, hd, hlt⟩
    have hle := hall _ (hlevels ▸ hdeep)
    simp only at hle
    omega
  · refine ⟨_, parse_of_derives ((Nesting.check_ok_iff hd).mpr ?_) hd⟩
    rw [hlevels]
    intro l hl hc
    have hle := hallows l hl hc
    omega

end Template
end Stencil
