import Stencil.Proofs.Nesting
import Stencil.Proofs.Node.Moves
import Stencil.Proofs.Token.Spelling

/-!
# How deep a reader gets

The nesting check runs in front of the reader and knows nothing of the grammar. Along all that the
reader accepts, its depth is still the number of element bodies that the reader is inside, and its
pending tag is the start tag that the reader is in. So the limit bounds the stack of the reader on
every input, a malformed one too.
-/
namespace Stencil

open Node (Reader)
open Token (Mode Accounted)

namespace Nesting

/-- Between tags no start tag is pending, since only `>` and `/>` lead there. -/
def Settled (mode : Mode) (n : Nesting) : Prop :=
  mode = .content → n.pending = none

theorem Settled.after {mode : Mode} {n n' : Nesting} {t : Located Token} (h : Settled mode n)
    (hreads : mode.Reads t.value) (hstep : n.step t = .ok n') :
    Settled (mode.after t.value) n' := by
  obtain ⟨depth, pending⟩ := n
  obtain ⟨value, span⟩ := t
  cases value with
  | tagOpen | closeTagOpen | name _ | equals | literal _ | expression _ =>
    intro hcontent
    cases hcontent
  | text _ | comment _ =>
    cases hstep
    cases mode with
    | content => exact h
    | tag => exact hreads.elim
  | selfClose =>
    cases hstep
    exact fun _ => rfl
  | tagClose =>
    cases pending with
    | none =>
      cases hstep
      exact fun _ => rfl
    | some opened =>
      obtain ⟨-, rfl⟩ := step_enters hstep
      exact fun _ => rfl
  | invalid =>
    cases hstep
    exact h

/-- A `</` stands between tags, whatever has been read in front of it. -/
theorem Settled.pending_eq_none {source : List Char} {mode : Mode} {low high : Nat} {n n' : Nesting}
    {front back : List (Located Token)} {t : Located Token} (h : Settled mode n)
    (hts : Accounted source mode low high (front ++ t :: back)) (ht : t.value = .closeTagOpen)
    (hrun : n.run front = .ok n') : n'.pending = none := by
  induction front generalizing mode low n with
  | nil =>
    cases hrun
    have hreads := hts.2.1
    rw [ht] at hreads
    cases mode with
    | content => exact h rfl
    | tag => exact hreads.elim
  | cons u front ih =>
    obtain ⟨-, hreads, -, hrest⟩ := hts
    cases hstep : n.step u with
    | error e =>
      rw [run, hstep] at hrun
      cases hrun
    | ok m =>
      rw [run, hstep] at hrun
      exact ih (h.after hreads hstep) hrest hrun

end Nesting

namespace Node.Reader

/-- The elements whose start tag has ended with `>` and whose `</` has not been reached. -/
def bodies (r : Reader) : Nat :=
  match r.phase with
  | .content | .tagName _ | .attributes .. | .value .. => r.stack.length
  | .closingName | .closingEnd _ => r.stack.length - 1

/-- Where the start tag began that is not finished yet. -/
def pending (r : Reader) : Option Nat :=
  match r.phase with
  | .tagName start | .attributes start _ _ | .value start _ _ => some start
  | .content | .closingName | .closingEnd _ => none

/-- What the nesting check makes of the tokens that a reader has read. -/
def nesting (r : Reader) : Nesting :=
  ⟨r.bodies, r.pending⟩

theorem bodies_le (r : Reader) : r.bodies ≤ r.stack.length := by
  rw [bodies]
  split
  all_goals omega

/-- The check follows a move. -/
theorem Moves.nesting {r r' : Reader} {t : Located Token} {n : Nesting} (hm : Moves r t r')
    (h : r.nesting.step t = .ok n) : n = r'.nesting := by
  cases hm with
  | enters => exact (Nesting.step_enters h).2
  | _ =>
    cases h
    rfl

/-- No start tag ends inside as many bodies as the limit allows. -/
theorem Moves.stack_le {r r' : Reader} {t : Located Token} {n : Nesting} (hm : Moves r t r')
    (h : r.nesting.step t = .ok n) (hr : r.stack.length ≤ Nesting.limit) :
    r'.stack.length ≤ Nesting.limit := by
  cases hm with
  | enters => exact (Nesting.step_enters h).1
  | closes => exact Nat.le_of_succ_le hr
  | _ => exact hr

/-- The check follows a run, and its limit is that of the stack. -/
theorem run_nesting {r r' : Reader} {ts : List (Located Token)} {n : Nesting}
    (hr : r.run ts = .ok r') (hn : r.nesting.run ts = .ok n)
    (hlimit : r.stack.length ≤ Nesting.limit) :
    n = r'.nesting ∧ r'.stack.length ≤ Nesting.limit := by
  induction ts generalizing r with
  | nil =>
    cases hr
    cases hn
    exact ⟨rfl, hlimit⟩
  | cons t ts ih =>
    rcases step_cases r t with ⟨s, hs, hm⟩ | ⟨e, he, -⟩
    · cases hstep : r.nesting.step t with
      | error e =>
        rw [Nesting.run, hstep] at hn
        cases hn
      | ok m =>
        rw [run_of_step_ok hs] at hr
        rw [Nesting.run, hstep, hm.nesting hstep] at hn
        exact ih hr hn (hm.stack_le hstep hlimit)
    · cases (run_of_step_error he ts).symm.trans hr

/-- Where a `</` is accepted, it leaves an element body. -/
theorem bodies_pos {r r' : Reader} {t : Located Token} (h : r.step t = .ok r')
    (ht : t.value = .closeTagOpen) : 0 < r.bodies := by
  rcases step_cases r t with ⟨s, -, hm⟩ | ⟨e, he, -⟩
  · cases hm with
    | leaves hs => exact List.length_pos_iff.mpr hs
    | _ => cases ht
  · cases he.symm.trans h

/-- The end of a faulty element is refused outside its body, and the check counts nothing there. -/
theorem nesting_of_fault {r : Reader} {t : Located Token} {e : SyntaxError}
    (h : r.step t = .error e) (he : e.cause ≠ .unexpected (some t.value) r.expected) :
    r.nesting.step t = .ok ⟨r.bodies, none⟩ := by
  rcases step_cases r t with ⟨s, hs, -⟩ | ⟨f, hf, hrefuses⟩
  · cases hs.symm.trans h
  · cases hf.symm.trans h
    cases hrefuses with
    | unexpected => exact absurd rfl he
    | closesItself => rfl
    | closes => rfl

end Node.Reader

namespace Nesting

/-- Along everything that the reader accepts of a source that passes the check, the depth is the
number of element bodies that the reader is inside, so that the limit bounds them and the stack, and
a `</` takes away one that is there. The end of a faulty element, which stops the reader, does not
change the depth. No start tag is pending at any `</` of the source, accepted or not. -/
theorem check_bounds_reader {source : String} (h : check (Token.lex source) = .ok ()) :
    (∀ u r, u <+: Token.lex source → Reader.start.run u = .ok r →
      ∃ n, start.run u = .ok n ∧ n.depth = r.bodies ∧ n.depth ≤ limit ∧ r.stack.length ≤ limit ∧
        (∀ front t, front ++ [t] <+: u → t.value = .closeTagOpen →
          ∃ m, start.run front = .ok m ∧ 0 < m.depth) ∧
        ∀ t e, r.step t = .error e → e.cause ≠ .unexpected (some t.value) r.expected →
          ∃ n', n.step t = .ok n' ∧ n'.depth = r.bodies) ∧
      ∀ front t, front ++ [t] <+: Token.lex source → t.value = .closeTagOpen →
        ∃ m, start.run front = .ok m ∧ m.pending = none := by
  -- The check follows the reader to the end of every beginning.
  have hfollows {u : List (Located Token)} {r : Reader} (hu : u <+: Token.lex source)
      (hr : Reader.start.run u = .ok r) :
      start.run u = .ok r.nesting ∧ r.stack.length ≤ limit := by
    obtain ⟨n, hn⟩ := run_of_check h hu
    obtain ⟨rfl, hstack⟩ := Reader.run_nesting hr hn (Nat.zero_le _)
    exact ⟨hn, hstack⟩
  constructor
  · intro u r hu hr
    obtain ⟨hn, hstack⟩ := hfollows hu hr
    have hleaves (front : List (Located Token)) (t : Located Token) (hfront : front ++ [t] <+: u)
        (ht : t.value = .closeTagOpen) : ∃ m, start.run front = .ok m ∧ 0 < m.depth := by
      obtain ⟨s', hs'⟩ := Reader.run_of_prefix hfront hr
      obtain ⟨s, hs, hstep⟩ := Reader.run_concat hs'
      have hbefore := ((List.prefix_append front [t]).trans hfront).trans hu
      exact ⟨_, (hfollows hbefore hs).1, Reader.bodies_pos hstep ht⟩
    exact ⟨_, hn, rfl, Nat.le_trans r.bodies_le hstack, hstack, hleaves,
      fun t e he hcause => ⟨_, Reader.nesting_of_fault he hcause, rfl⟩⟩
  · intro front t hfront ht
    obtain ⟨m, hm⟩ := run_of_check h ((List.prefix_append front [t]).trans hfront)
    obtain ⟨rest, hrest⟩ := hfront
    have hts := Token.accounted_lex source
    rw [← hrest, List.append_assoc] at hts
    have hsettled : Settled .content start := fun _ => rfl
    exact ⟨m, hm, hsettled.pending_eq_none hts ht hm⟩

/-- Inside one element, the closing tag of another one ends in a `>` that is refused. The `</` at the
end would take away a body that is not there, but the reader does not get so far. -/
theorem check_bounds_reader_crossed :
    check (Token.lex "<a><b/><b></i></a></u @") = .ok () ∧
      ∃ u t after r e n n', Token.lex "<a><b/><b></i></a></u @" = u ++ t :: after ∧
        Reader.start.run u = .ok r ∧ start.run u = .ok n ∧ n.depth = r.bodies ∧ n.depth = 1 ∧
        (∃ m, start.run (u.take 9) = .ok m ∧ 0 < m.depth) ∧
        r.step t = .error e ∧ e.cause = .mismatchedClosing "i" "b" ∧
        n.step t = .ok n' ∧ n'.depth = 1 ∧
        ∃ m, start.run ((Token.lex "<a><b/><b></i></a></u @").take 15) = .ok m ∧
          m.pending = none := by
  let u : List (Located Token) :=
    [⟨.tagOpen, ⟨0, 1⟩⟩, ⟨.name "a", ⟨1, 2⟩⟩, ⟨.tagClose, ⟨2, 3⟩⟩, ⟨.tagOpen, ⟨3, 4⟩⟩,
      ⟨.name "b", ⟨4, 5⟩⟩, ⟨.selfClose, ⟨5, 7⟩⟩, ⟨.tagOpen, ⟨7, 8⟩⟩, ⟨.name "b", ⟨8, 9⟩⟩,
      ⟨.tagClose, ⟨9, 10⟩⟩, ⟨.closeTagOpen, ⟨10, 12⟩⟩, ⟨.name "i", ⟨12, 13⟩⟩]
  let after : List (Located Token) :=
    [⟨.closeTagOpen, ⟨14, 16⟩⟩, ⟨.name "a", ⟨16, 17⟩⟩, ⟨.tagClose, ⟨17, 18⟩⟩,
      ⟨.closeTagOpen, ⟨18, 20⟩⟩, ⟨.name "u", ⟨20, 21⟩⟩, ⟨.invalid, ⟨22, 23⟩⟩]
  have hlex : Token.lex "<a><b/><b></i></a></u @" = u ++ ⟨.tagClose, ⟨13, 14⟩⟩ :: after := by
    decide +kernel
  have h : check (Token.lex "<a><b/><b></i></a></u @") = .ok () := by
    rw [hlex]
    rfl
  obtain ⟨hreads, hmarks⟩ := check_bounds_reader h
  obtain ⟨n, hn, hdepth, -, -, hleaves, hfault⟩ :=
    hreads u _ (by rw [hlex]; exact List.prefix_append _ _) rfl
  obtain ⟨n', hn', hdepth'⟩ := hfault ⟨.tagClose, ⟨13, 14⟩⟩ _ rfl (by simp)
  obtain ⟨m, hm⟩ := hmarks ((Token.lex "<a><b/><b></i></a></u @").take 15) ⟨.closeTagOpen, ⟨18, 20⟩⟩
    (by rw [hlex]; decide) rfl
  exact ⟨h, u, _, after, _, _, n, n', hlex, rfl, hn, hdepth, hdepth,
    hleaves (u.take 9) ⟨.closeTagOpen, ⟨10, 12⟩⟩ (by decide) rfl, rfl, rfl, hn', hdepth', m, hm⟩

end Nesting
end Stencil
