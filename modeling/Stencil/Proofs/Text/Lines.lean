import Mathlib.Data.List.Basic
import Stencil.Text.Line
import Stencil.Text.Quoted

/-!
# Lines of a text

Lines that are written one below the other, each with a line feed at its end, are read back when no
line feed is in them. Otherwise they are not, since no line that is read has one. Numbers and quoted
texts have none.
-/
namespace Stencil.Text

theorem feedLines_append {line rest : List Char} (hfeed : '\n' ∉ line)
    (hreturn : line.getLast? ≠ some '\r') :
    feedLines (line ++ '\n' :: rest) = line :: feedLines rest := by
  induction line with
  | nil => rw [List.nil_append, feedLines]
  | cons c cs ih =>
    obtain ⟨hc, hcs⟩ := not_or.mp (mt List.mem_cons.mpr hfeed)
    have hrest := ih hcs fun hlast => hreturn (by simp [List.getLast?_cons, hlast])
    rw [List.cons_append, feedLines.eq_4]
    · rw [hrest]
    · exact fun heq => hc heq.symm
    · intro behind hce hbehind
      cases cs with
      | nil => exact hreturn (by simp [hce])
      | cons d ds =>
        rw [List.cons_append, List.cons.injEq] at hbehind
        exact hcs (hbehind.1 ▸ List.mem_cons_self)

theorem not_mem_feedLines (cs : List Char) : ∀ line ∈ feedLines cs, '\n' ∉ line := by
  fun_induction feedLines cs with
  | case1 => simp
  | case2 cs ih | case3 cs ih => simpa using ih
  | case4 c cs hfeed hreturn hnil => simpa using fun heq => hfeed heq.symm
  | case5 c cs hfeed hreturn line lines hcons ih =>
    rw [hcons, List.forall_mem_cons] at ih
    rw [List.forall_mem_cons, List.mem_cons, not_or]
    exact ⟨⟨fun heq => hfeed heq.symm, ih.1⟩, ih.2⟩

/-- Lines that do not end in a return are read back exactly when no line feed is in them. -/
theorem feedLines_flatMap {lines : List (List Char)}
    (h : ∀ line ∈ lines, line.getLast? ≠ some '\r') :
    feedLines (lines.flatMap (· ++ ['\n'])) = lines ↔ ∀ line ∈ lines, '\n' ∉ line := by
  constructor
  · intro heq line hline
    exact not_mem_feedLines _ line (heq.symm ▸ hline)
  · intro hfeed
    induction lines with
    | nil => rfl
    | cons line lines ih =>
      rw [List.forall_mem_cons] at h hfeed
      rw [List.flatMap_cons, List.append_assoc, List.singleton_append,
        feedLines_append hfeed.1 h.1, ih h.2 hfeed.2]

theorem getLast?_append_ne {c : Char} {back : String} (hne : back.toList ≠ [])
    (hc : c ∉ back.toList) (front : String) : (front ++ back).toList.getLast? ≠ some c := by
  rw [String.toList_append, List.getLast?_append_of_ne_nil _ hne]
  exact fun hlast => hc (List.mem_of_getLast? hlast)

theorem not_mem_intercalate {c : Char} {separator : String} {parts : List String}
    (hs : c ∉ separator.toList) (h : ∀ part ∈ parts, c ∉ part.toList) :
    c ∉ (separator.intercalate parts).toList := by
  induction parts with
  | nil => simp
  | cons part parts ih =>
    obtain ⟨hpart, hparts⟩ := List.forall_mem_cons.mp h
    cases parts with
    | nil => simpa using hpart
    | cons next parts =>
      rw [String.intercalate_cons_cons]
      simp only [String.toList_append, List.mem_append, not_or]
      exact ⟨⟨hpart, hs⟩, ih hparts⟩

/-! ## Numbers and quoted texts -/

theorem exists_digit_of_mem {base n : Nat} {c : Char} (h : c ∈ Nat.toDigits base n) :
    ∃ digit, c = Nat.digitChar digit := by
  have hcore (fuel : Nat) : ∀ n cs, (∀ d ∈ cs, ∃ digit, d = Nat.digitChar digit) →
      ∀ d ∈ Nat.toDigitsCore base fuel n cs, ∃ digit, d = Nat.digitChar digit := by
    induction fuel with
    | zero => exact fun n cs hcs => hcs
    | succ fuel ih =>
      intro n cs hcs
      have hmore := List.forall_mem_cons.mpr ⟨⟨n % base, rfl⟩, hcs⟩
      rw [Nat.toDigitsCore]
      split
      · exact hmore
      · exact ih _ _ hmore
  exact hcore _ n [] (by simp) c h

theorem not_mem_codeEscape (c : Char) : '\n' ∉ codeEscape c := by
  have hdigits : '\n' ∉ Nat.toDigits 16 c.toNat := fun h => by
    obtain ⟨digit, hdigit⟩ := exists_digit_of_mem h
    exact Nat.digitChar_ne '\n' (by decide) hdigit.symm
  simp [codeEscape, hdigits]

theorem not_mem_escape (c : Char) : '\n' ∉ escape c := by
  by_cases hc : c = '\n'
  · subst hc
    decide
  · rw [escape]
    repeat' split
    all_goals first | decide | exact not_mem_codeEscape c | simpa using Ne.symm hc

/-- A quoted text is a single line. -/
theorem not_mem_quote (s : String) : '\n' ∉ (quote s).toList := by
  simpa [quote] using fun c _ => not_mem_escape c

end Stencil.Text
