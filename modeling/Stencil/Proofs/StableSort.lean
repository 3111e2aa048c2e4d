import Mathlib.Data.List.Sort

/-!
# Sorting by a key

A stable sort keeps the items of each key in their order. So it is known once the items of each
key are known: it is the one sorted list that has them.
-/
namespace Stencil

variable {α : Type} {key : α → Nat}

theorem mem_iff_of_filter_key {l m : List α}
    (h : ∀ k, l.filter (key · = k) = m.filter (key · = k)) (a : α) : a ∈ l ↔ a ∈ m := by
  have ha : a ∈ l.filter (key · = key a) ↔ a ∈ m.filter (key · = key a) := by rw [h]
  simpa using ha

/-- Lists without a common key may change places. -/
theorem filter_append_comm_of_key {l m : List α} (h : ∀ a ∈ l, ∀ b ∈ m, key a ≠ key b) (k : Nat) :
    (l ++ m).filter (key · = k) = (m ++ l).filter (key · = k) := by
  by_cases hl : ∃ a ∈ l, key a = k
  · obtain ⟨a, ha, rfl⟩ := hl
    have hm : m.filter (key · = key a) = [] := by
      simpa using fun b hb => (h a ha b hb).symm
    simp [hm]
  · have hl : l.filter (key · = k) = [] := by
      simpa using hl
    simp [hl]

/-- Two sorted lists are equal when, key by key, they have the same items in the same order. -/
theorem eq_of_filter_key {l m : List α} (hl : l.Pairwise (key · ≤ key ·))
    (hm : m.Pairwise (key · ≤ key ·))
    (h : ∀ k, l.filter (key · = k) = m.filter (key · = k)) : l = m := by
  have hmem := mem_iff_of_filter_key h
  induction l generalizing m with
  | nil =>
    have hm : ∀ a, a ∉ m := fun a ha => by simpa using (hmem a).mpr ha
    exact (List.eq_nil_iff_forall_not_mem.mpr hm).symm
  | cons a l ih =>
    cases m with
    | nil => simpa using (hmem a).mp (by simp)
    | cons b m =>
      rw [List.pairwise_cons] at hl hm
      have hab : key a ≤ key b := by
        rcases List.mem_cons.mp ((hmem b).mpr (by simp)) with rfl | hb
        · exact Nat.le_refl _
        · exact hl.1 b hb
      have hba : key b ≤ key a := by
        rcases List.mem_cons.mp ((hmem a).mp (by simp)) with rfl | ha
        · exact Nat.le_refl _
        · exact hm.1 a ha
      have heads := h (key a)
      rw [List.filter_cons_of_pos (by simp), List.filter_cons_of_pos (by simp; omega)] at heads
      obtain ⟨rfl, -⟩ := List.cons.inj heads
      have tails : ∀ k, l.filter (key · = k) = m.filter (key · = k) := by
        intro k
        have hk := h k
        by_cases ha : key a = k
        · simpa [List.filter_cons, ha] using hk
        · simpa [List.filter_cons, ha] using hk
      rw [ih hl.2 hm.2 tails (mem_iff_of_filter_key tails)]

theorem key_le_trans (a b c : α) (hab : decide (key a ≤ key b) = true)
    (hbc : decide (key b ≤ key c) = true) : decide (key a ≤ key c) = true := by
  simp only [decide_eq_true_eq] at hab hbc ⊢
  omega

theorem key_le_total (a b : α) : (decide (key a ≤ key b) || decide (key b ≤ key a)) = true := by
  simp only [Bool.or_eq_true, decide_eq_true_eq]
  omega

theorem filter_mergeSort (l : List α) (k : Nat) :
    (l.mergeSort (key · ≤ key ·)).filter (key · = k) = l.filter (key · = k) := by
  -- The items of one key are a sorted sublist already.
  have hsorted : (l.filter (key · = k)).Pairwise fun a b => decide (key a ≤ key b) = true := by
    refine List.pairwise_of_forall_mem_list fun a ha b hb => ?_
    simp only [List.mem_filter, decide_eq_true_eq] at ha hb
    simp only [decide_eq_true_eq]
    omega
  have hsub : (l.filter (key · = k)).Sublist (l.mergeSort (key · ≤ key ·)) :=
    List.sublist_mergeSort key_le_trans key_le_total hsorted List.filter_sublist
  have hfilter := hsub.filter (key · = k)
  rw [List.filter_filter] at hfilter
  simp only [Bool.and_self] at hfilter
  have hlen := ((List.mergeSort_perm l (key · ≤ key ·)).filter (key · = k)).length_eq
  exact (hfilter.eq_of_length hlen.symm).symm

/-- A sorted list that has the items of each key in their order is the stable sort. -/
theorem mergeSort_eq_of_filter_key {l m : List α} (hm : m.Pairwise (key · ≤ key ·))
    (h : ∀ k, l.filter (key · = k) = m.filter (key · = k)) :
    l.mergeSort (key · ≤ key ·) = m := by
  have hs : (l.mergeSort (key · ≤ key ·)).Pairwise fun a b => decide (key a ≤ key b) = true :=
    List.pairwise_mergeSort key_le_trans key_le_total l
  have hl : (l.mergeSort (key · ≤ key ·)).Pairwise (key · ≤ key ·) := by
    simpa using hs
  exact eq_of_filter_key hl hm fun k => (filter_mergeSort l k).trans (h k)

end Stencil
