import Stencil.SortedMap

/-!
# Looking up in a map

An insertion is seen by its own key and by no other, so a map that is built by insertions answers
each key by the last insertion of that key.
-/
namespace Stencil.SortedMap

variable {κ ν : Type}

theorem find?_insertEntry [LT κ] [LE κ] [DecidableLT κ] [Std.LawfulOrderLT κ]
    [Std.IsLinearOrder κ] [DecidableEq κ] (k k' : κ) (v : ν) (entries : List (κ × ν)) :
    ((insertEntry k v entries).find? (·.1 == k')).map (·.2) =
      if k = k' then some v else (entries.find? (·.1 == k')).map (·.2) := by
  induction entries with
  | nil => by_cases h : k = k' <;> simp [insertEntry, h]
  | cons e rest ih =>
    obtain ⟨l, w⟩ := e
    rw [insertEntry]
    split
    · by_cases h : k = k' <;> simp [List.find?_cons, h]
    · split
      · next hlt =>
        by_cases hl : l = k'
        · have hne : k ≠ k' := by
            rintro rfl
            subst hl
            exact Std.lt_irrefl hlt
          simp [hl, hne]
        · simpa [List.find?_cons, hl] using ih
      · next hlt hgt =>
        obtain rfl := eq_of_not_lt hlt hgt
        by_cases h : k = k' <;> simp [h]

section Order
variable [LT κ] [LE κ] [DecidableLT κ] [Std.LawfulOrderLT κ] [Std.IsLinearOrder κ] [DecidableEq κ]

theorem get?_insert (m : SortedMap κ ν) (k k' : κ) (v : ν) :
    (m.insert k v).get? k' = if k = k' then some v else m.get? k' :=
  find?_insertEntry k k' v m.entries

@[simp] theorem get?_insert_self (m : SortedMap κ ν) (k : κ) (v : ν) :
    (m.insert k v).get? k = some v := by
  simp [get?_insert]

theorem get?_insert_of_ne (m : SortedMap κ ν) {k k' : κ} (h : k ≠ k') (v : ν) :
    (m.insert k v).get? k' = m.get? k' := by
  simp [get?_insert, h]

end Order

@[simp] theorem get?_empty [LT κ] [DecidableEq κ] (k : κ) : (empty : SortedMap κ ν).get? k = none :=
  rfl

theorem mem_keys [LT κ] [DecidableEq κ] {m : SortedMap κ ν} {k : κ} :
    k ∈ m.keys ↔ (m.get? k).isSome = true := by
  simp [keys, get?, List.find?_isSome]

theorem pairwise_keys [LT κ] (m : SortedMap κ ν) : m.keys.Pairwise (· < ·) :=
  List.pairwise_map.mpr m.sorted

end Stencil.SortedMap
