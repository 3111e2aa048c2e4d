import Stencil.Compile
import Stencil.Proofs.Chain.Grouping

/-!
# Compiled trees without branches

A branch can be replaced by the list of its subtrees, when each of them carries the part that it
takes: the first arm opens a chain, the others continue it, and the default ends it. The tree that
is left has one kind of node, and its numbers are those of the compiled tree.
-/
namespace Stencil

/-- What a node is, apart from its place in the tree. -/
inductive Item where
  | element (tag : String) (attributes : List Attribute) (reference : Option String)
  | text (content : String)
  | comment (content : String)
  deriving DecidableEq, Repr

/-- A node of a tree without branches, with the part that it takes in a chain, if any. -/
inductive Flat where
  | node (role : Option Conditional) (id : Nat) (span : Span) (item : Item) (children : List Flat)
  deriving Repr

namespace Flat

mutual
/-- The numbers of a tree, depth first. -/
def ids : Flat → List Nat
  | node _ id _ _ children => id :: idsAll children

def idsAll : List Flat → List Nat
  | [] => []
  | f :: fs => f.ids ++ idsAll fs
end

@[simp] theorem idsAll_append (fs gs : List Flat) : idsAll (fs ++ gs) = idsAll fs ++ idsAll gs := by
  induction fs with
  | nil => rfl
  | cons f fs ih => simp [idsAll, ih]

end Flat

namespace Compiled

mutual
/-- The nodes that stand for a compiled node which takes a part itself. -/
def flat (role : Option Conditional) : Compiled → List Flat
  | element id tag attributes reference children span =>
    [.node role id span (.element tag attributes reference) (flatAll children)]
  | text id content span => [.node role id span (.text content) []]
  | comment id content span => [.node role id span (.comment content) []]
  | branch arms otherwise _ => flatArms .opens arms ++ flatOption otherwise

def flatAll : List Compiled → List Flat
  | [] => []
  | n :: ns => n.flat none ++ flatAll ns

def flatArms (part : Condition → Conditional) : List (Condition × Compiled) → List Flat
  | [] => []
  | (k, n) :: arms => n.flat (some (part k)) ++ flatArms .continues arms

def flatOption : Option Compiled → List Flat
  | none => []
  | some n => n.flat (some .otherwise)
end

def isElement : Compiled → Bool
  | element .. => true
  | text .. | comment .. | branch .. => false

/-- A branch has at least one arm, and its subtrees are elements. -/
def IsProper : Compiled → Prop
  | branch arms otherwise _ => arms ≠ [] ∧ ∀ n ∈ subtrees arms otherwise, n.isElement = true
  | element .. | text .. | comment .. => True

mutual
theorem ids_flat (role : Option Conditional) (n : Compiled) :
    n.walk.filterMap id? = Flat.idsAll (n.flat role) := by
  cases n with
  | element id tag attributes reference children span =>
    simp [walk, flat, id?, Flat.idsAll, Flat.ids, ids_flatAll children]
  | text id content span => rfl
  | comment id content span => rfl
  | branch arms otherwise span =>
    rw [walk, List.filterMap_cons_none rfl, flat, List.filterMap_append, Flat.idsAll_append,
      ids_flatArms .opens arms, ids_flatOption otherwise]

/-- The numbers met on a walk are those of the tree without branches. -/
theorem ids_flatAll (ns : List Compiled) :
    (walkAll ns).filterMap id? = Flat.idsAll (flatAll ns) := by
  cases ns with
  | nil => rfl
  | cons n ns => simp [walkAll, flatAll, ids_flat none n, ids_flatAll ns]

theorem ids_flatArms (part : Condition → Conditional) (arms : List (Condition × Compiled)) :
    (walkArms arms).filterMap id? = Flat.idsAll (flatArms part arms) := by
  cases arms with
  | nil => rfl
  | cons arm arms =>
    obtain ⟨k, n⟩ := arm
    simp [walkArms, flatArms, ids_flat (some (part k)) n, ids_flatArms .continues arms]

theorem ids_flatOption (otherwise : Option Compiled) :
    (walkOption otherwise).filterMap id? = Flat.idsAll (flatOption otherwise) := by
  cases otherwise with
  | none => rfl
  | some n => exact ids_flat (some .otherwise) n
end

theorem flatArms_placed (part : Condition → Conditional) (arms : List (Condition × Compiled)) :
    flatArms part arms = (Chain.placedArms part arms).flatMap fun p => p.item.flat p.role := by
  induction arms generalizing part with
  | nil => rfl
  | cons arm arms ih => simp [flatArms, Chain.placedArms, ih]

/-- Replacing the branches of grouped siblings gives the list that was grouped. -/
theorem flatAll_emitted (es : List (Emitted Compiled)) :
    flatAll (es.map ofEmitted) =
      (es.flatMap Emitted.placed).flatMap fun p => p.item.flat p.role := by
  induction es with
  | nil => rfl
  | cons e es ih =>
    cases e with
    | node n => simp [flatAll, ofEmitted, Emitted.placed, ih]
    | chain c =>
      have ho : flatOption c.otherwise =
          (c.otherwise.toList.map (Placed.mk (some .otherwise))).flatMap
            fun p => p.item.flat p.role := by
        cases c.otherwise <;> simp [flatOption]
      simp [flatAll, flat, ofEmitted, Emitted.placed, Chain.placed, flatArms_placed, ho, ih]

theorem walk_subtrees (arms : List (Condition × Compiled)) (otherwise : Option Compiled) :
    walkArms arms ++ walkOption otherwise = (subtrees arms otherwise).flatMap walk := by
  induction arms with
  | nil => cases otherwise <;> simp [walkArms, walkOption, subtrees]
  | cons arm arms ih => simpa [walkArms, subtrees] using ih

theorem subtrees_placed (c : Chain Compiled) :
    subtrees c.arms c.otherwise = c.placed.map (·.item) := by
  have ha : ∀ (part : Condition → Conditional) (arms : List (Condition × Compiled)),
      (Chain.placedArms part arms).map (·.item) = arms.map (·.2) := by
    intro part arms
    induction arms generalizing part with
    | nil => rfl
    | cons arm arms ih => simp [Chain.placedArms, ih]
  simp [subtrees, Chain.placed, ha, Function.comp_def]

/-- A walk over grouped siblings meets the branches and what is in their members. -/
theorem mem_walkAll_emitted {es : List (Emitted Compiled)} {n : Compiled}
    (h : n ∈ walkAll (es.map ofEmitted)) :
    (∃ c, .chain c ∈ es ∧ n = ofEmitted (.chain c)) ∨
      ∃ p ∈ es.flatMap Emitted.placed, n ∈ p.item.walk := by
  induction es with
  | nil => simp [walkAll] at h
  | cons e es ih =>
    rcases List.mem_append.mp h with h | h
    · cases e with
      | node m => exact .inr ⟨⟨none, m⟩, by simp [Emitted.placed], h⟩
      | chain c =>
        rw [ofEmitted, walk, walk_subtrees, subtrees_placed] at h
        rcases List.mem_cons.mp h with h | h
        · exact .inl ⟨c, by simp, h⟩
        · simp only [List.mem_flatMap, List.mem_map] at h
          obtain ⟨m, ⟨p, hp, rfl⟩, hm⟩ := h
          exact .inr ⟨p, by simp [Emitted.placed, hp], hm⟩
    · rcases ih h with ⟨c, hc, rfl⟩ | ⟨p, hp, hm⟩
      · exact .inl ⟨c, by simp [hc], rfl⟩
      · obtain ⟨e', he', hp⟩ := List.mem_flatMap.mp hp
        exact .inr ⟨p, List.mem_flatMap.mpr ⟨e', by simp [he'], hp⟩, hm⟩

end Compiled

end Stencil
