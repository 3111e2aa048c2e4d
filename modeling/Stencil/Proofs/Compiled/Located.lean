import Stencil.Proofs.Compiled.Questions

/-!
# Walks that keep places

A walk over a compiled tree meets each node at its place. The level of a node is told from its place
alone: it stands one level below its parent, and two below a branch.
-/
namespace Stencil.Compiled

/-- By how many levels a step leads down. -/
def Step.levels : Step → Nat
  | .child _ => 1
  | .arm _ | .otherwise => 2

/-- The level of a place. The first step leads to the top. -/
def level (place : Place) : Nat :=
  (place.drop 1).foldl (fun depth step => depth + step.levels) 0

theorem level_concat {place : Place} (h : place ≠ []) (step : Step) :
    level (place ++ [step]) = level place + step.levels := by
  obtain ⟨first, steps, rfl⟩ := List.exists_cons_of_ne_nil h
  simp [level]

mutual
/-- The node and all below it, depth first, each at its place. -/
def walkFrom (place : Place) : Compiled → List (Place × Compiled)
  | element id tag attributes reference children span =>
    (place, element id tag attributes reference children span) :: walkAllFrom place 0 children
  | text id content span => [(place, text id content span)]
  | comment id content span => [(place, comment id content span)]
  | branch arms otherwise span =>
    (place, branch arms otherwise span) ::
      (walkArmsFrom place 0 arms ++ walkOptionFrom place otherwise)

/-- The children from number `index` on. -/
def walkAllFrom (place : Place) (index : Nat) : List Compiled → List (Place × Compiled)
  | [] => []
  | n :: ns => n.walkFrom (place ++ [.child index]) ++ walkAllFrom place (index + 1) ns

/-- The arms from number `entry` on. -/
def walkArmsFrom (place : Place) (entry : Nat) :
    List (Condition × Compiled) → List (Place × Compiled)
  | [] => []
  | (_, n) :: arms => n.walkFrom (place ++ [.arm entry]) ++ walkArmsFrom place (entry + 1) arms

def walkOptionFrom (place : Place) : Option Compiled → List (Place × Compiled)
  | none => []
  | some n => n.walkFrom (place ++ [.otherwise])
end

/-- All nodes of a template, depth first, each at its place. -/
def located (ns : List Compiled) : List (Place × Compiled) :=
  walkAllFrom [] 0 ns

mutual
theorem map_walkFrom (place : Place) (n : Compiled) : (n.walkFrom place).map (·.2) = n.walk := by
  cases n with
  | element id tag attributes reference children span =>
    rw [walkFrom, walk, List.map_cons, map_walkAllFrom place 0 children]
  | text id content span | comment id content span => rfl
  | branch arms otherwise span =>
    rw [walkFrom, walk, List.map_cons, List.map_append, map_walkArmsFrom place 0 arms,
      map_walkOptionFrom place otherwise]

theorem map_walkAllFrom (place : Place) (index : Nat) (ns : List Compiled) :
    (walkAllFrom place index ns).map (·.2) = walkAll ns := by
  cases ns with
  | nil => rfl
  | cons n ns =>
    rw [walkAllFrom, walkAll, List.map_append, map_walkFrom _ n, map_walkAllFrom place _ ns]

theorem map_walkArmsFrom (place : Place) (entry : Nat) (arms : List (Condition × Compiled)) :
    (walkArmsFrom place entry arms).map (·.2) = walkArms arms := by
  cases arms with
  | nil => rfl
  | cons arm arms =>
    obtain ⟨k, n⟩ := arm
    rw [walkArmsFrom, walkArms, List.map_append, map_walkFrom _ n, map_walkArmsFrom place _ arms]

theorem map_walkOptionFrom (place : Place) (otherwise : Option Compiled) :
    (walkOptionFrom place otherwise).map (·.2) = walkOption otherwise := by
  cases otherwise with
  | none => rfl
  | some n => exact map_walkFrom _ n
end

/-! ## Nodes at their places -/

variable {root : List Compiled} {place : Place}

theorem ne_nil_of_at? {n : Compiled} (h : at? root place = some n) : place ≠ [] := by
  rintro rfl
  cases h

/-- The nodes stand at the places of children, from number `index` on. -/
def AreChildren (root : List Compiled) (place : Place) (index : Nat) (ns : List Compiled) : Prop :=
  ∀ i n, ns[i]? = some n → at? root (place ++ [.child (index + i)]) = some n

theorem areChildren_root (root : List Compiled) : AreChildren root [] 0 root := by
  intro i n hn
  simp [at?, hn]

theorem areChildren_element {id : Nat} {tag : String} {attributes : List Attribute}
    {reference : Option String} {children : List Compiled} {span : Span}
    (h : at? root place = some (element id tag attributes reference children span)) :
    AreChildren root place 0 children := by
  intro i n hn
  rw [at?_concat h, Nat.zero_add]
  exact hn

theorem AreChildren.head {index : Nat} {n : Compiled} {ns : List Compiled}
    (h : AreChildren root place index (n :: ns)) : at? root (place ++ [.child index]) = some n :=
  h 0 n rfl

theorem AreChildren.tail {index : Nat} {n : Compiled} {ns : List Compiled}
    (h : AreChildren root place index (n :: ns)) : AreChildren root place (index + 1) ns := by
  intro i m hm
  rw [Nat.add_assoc, Nat.add_comm 1]
  exact h (i + 1) m hm

/-- These are the arms of the branch at a place, from number `entry` on. -/
def AreArms (root : List Compiled) (place : Place) (entry : Nat)
    (arms : List (Condition × Compiled)) : Prop :=
  ∃ all otherwise span, at? root place = some (branch all otherwise span) ∧ all.drop entry = arms

theorem areArms_branch {arms : List (Condition × Compiled)} {otherwise : Option Compiled}
    {span : Span} (h : at? root place = some (branch arms otherwise span)) :
    AreArms root place 0 arms :=
  ⟨arms, otherwise, span, h, rfl⟩

theorem AreArms.ne_nil {entry : Nat} {arms : List (Condition × Compiled)}
    (h : AreArms root place entry arms) : place ≠ [] := by
  obtain ⟨all, otherwise, span, hbranch, -⟩ := h
  exact ne_nil_of_at? hbranch

theorem AreArms.head {entry : Nat} {k : Condition} {n : Compiled}
    {arms : List (Condition × Compiled)} (h : AreArms root place entry ((k, n) :: arms)) :
    at? root (place ++ [.arm entry]) = some n := by
  obtain ⟨all, otherwise, span, hbranch, hdrop⟩ := h
  rw [at?_concat hbranch, next?, (drop_succ hdrop).1]
  rfl

theorem AreArms.tail {entry : Nat} {arm : Condition × Compiled}
    {arms : List (Condition × Compiled)} (h : AreArms root place entry (arm :: arms)) :
    AreArms root place (entry + 1) arms := by
  obtain ⟨all, otherwise, span, hbranch, hdrop⟩ := h
  exact ⟨all, otherwise, span, hbranch, (drop_succ hdrop).2⟩

mutual
theorem at?_walkFrom {place : Place} {n : Compiled} (h : at? root place = some n) :
    ∀ p ∈ n.walkFrom place, at? root p.1 = some p.2 := by
  cases n with
  | element id tag attributes reference children span =>
    exact List.forall_mem_cons.mpr ⟨h, at?_walkAllFrom (areChildren_element h)⟩
  | text id content span | comment id content span => simpa [walkFrom]
  | branch arms otherwise span =>
    refine List.forall_mem_cons.mpr ⟨h, List.forall_mem_append.mpr ⟨?_, ?_⟩⟩
    · exact at?_walkArmsFrom (areArms_branch h)
    · cases otherwise with
      | none => simp [walkOptionFrom]
      | some n => exact at?_walkFrom (at?_concat h .otherwise)

theorem at?_walkAllFrom {place : Place} {index : Nat} {ns : List Compiled}
    (h : AreChildren root place index ns) :
    ∀ p ∈ walkAllFrom place index ns, at? root p.1 = some p.2 := by
  cases ns with
  | nil => simp [walkAllFrom]
  | cons n ns => exact List.forall_mem_append.mpr ⟨at?_walkFrom h.head, at?_walkAllFrom h.tail⟩

theorem at?_walkArmsFrom {place : Place} {entry : Nat} {arms : List (Condition × Compiled)}
    (h : AreArms root place entry arms) :
    ∀ p ∈ walkArmsFrom place entry arms, at? root p.1 = some p.2 := by
  cases arms with
  | nil => simp [walkArmsFrom]
  | cons arm arms =>
    obtain ⟨k, n⟩ := arm
    exact List.forall_mem_append.mpr ⟨at?_walkFrom h.head, at?_walkArmsFrom h.tail⟩
end

/-- A walk with places meets the nodes of a walk, each at its place. -/
theorem located_walk (ns : List Compiled) :
    (located ns).map (·.2) = walkAll ns ∧ ∀ p ∈ located ns, at? ns p.1 = some p.2 :=
  ⟨map_walkAllFrom [] 0 ns, at?_walkAllFrom (areChildren_root ns)⟩

end Stencil.Compiled
