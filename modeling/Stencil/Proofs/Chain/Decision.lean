import Stencil.Proofs.Chain.Members
import Stencil.Proofs.Chain.Omission

/-!
# Which chain a member joins

Every `if` opens one chain, so the chain that a later member can join by the rule is in the output,
and this member is in it. With the errors, which are those of the rule, this is all that grouping
has to decide, and gaps have no part in it.
-/
namespace Stencil

variable {α : Type}

/-! ## Openers -/

/-- The item of an `if`. -/
def Sibling.opener? : Sibling α → Option α
  | conditional (.opens _) _ item => some item
  | content _ | gap _ | conditional (.continues _) .. | conditional .otherwise .. => none

/-- The item that opens a chain. -/
def Emitted.opener? : Emitted α → Option α
  | node _ => none
  | chain c => c.arms.head?.map (·.2)

def Placed.opener? (p : Placed α) : Option α :=
  match p.role with
  | some (.opens _) => some p.item
  | some (.continues _) | some .otherwise | none => none

theorem Chain.openers_placed (c : Chain α) :
    c.placed.filterMap Placed.opener? = (c.arms.head?.map (·.2)).toList := by
  have hlater (arms : List (Condition × α)) :
      (placedArms .continues arms).filterMap Placed.opener? = [] := by
    induction arms with
    | nil => rfl
    | cons arm arms ih => exact ih
  have hotherwise :
      (c.otherwise.toList.map (Placed.mk (some .otherwise))).filterMap Placed.opener? = [] := by
    cases c.otherwise <;> rfl
  rw [placed, List.filterMap_append, hotherwise, List.append_nil]
  cases c.arms with
  | nil => rfl
  | cons arm arms => exact congrArg (arm.2 :: ·) (hlater arms)

theorem Emitted.openers_placed (es : List (Emitted α)) :
    (es.flatMap Emitted.placed).filterMap Placed.opener? = es.filterMap Emitted.opener? := by
  induction es with
  | nil => rfl
  | cons e es ih =>
    rw [List.flatMap_cons, List.filterMap_append, ih]
    cases e with
    | node item => rfl
    | chain c =>
      rw [placed, Chain.openers_placed]
      cases h : c.arms.head? <;> simp [opener?, h]

theorem Chain.Context.openers_place (context : Context α) (joined : Bool) (s : Sibling α) :
    (context.place joined s).filterMap Placed.opener? = s.opener?.toList := by
  cases s with
  | content item => rfl
  | gap item =>
    rw [place]
    cases context.accepts && joined <;> cases item <;> rfl
  | conditional c site item =>
    rw [place]
    cases c with
    | opens k => rfl
    | continues k => cases context.accepts <;> rfl
    | otherwise => cases context.accepts <;> rfl

theorem Chain.Context.openers_placed (context : Context α) (siblings : List (Sibling α)) :
    (context.placed siblings).filterMap Placed.opener? = siblings.filterMap Sibling.opener? := by
  induction siblings generalizing context with
  | nil => rfl
  | cons s rest ih =>
    rw [Context.placed, List.filterMap_append, openers_place, ih]
    cases h : s.opener? <;> simp [h]

/-- Every `if` opens one chain, and every chain is opened by one. -/
theorem Chain.openers_build (siblings : List (Sibling α)) :
    (build siblings).1.filterMap Emitted.opener? = siblings.filterMap Sibling.opener? := by
  have hrun := Context.placed_run Context.sound_idle siblings
  rw [← Emitted.openers_placed, build, hrun, ← Context.openers_placed .idle siblings]
  rfl

theorem Member.opener?_placed {m : Member α} :
    m.placed.opener? = if m.part.isLater then none else some m.item := by
  obtain ⟨part, site, item⟩ := m
  cases part <;> rfl

/-- The first of the members opens the chain. -/
theorem Chain.Has.opener {c : Chain α} {opener : Member α} {later : List (Member α)}
    (h : c.Has opener later) : c.arms.head?.map (·.2) = some opener.item := by
  have hfirst : opener.placed.opener? = some opener.item := by
    rw [Member.opener?_placed, h.opens]
    rfl
  have hlater : (later.map Member.placed).filterMap Placed.opener? = [] := by
    rw [List.filterMap_eq_nil_iff, List.forall_mem_map]
    intro m hm
    rw [Member.opener?_placed, h.continues m hm]
    rfl
  have hplaced := openers_placed c
  rw [h.placed, List.map_cons, List.filterMap_cons_some hfirst, hlater] at hplaced
  simpa using (congrArg List.head? hplaced).symm

/-! ## Joining -/

namespace Sibling

variable {siblings : List (Sibling α)}

theorem mem_numbered {i : Nat} {s : Sibling α} (h : siblings[i]? = some s) :
    s.map (Prod.mk i) ∈ numbered siblings := by
  refine List.mem_of_getElem? (i := i) ?_
  rw [getElem?_numbered, h]
  rfl

theorem exists_of_isIf {i : Nat} (h : siblings[i]?.any isIf = true) :
    ∃ k site item, siblings[i]? = some (.conditional (.opens k) site item) := by
  cases hs : siblings[i]? with
  | none => simp [hs] at h
  | some s =>
    rw [hs, Option.any_some] at h
    cases s with
    | content item => cases h
    | gap item => cases h
    | conditional c site item =>
      cases c with
      | opens k => exact ⟨k, site, item, rfl⟩
      | continues k => cases h
      | otherwise => cases h

theorem mem_members {i j : Nat} {c : Conditional} {site : Site} {item : α}
    (h : siblings[i]? = some (.conditional c site item)) (hc : c.isLater = true)
    (hv : attachment siblings i = .joins j) : ⟨c, site, (i, item)⟩ ∈ members siblings j := by
  refine List.mem_filter.mpr ⟨List.mem_filterMap.mpr ⟨_, mem_numbered h, rfl⟩, ?_⟩
  simp [belongs, hc, hv]

end Sibling

/-- The chain that a member can join is there, with all that belongs to it. -/
theorem Chain.exists_of_attachment {siblings : List (Sibling α)} {i j : Nat}
    (h : Sibling.attachment siblings i = .joins j) :
    ∃ c opener later, .chain c ∈ (build (Sibling.numbered siblings)).1 ∧ c.Has opener later ∧
      opener.item.1 = j ∧ Sibling.members siblings j = opener :: later := by
  obtain ⟨k, site, item, hget⟩ := Sibling.exists_of_isIf (Sibling.isIf_of_attachment h).2
  have hopener : (j, item) ∈ (build (Sibling.numbered siblings)).1.filterMap Emitted.opener? := by
    rw [openers_build]
    exact List.mem_filterMap.mpr ⟨_, Sibling.mem_numbered hget, rfl⟩
  obtain ⟨e, he, heq⟩ := List.mem_filterMap.mp hopener
  cases e with
  | node item => cases heq
  | chain c =>
    obtain ⟨front, back, hout⟩ := List.mem_iff_append.mp he
    obtain ⟨opener, later, hhas, hmembers, -⟩ := complete_build siblings hout
    have hplace : opener.item.1 = j := by
      have hhead := hhas.opener.symm.trans heq
      exact congrArg Prod.fst (Option.some.inj hhead)
    exact ⟨c, opener, later, he, hhas, hplace, hplace ▸ hmembers⟩

/-- Where an `elseif` or `else` may stand is decided by the last `if` before it, and by the first
content or `else` between the two. The errors are those that this rule gives, at most one for each
sibling and in their order; a member without an error is in the chain that this `if` opens; and
gaps decide nothing. -/
theorem Chain.build_decided (siblings : List (Sibling α)) :
    (build siblings).2 =
        siblings.zipIdx.filterMap (fun (s, i) => s.errorUnder (Sibling.attachment siblings i)) ∧
      (build siblings).1 =
        (build (Sibling.numbered siblings)).1.map (Emitted.map Prod.snd) ∧
      (∀ i j c site item, siblings[i]? = some (.conditional c site item) → c.isLater = true →
        Sibling.attachment siblings i = .joins j →
          ∃ chain, .chain chain ∈ (build (Sibling.numbered siblings)).1 ∧
            chain.arms.head?.map (·.2.1) = some j ∧ ⟨some c, (i, item)⟩ ∈ chain.placed) ∧
      ∀ others : List (Sibling α),
        others.filter (!·.isGap) = siblings.filter (!·.isGap) →
          (build others).1.filterMap Emitted.chain? = (build siblings).1.filterMap Emitted.chain? ∧
            (build others).2 = (build siblings).2 := by
  refine ⟨errors_build siblings, build_numbered siblings, ?_, fun others h => build_of_filter_gap h⟩
  · intro i j c site item hget hc hv
    obtain ⟨chain, opener, later, hmem, hhas, hplace, hmembers⟩ := exists_of_attachment hv
    refine ⟨chain, hmem, ?_, ?_⟩
    · have hopener := congrArg (Option.map Prod.fst) hhas.opener
      simpa [hplace] using hopener
    · rw [hhas.placed, ← hmembers]
      exact List.mem_map_of_mem (Sibling.mem_members hget hc hv)

/-- An `if`, an `elseif` behind a gap, and an `else` behind content. -/
def Chain.interrupted : List (Sibling Nat) :=
  let condition : Condition := ⟨⟨"x", ⟨0, 0⟩⟩, .positive⟩
  let site (directive : String) (node : Nat) : Site :=
    ⟨directive, "p", ⟨node, node⟩, ⟨node, node + 1⟩, node⟩
  [.conditional (.opens condition) (site "if:true" 0) 0, .gap (some 1),
    .conditional (.continues condition) (site "elseif:true" 2) 2, .content 3,
    .conditional .otherwise (site "else" 4) 4]

/-- The `elseif` joins the `if` over the gap, and the `else` is not adjacent. Without the gap the
error is the same. -/
theorem Chain.build_decided_interrupted :
    (build interrupted).2 = [⟨.notAdjacent "else", "p", ⟨4, 4⟩, 4⟩] ∧
      (∃ chain, .chain chain ∈ (build (Sibling.numbered interrupted)).1 ∧
        chain.arms.head?.map (·.2.1) = some 0 ∧
          ⟨some (.continues ⟨⟨"x", ⟨0, 0⟩⟩, .positive⟩), (2, 2)⟩ ∈ chain.placed) ∧
      (build (interrupted.eraseIdx 1)).2 = [⟨.notAdjacent "else", "p", ⟨4, 4⟩, 4⟩] := by
  obtain ⟨herrors, -, hjoins, hgaps⟩ := build_decided interrupted
  have herror : (build interrupted).2 = [⟨.notAdjacent "else", "p", ⟨4, 4⟩, 4⟩] := herrors
  have hother := (hgaps (interrupted.eraseIdx 1) rfl).2
  exact ⟨herror, hjoins 2 0 _ _ _ rfl rfl (by decide), hother.trans herror⟩

end Stencil
