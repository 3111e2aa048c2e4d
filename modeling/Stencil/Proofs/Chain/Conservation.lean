import Stencil.Proofs.Chain.Decision

/-!
# Nothing is lost

What goes into the grouping comes out of it, also when members are misplaced: each item once and in
its place, less the gaps inside the chains. A gap is inside a chain when members of it stand on both
sides, and that is when a chain can be continued before the gap and the next sibling that is not a
gap continues it.
-/
namespace Stencil

variable {α : Type}

/-- The place lies strictly between two members of a chain. -/
def Emitted.encloses (i : Nat) : Emitted (Nat × α) → Bool
  | node _ => false
  | chain c => c.placed.any (fun p => p.item.1 < i) && c.placed.any (fun p => i < p.item.1)

theorem Emitted.encloses_chain {i : Nat} {c : Chain (Nat × α)} {ms : List (Member (Nat × α))}
    (h : c.placed = ms.map Member.placed) :
    (chain c).encloses i = true ↔ (∃ m ∈ ms, m.item.1 < i) ∧ ∃ m ∈ ms, i < m.item.1 := by
  simp only [encloses, h, Bool.and_eq_true, List.any_map, List.any_eq_true, Function.comp_apply,
    decide_eq_true_eq]
  exact Iff.rfl

/-- What is left of a sibling in an output: a gap inside a chain vanishes, and an `elseif` or `else`
without a chain stands by itself. -/
def Sibling.remains (siblings : List (Sibling α)) (out : List (Emitted (Nat × α))) :
    Sibling (Nat × α) → Option (Placed (Nat × α))
  | content item => some ⟨none, item⟩
  | gap item => (item.filter fun x => !out.any (·.encloses x.1)).map (⟨none, ·⟩)
  | conditional c _ item =>
    some ⟨if c.isLater && (attachment siblings item.1).cause?.isSome then none else some c, item⟩

theorem Sibling.map_item_remains (siblings : List (Sibling α)) (out : List (Emitted (Nat × α)))
    (s : Sibling (Nat × α)) :
    (s.remains siblings out).map Placed.item =
      s.item?.filter fun x => !(s.isGap && out.any (·.encloses x.1)) := by
  cases s with
  | content item => rfl
  | gap item =>
    cases item with
    | none => rfl
    | some x => simp [remains, item?, isGap, Function.comp_def]
  | conditional c site item => rfl

theorem Attachment.isNone_cause?_iff (v : Attachment) :
    v.cause?.isNone = true ↔ ∃ j, v = joins j := by
  cases v with
  | joins j => exact ⟨fun _ => ⟨j, rfl⟩, fun _ => rfl⟩
  | orphaned => simp [cause?]
  | notAdjacent => simp [cause?]

/-! ## Gaps inside a chain -/

namespace Sibling

variable {siblings : List (Sibling α)} {front back : List (Sibling (Nat × α))}

theorem attachment_behind_gap {item : Option (Nat × α)}
    (h : numbered siblings = front ++ .gap item :: back) :
    attachment siblings (front ++ [gap item]).length = attachment siblings front.length :=
  attachment_behind_front h

theorem conditional_of_numbered {c : Conditional} {site : Site} {item : Nat × α}
    (h : numbered siblings = front ++ .conditional c site item :: back) :
    siblings[front.length]? = some (.conditional c site item.2) := by
  have hget : (numbered siblings)[front.length]? = some (.conditional c site item) := by simp [h]
  rw [getElem?_numbered] at hget
  obtain ⟨s, hs, hmap⟩ := Option.map_eq_some_iff.mp hget
  cases s with
  | content item => cases hmap
  | gap item => cases hmap
  | conditional part site item =>
    cases hmap
    exact hs

/-- An `elseif` or `else` behind some gaps has what is open before them. -/
theorem exists_of_laterNext (hs : numbered siblings = front ++ back) (h : laterNext back = true) :
    ∃ i c site item, front.length ≤ i ∧ siblings[i]? = some (.conditional c site item) ∧
      c.isLater = true ∧ attachment siblings i = attachment siblings front.length := by
  induction back generalizing front with
  | nil => cases h
  | cons s back ih =>
    cases s with
    | content item => cases h
    | gap item =>
      have hnext : numbered siblings = (front ++ [.gap item]) ++ back := by simpa using hs
      obtain ⟨i, c, site, x, hi, hget, hc, hv⟩ := ih hnext h
      rw [attachment_behind_gap hs] at hv
      rw [List.length_append] at hi
      exact ⟨i, c, site, x, by omega, hget, hc, hv⟩
    | conditional c site item =>
      exact ⟨front.length, c, site, item.2, Nat.le_refl _, conditional_of_numbered hs, h, rfl⟩

/-- A chain with members further on goes on behind the gaps. -/
theorem laterNext_of_joined (hs : numbered siblings = front ++ back) {j : Nat}
    (hj : j < front.length) (h : joined siblings j back ≠ []) : laterNext back = true := by
  induction back generalizing front with
  | nil => exact absurd rfl h
  | cons s back ih =>
    cases s with
    | content item => exact absurd (joined_behind hs rfl rfl hj) h
    | gap item =>
      have hnext : numbered siblings = (front ++ [.gap item]) ++ back := by simpa using hs
      exact ih hnext (by simp; omega) h
    | conditional c site item =>
      cases hc : c.isLater with
      | false => exact absurd (joined_behind hs rfl hc hj) h
      | true => exact hc

/-- The members of a chain do not stand before its `if`. -/
theorem le_of_belongs {j : Nat} {m : Member (Nat × α)} (h : belongs siblings j m = true) :
    j ≤ m.item.1 := by
  rw [belongs] at h
  split at h
  · exact Nat.le_of_lt (isIf_of_attachment (eq_of_beq h)).1
  · exact Nat.le_of_eq (eq_of_beq h).symm

end Sibling

namespace Chain

variable {siblings : List (Sibling α)} {front back : List (Sibling (Nat × α))}

/-- What a chain of the output is made of belongs to one `if`. -/
theorem exists_members {c : Chain (Nat × α)}
    (h : .chain c ∈ (build (Sibling.numbered siblings)).1) :
    ∃ j, c.placed = (Sibling.members siblings j).map Member.placed := by
  obtain ⟨before, after, hout⟩ := List.mem_iff_append.mp h
  obtain ⟨opener, later, hhas, hmembers, -⟩ := complete_build siblings hout
  exact ⟨opener.item.1, by rw [hhas.placed, hmembers]⟩

/-- A gap inside a chain of the output: a chain can be continued before it and is continued
behind it. -/
theorem joins_of_encloses {item : Option (Nat × α)}
    (hs : Sibling.numbered siblings = front ++ .gap item :: back)
    (h : (build (Sibling.numbered siblings)).1.any (·.encloses front.length) = true) :
    (∃ j, Sibling.attachment siblings front.length = .joins j) ∧ Sibling.laterNext back = true := by
  obtain ⟨e, he, hencloses⟩ := List.any_eq_true.mp h
  cases e with
  | node item => cases hencloses
  | chain c =>
    obtain ⟨j, hplaced⟩ := exists_members he
    obtain ⟨⟨m, hm, hbefore⟩, m', hm', hbehind⟩ := (Emitted.encloses_chain hplaced).mp hencloses
    have hj : j < front.length :=
      Nat.lt_of_le_of_lt (Sibling.le_of_belongs (List.mem_filter.mp hm).2) hbefore
    -- The member behind the gap is none of those in front of it.
    have hback : m' ∈ Sibling.joined siblings j back := by
      rw [Sibling.members, hs, Sibling.joined_append, List.mem_append] at hm'
      refine hm'.resolve_left fun hfront => ?_
      have hlt := Sibling.place_front hs (List.mem_filter.mp hfront).1
      exact Nat.lt_asymm hlt hbehind
    have hopen : Sibling.attachment siblings front.length = .joins j := by
      refine Decidable.byContradiction fun hne => ?_
      have hnone : Sibling.joined siblings j back = [] := Sibling.joined_back hs hj hne
      rw [hnone] at hback
      cases hback
    have hnext : Sibling.numbered siblings = (front ++ [.gap item]) ++ back := by simpa using hs
    exact ⟨⟨j, hopen⟩,
      Sibling.laterNext_of_joined hnext (by simp; omega) (List.ne_nil_of_mem hback)⟩

theorem encloses_of_joins {item : Option (Nat × α)} {j : Nat}
    (hs : Sibling.numbered siblings = front ++ .gap item :: back)
    (hv : Sibling.attachment siblings front.length = .joins j)
    (hlater : Sibling.laterNext back = true) :
    (build (Sibling.numbered siblings)).1.any (·.encloses front.length) = true := by
  have hnext : Sibling.numbered siblings = (front ++ [.gap item]) ++ back := by simpa using hs
  obtain ⟨k, c, site, x, hk, hget, hc, hvk⟩ := Sibling.exists_of_laterNext hnext hlater
  rw [List.length_append, List.length_singleton] at hk
  rw [Sibling.attachment_behind_gap hs, hv] at hvk
  obtain ⟨chain, opener, later, hmem, hhas, hplace, hmembers⟩ := exists_of_attachment hvk
  refine List.any_eq_true.mpr ⟨.chain chain, hmem, (Emitted.encloses_chain hhas.placed).mpr ?_⟩
  have hbefore : opener.item.1 < front.length := hplace ▸ (Sibling.isIf_of_attachment hv).1
  have hbehind := Sibling.mem_members hget hc hvk
  rw [hmembers] at hbehind
  exact ⟨⟨opener, List.mem_cons_self, hbefore⟩, _, hbehind, hk⟩

/-! ## What is left of each sibling -/

namespace Context

variable {context : Context (Nat × α)}

/-- What one sibling leaves, by its place. -/
theorem place_eq (hcause : context.cause? = (Sibling.attachment siblings front.length).cause?)
    {s : Sibling (Nat × α)} (hs : Sibling.numbered siblings = front ++ s :: back) :
    context.place (Sibling.laterNext back) s =
      (s.remains siblings (build (Sibling.numbered siblings)).1).toList := by
  have haccepts := accepts_eq context
  rw [hcause] at haccepts
  cases s with
  | content item => rfl
  | gap item =>
    cases item with
    | none =>
      rw [place]
      cases context.accepts && Sibling.laterNext back <;> rfl
    | some x =>
      have hplace : x.1 = front.length := Sibling.place_of_item hs rfl
      have hinside : (build (Sibling.numbered siblings)).1.any (·.encloses x.1) =
          (context.accepts && Sibling.laterNext back) := by
        rw [Bool.eq_iff_iff, hplace, Bool.and_eq_true, haccepts, Attachment.isNone_cause?_iff]
        constructor
        · exact joins_of_encloses hs
        · rintro ⟨⟨j, hv⟩, hlater⟩
          exact encloses_of_joins hs hv hlater
      rw [place, Sibling.remains, Option.filter_some, hinside]
      cases context.accepts && Sibling.laterNext back <;> rfl
  | conditional c site item =>
    have hplace : item.1 = front.length := Sibling.place_of_item hs rfl
    rw [place, Sibling.remains, haccepts, hplace, Option.not_isNone]
    rfl

theorem placed_eq (hcause : context.cause? = (Sibling.attachment siblings front.length).cause?)
    (hs : Sibling.numbered siblings = front ++ back) :
    context.placed back =
      back.filterMap (Sibling.remains siblings (build (Sibling.numbered siblings)).1) := by
  induction back generalizing front context with
  | nil => rfl
  | cons s back ih =>
    have hstep : (context.step s).context.cause? =
        (Sibling.attachment siblings (front ++ [s]).length).cause? := by
      rw [Sibling.attachment_behind_front hs]
      exact cause?_step hcause front.length s
    rw [placed, place_eq hcause hs, ih hstep (by simpa using hs), List.filterMap_cons]
    cases s.remains siblings (build (Sibling.numbered siblings)).1 <;> rfl

end Context

/-- The output laid out is what is left of the siblings, in their order. -/
theorem placed_build_eq (siblings : List (Sibling α)) :
    (build (Sibling.numbered siblings)).1.flatMap Emitted.placed =
      (Sibling.numbered siblings).filterMap
        (Sibling.remains siblings (build (Sibling.numbered siblings)).1) := by
  have hcause : (Context.idle : Context (Nat × α)).cause? =
      (Sibling.attachment siblings ([] : List (Sibling (Nat × α))).length).cause? := rfl
  have hs : Sibling.numbered siblings = [] ++ Sibling.numbered siblings := rfl
  have hrun := Context.placed_run Context.sound_idle (Sibling.numbered siblings)
  rw [Context.placed_eq hcause hs] at hrun
  exact hrun

/-- An item that takes no part in a chain is emitted by itself. -/
theorem node_of_placed {out : List (Emitted α)} {item : α}
    (h : ⟨none, item⟩ ∈ out.flatMap Emitted.placed) : .node item ∈ out := by
  obtain ⟨e, he, hp⟩ := List.mem_flatMap.mp h
  cases e with
  | node x =>
    cases List.mem_singleton.mp hp
    exact he
  | chain c => cases role_of_placed hp

/-- A member that the rule makes an error is emitted by itself. -/
theorem node_of_error {i : Nat} {c : Conditional} {site : Site} {item : α}
    (hget : siblings[i]? = some (.conditional c site item))
    (herror : ((Sibling.conditional c site item).errorUnder
      (Sibling.attachment siblings i)).isSome = true) :
    .node (i, item) ∈ (build (Sibling.numbered siblings)).1 := by
  apply node_of_placed
  rw [placed_build_eq]
  refine List.mem_filterMap.mpr ⟨_, Sibling.mem_numbered hget, ?_⟩
  rw [Sibling.errorUnder] at herror
  cases hc : c.isLater with
  | false => simp [hc] at herror
  | true =>
    have hcause : (Sibling.attachment siblings i).cause?.isSome = true := by
      simpa [hc] using herror
    simp [Sibling.map, Sibling.remains, hc, hcause]

/-- What an output keeps of a sibling list whose items have their places. -/
structure Conserves (siblings : List (Sibling α)) (out : List (Emitted (Nat × α))) : Prop where
  /-- All items are there, each once and in order, but for the gaps inside the chains. -/
  items : (out.flatMap Emitted.placed).map Placed.item =
    (Sibling.numbered siblings).filterMap fun s =>
      s.item?.filter fun x => !(s.isGap && out.any (·.encloses x.1))
  chains : ∀ front c back, out = front ++ .chain c :: back → c.Complete siblings back
  openers : out.filterMap Emitted.opener? =
    (Sibling.numbered siblings).filterMap Sibling.opener?
  misplaced : ∀ i c site item, siblings[i]? = some (.conditional c site item) →
    ((Sibling.conditional c site item).errorUnder (Sibling.attachment siblings i)).isSome = true →
      .node (i, item) ∈ out

/-- Grouping keeps all siblings, also in lists with errors. Only gaps inside a chain are dropped,
and the gaps behind its last member come right behind it; a chain is its `if` with all that joins
it, each `if` opens one, and what has an error stands by itself. -/
theorem build_conserves (siblings : List (Sibling α)) :
    (build siblings).1 = (build (Sibling.numbered siblings)).1.map (Emitted.map Prod.snd) ∧
      (build siblings).2 =
        siblings.zipIdx.filterMap (fun (s, i) => s.errorUnder (Sibling.attachment siblings i)) ∧
      Conserves siblings (build (Sibling.numbered siblings)).1 := by
  refine ⟨build_numbered siblings, errors_build siblings, ?_,
    fun _ _ _ h => complete_build siblings h, openers_build _,
    fun i c site item hget herror => node_of_error hget herror⟩
  rw [placed_build_eq, List.map_filterMap]
  congr 1
  funext s
  exact Sibling.map_item_remains siblings _ s

end Chain
end Stencil
