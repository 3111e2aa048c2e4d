import Stencil.Proofs.Chain.Attachment
import Stencil.Proofs.Chain.Naturality

/-!
# The members of each chain

Each item is paired with the place of its sibling, so that the output tells which siblings its
chains are made of. The chain that an `if` opens consists of that `if` and of exactly those members
behind it that the rule lets join it. The invariant of a run is that an open chain has those of them
that were met so far, and that the gaps held back are the gaps behind the last one.
-/
namespace Stencil

variable {α : Type}

/-- An item with a part in a chain, and where it was written. -/
structure Member (α : Type) where
  part : Conditional
  site : Site
  item : α

def Member.placed (m : Member α) : Placed α :=
  ⟨some m.part, m.item⟩

namespace Sibling

def item? : Sibling α → Option α
  | content item | conditional _ _ item => some item
  | gap item => item

def member? : Sibling α → Option (Member α)
  | conditional part site item => some ⟨part, site, item⟩
  | content _ | gap _ => none

/-- Pairs each item with the place of its sibling. -/
def numbered (siblings : List (Sibling α)) : List (Sibling (Nat × α)) :=
  siblings.zipIdx.map fun (s, i) => s.map (Prod.mk i)

/-- A member of the chain that the `if` at place `j` opens: this `if`, and what joins it. -/
def belongs (siblings : List (Sibling α)) (j : Nat) (m : Member (Nat × α)) : Bool :=
  if m.part.isLater then attachment siblings m.item.1 == .joins j else m.item.1 == j

/-- The members of a chain among some of the siblings. -/
def joined (siblings : List (Sibling α)) (j : Nat) (some : List (Sibling (Nat × α))) :
    List (Member (Nat × α)) :=
  (some.filterMap member?).filter (belongs siblings j)

/-- All members of the chain that the `if` at place `j` opens, in order. -/
def members (siblings : List (Sibling α)) (j : Nat) : List (Member (Nat × α)) :=
  joined siblings j (numbered siblings)

/-- The items of the gaps right behind a place. -/
def gapsBehind (siblings : List (Sibling α)) (i : Nat) : List (Nat × α) :=
  (((numbered siblings).drop (i + 1)).takeWhile isGap).filterMap item?

/-! ## Places -/

variable {siblings : List (Sibling α)}

theorem getElem?_numbered (siblings : List (Sibling α)) (i : Nat) :
    (numbered siblings)[i]? = siblings[i]?.map (Sibling.map (Prod.mk i)) := by
  simp [numbered, Function.comp_def]

theorem map_numbered (siblings : List (Sibling α)) :
    (numbered siblings).map (Sibling.map Prod.snd) = siblings := by
  have hmap (i : Nat) : Sibling.map Prod.snd ∘ Sibling.map (Prod.mk i) = (id : Sibling α → _) := by
    funext s
    cases s <;> simp [Sibling.map, Function.comp_def]
  apply List.ext_getElem?
  intro i
  simp [getElem?_numbered, hmap]

theorem behind_map {β : Type} (f : α → β) (v : Attachment) (i : Nat) (s : Sibling α) :
    v.behind i (s.map f) = v.behind i s := by
  cases s with
  | content item => rfl
  | gap item => rfl
  | conditional c site item => cases c <;> rfl

/-- The items of a numbered list have the places of their siblings. -/
theorem place_of_item {front back : List (Sibling (Nat × α))} {s : Sibling (Nat × α)}
    (h : numbered siblings = front ++ s :: back) {x : Nat × α} (hx : s.item? = some x) :
    x.1 = front.length := by
  have hget : (numbered siblings)[front.length]? = some s := by simp [h]
  rw [getElem?_numbered] at hget
  obtain ⟨t, -, rfl⟩ := Option.map_eq_some_iff.mp hget
  cases t with
  | content item => exact congrArg Prod.fst (Option.some.inj hx).symm
  | gap item =>
    obtain ⟨y, -, rfl⟩ := Option.map_eq_some_iff.mp hx
    rfl
  | conditional c site item => exact congrArg Prod.fst (Option.some.inj hx).symm

theorem attachment_behind_front {front back : List (Sibling (Nat × α))} {s : Sibling (Nat × α)}
    (h : numbered siblings = front ++ s :: back) :
    attachment siblings (front ++ [s]).length =
      (attachment siblings front.length).behind front.length s := by
  have hget : (numbered siblings)[front.length]? = some s := by simp [h]
  rw [getElem?_numbered] at hget
  obtain ⟨t, ht, rfl⟩ := Option.map_eq_some_iff.mp hget
  rw [behind_map, List.length_append, List.length_singleton, attachment_succ ht]

theorem item?_of_member? {s : Sibling α} {m : Member α} (h : s.member? = some m) :
    s.item? = some m.item := by
  cases s with
  | content item => cases h
  | gap item => cases h
  | conditional c site item =>
    obtain rfl := Option.some.inj h
    rfl

theorem place_front {front back : List (Sibling (Nat × α))} (h : numbered siblings = front ++ back)
    {m : Member (Nat × α)} (hm : m ∈ front.filterMap member?) : m.item.1 < front.length := by
  obtain ⟨s, hs, hsm⟩ := List.mem_filterMap.mp hm
  obtain ⟨before, after, rfl⟩ := List.mem_iff_append.mp hs
  rw [List.append_assoc, List.cons_append] at h
  rw [place_of_item h (item?_of_member? hsm)]
  simp

theorem place_back {front back : List (Sibling (Nat × α))} (h : numbered siblings = front ++ back)
    {m : Member (Nat × α)} (hm : m ∈ back.filterMap member?) : front.length ≤ m.item.1 := by
  obtain ⟨s, hs, hsm⟩ := List.mem_filterMap.mp hm
  obtain ⟨before, after, rfl⟩ := List.mem_iff_append.mp hs
  rw [← List.append_assoc] at h
  rw [place_of_item h (item?_of_member? hsm)]
  simp

/-! ## Members -/

@[simp] theorem joined_append (j : Nat) (front back : List (Sibling (Nat × α))) :
    joined siblings j (front ++ back) = joined siblings j front ++ joined siblings j back := by
  simp [joined]

@[simp] theorem joined_gap (j : Nat) (item : Option (Nat × α)) :
    joined siblings j [gap item] = [] := rfl

@[simp] theorem joined_content (j : Nat) (item : Nat × α) :
    joined siblings j [content item] = [] := rfl

theorem joined_conditional (j : Nat) (c : Conditional) (site : Site) (item : Nat × α) :
    joined siblings j [conditional c site item] =
      if belongs siblings j ⟨c, site, item⟩ then [⟨c, site, item⟩] else [] := by
  cases h : belongs siblings j ⟨c, site, item⟩ <;> simp [joined, member?, h]

/-- No chain has members before its `if`. -/
theorem joined_front {front back : List (Sibling (Nat × α))} (h : numbered siblings = front ++ back)
    {j : Nat} (hj : front.length ≤ j) : joined siblings j front = [] := by
  rw [joined, List.filter_eq_nil_iff]
  intro m hm
  have hlt := place_front h hm
  rw [belongs]
  split
  · intro heq
    have := (isIf_of_attachment (eq_of_beq heq)).1
    omega
  · simp
    omega

/-- Once a chain cannot be continued it has no members any more. -/
theorem joined_back {front back : List (Sibling (Nat × α))} (h : numbered siblings = front ++ back)
    {j : Nat} (hj : j < front.length) (hv : attachment siblings front.length ≠ .joins j) :
    joined siblings j back = [] := by
  rw [joined, List.filter_eq_nil_iff]
  intro m hm
  have hle := place_back h hm
  rw [belongs]
  split
  · intro heq
    exact hv (attachment_of_le (eq_of_beq heq) hj hle)
  · simp
    omega

/-- Content in front of the rest, or an `if`, ends all chains before it. -/
theorem joined_behind {front back : List (Sibling (Nat × α))} {s : Sibling (Nat × α)}
    (h : numbered siblings = front ++ s :: back) (hs : s.isGap = false) (hl : s.isLater = false)
    {j : Nat} (hj : j < front.length) : joined siblings j (s :: back) = [] := by
  have hattach := attachment_behind_front h
  have hfront : numbered siblings = (front ++ [s]) ++ back := by simpa using h
  have hback (hv : attachment siblings (front ++ [s]).length ≠ .joins j) :
      joined siblings j back = [] :=
    joined_back hfront (by simp; omega) hv
  rw [← List.singleton_append, joined_append]
  cases s with
  | content item =>
    rw [joined_content, List.nil_append]
    apply hback
    rw [hattach]
    cases attachment siblings front.length <;> simp [Attachment.behind, Attachment.cut]
  | gap item => cases hs
  | conditional c site item =>
    cases c with
    | opens k =>
      have hplace : item.1 = front.length := place_of_item h rfl
      rw [joined_conditional, hback, List.append_nil, if_neg]
      · simp [belongs, Conditional.isLater]
        omega
      · rw [hattach]
        simp [Attachment.behind]
        omega
    | continues k => cases hl
    | otherwise => cases hl

end Sibling

/-! ## Chains -/

namespace Chain

/-- The chain has these members and no others, each with the part that it takes, and reaches from
the start of the first to the end of the last. -/
structure Has (c : Chain α) (opener : Member α) (later : List (Member α)) : Prop where
  opens : opener.part.isLater = false
  continues : ∀ m ∈ later, m.part.isLater = true
  placed : c.placed = (opener :: later).map Member.placed
  span : c.span = ⟨opener.site.extent.start, (later.getLastD opener).site.extent.stop⟩

theorem has_start (k : Condition) (site : Site) (item : α) :
    Has ⟨[(k, item)], none, site.extent⟩ ⟨.opens k, site, item⟩ [] :=
  ⟨rfl, by simp, rfl, rfl⟩

variable {c : Chain α} {opener : Member α} {later : List (Member α)}

/-- A chain that grows by one member. -/
theorem Has.concat {c' : Chain α} {m : Member α} (h : c.Has opener later)
    (hm : m.part.isLater = true) (hplaced : c'.placed = c.placed ++ [m.placed])
    (hspan : c'.span = ⟨c.span.start, m.site.extent.stop⟩) : c'.Has opener (later ++ [m]) := by
  refine ⟨h.opens, ?_, ?_, ?_⟩
  · rw [List.forall_mem_append, List.forall_mem_singleton]
    exact ⟨h.continues, hm⟩
  · rw [hplaced, h.placed]
    simp
  · rw [hspan, h.span]
    simp

theorem Has.continued (h : c.Has opener later) (ha : c.arms ≠ []) (ho : c.otherwise = none)
    (k : Condition) (site : Site) (item : α) :
    Has ⟨c.arms ++ [(k, item)], c.otherwise, ⟨c.span.start, site.extent.stop⟩⟩ opener
      (later ++ [⟨.continues k, site, item⟩]) :=
  have harms := placedArms_concat .opens c.arms k item ha
  h.concat rfl (by simp [Chain.placed, ho, harms, Member.placed]) rfl

theorem Has.finished (h : c.Has opener later) (ho : c.otherwise = none) (site : Site) (item : α) :
    Has ⟨c.arms, some item, ⟨c.span.start, site.extent.stop⟩⟩ opener
      (later ++ [⟨.otherwise, site, item⟩]) :=
  h.concat rfl (by simp [Chain.placed, ho, Member.placed]) rfl

/-- A chain of the output: it has all members that belong to its `if`, and the gaps behind the last
of them follow it. -/
def Complete (siblings : List (Sibling α)) (c : Chain (Nat × α))
    (es : List (Emitted (Nat × α))) : Prop :=
  ∃ opener later, c.Has opener later ∧
    Sibling.members siblings opener.item.1 = opener :: later ∧
    (Sibling.gapsBehind siblings (later.getLastD opener).item.1).map .node <+: es

/-- An open chain behind some siblings, and the gaps held back: it has the members that were met so
far, only it can be continued, and only gaps stand behind its last member. -/
def Stands (siblings : List (Sibling α)) (front : List (Sibling (Nat × α))) (c : Chain (Nat × α))
    (gaps : List (Nat × α)) : Prop :=
  ∃ opener later, c.Has opener later ∧
    Sibling.joined siblings opener.item.1 front = opener :: later ∧
    (∀ j, Sibling.attachment siblings front.length = .joins j → j = opener.item.1) ∧
    ∃ upto behind, front = upto ++ behind ∧
      upto.length = (later.getLastD opener).item.1 + 1 ∧
      (∀ s ∈ behind, s.isGap = true) ∧ gaps = behind.filterMap Sibling.item?

variable {siblings : List (Sibling α)} {front back : List (Sibling (Nat × α))}

/-- A chain that stands is complete when nothing behind belongs to it. -/
theorem Stands.complete {c : Chain (Nat × α)} {gaps : List (Nat × α)}
    (h : c.Stands siblings front gaps) (hs : Sibling.numbered siblings = front ++ back)
    (hclosed : ∀ j < front.length, Sibling.joined siblings j back = [])
    (hgap : back.head?.all (!·.isGap)) : c.Complete siblings (gaps.map .node) := by
  obtain ⟨opener, later, hhas, hjoined, -, upto, behind, rfl, hlast, hbehind, rfl⟩ := h
  have hopener : opener ∈ (upto ++ behind).filterMap Sibling.member? := by
    have hmem : opener ∈ Sibling.joined siblings opener.item.1 (upto ++ behind) := by
      simp [hjoined]
    exact (List.mem_filter.mp hmem).1
  have hplace := Sibling.place_front hs hopener
  refine ⟨opener, later, hhas, ?_, ?_⟩
  · rw [Sibling.members, hs, Sibling.joined_append, hjoined, hclosed _ hplace, List.append_nil]
  · have hback : back.takeWhile Sibling.isGap = [] := by
      cases back with
      | nil => rfl
      | cons s back => exact List.takeWhile_cons_of_neg (by simpa using hgap)
    have htake : (behind ++ back).takeWhile Sibling.isGap = behind := by
      rw [List.takeWhile_append_of_pos hbehind, hback, List.append_nil]
    have hgaps : Sibling.gapsBehind siblings (later.getLastD opener).item.1 =
        behind.filterMap Sibling.item? := by
      rw [Sibling.gapsBehind, hs, ← hlast, List.append_assoc, List.drop_left, htake]
    exact hgaps ▸ List.prefix_rfl

end Chain

namespace Emitted

/-- Each chain of an output has a property, together with what follows it. -/
def EachChain (p : Chain α → List (Emitted α) → Prop) : List (Emitted α) → Prop
  | [] => True
  | .node _ :: es => EachChain p es
  | .chain c :: es => p c es ∧ EachChain p es

variable {p : Chain α → List (Emitted α) → Prop}

theorem eachChain_nodes (p : Chain α → List (Emitted α) → Prop) (items : List α) :
    EachChain p (items.map .node) := by
  induction items with
  | nil => trivial
  | cons item items ih => exact ih

theorem EachChain.append (hp : ∀ c es more, p c es → p c (es ++ more)) {es more : List (Emitted α)}
    (hes : EachChain p es) (hmore : EachChain p more) : EachChain p (es ++ more) := by
  induction es with
  | nil => exact hmore
  | cons e es ih =>
    cases e with
    | node item => exact ih hes
    | chain c => exact ⟨hp c es more hes.1, ih hes.2⟩

theorem EachChain.split {front back : List (Emitted α)} {c : Chain α}
    (h : EachChain p (front ++ .chain c :: back)) : p c back := by
  induction front with
  | nil => exact h.1
  | cons e front ih =>
    cases e with
    | node item => exact ih h
    | chain d => exact ih h.2

end Emitted

namespace Chain.Context

variable {siblings : List (Sibling α)} {front back : List (Sibling (Nat × α))}
  {context : Context (Nat × α)}

/-- The context behind some siblings: an open chain stands. -/
def Stands (siblings : List (Sibling α)) (front : List (Sibling (Nat × α))) :
    Context (Nat × α) → Prop
  | opened chain _ gaps => chain.Stands siblings front gaps
  | idle | closed _ => True

theorem complete_append (c : Chain (Nat × α)) (es more : List (Emitted (Nat × α)))
    (h : c.Complete siblings es) : c.Complete siblings (es ++ more) := by
  obtain ⟨opener, later, hhas, hmembers, hgaps⟩ := h
  exact ⟨opener, later, hhas, hmembers, hgaps.trans (List.prefix_append es more)⟩

/-- What is closed is complete. -/
theorem Stands.release (h : context.Stands siblings front)
    (hs : Sibling.numbered siblings = front ++ back)
    (hclosed : ∀ j < front.length, Sibling.joined siblings j back = [])
    (hgap : back.head?.all (!·.isGap)) :
    Emitted.EachChain (Chain.Complete siblings) context.release := by
  cases context with
  | idle => trivial
  | closed terminated => trivial
  | opened chain terminated gaps =>
    exact ⟨h.complete hs hclosed hgap, Emitted.eachChain_nodes _ gaps⟩

theorem stands_close (context : Context (Nat × α)) : context.close.Stands siblings front := by
  cases context <;> trivial

/-- A sibling that does not continue a chain closes what stands open. -/
theorem Stands.close (h : context.Stands siblings front) (item : Nat × α)
    (hs : Sibling.numbered siblings = front ++ back)
    (hclosed : ∀ j < front.length, Sibling.joined siblings j back = [])
    (hgap : back.head?.all (!·.isGap)) :
    Emitted.EachChain (Chain.Complete siblings) (context.release ++ [.node item]) :=
  (h.release hs hclosed hgap).append complete_append trivial

theorem Stands.gap (h : context.Stands siblings front) (item : Option (Nat × α))
    (hs : Sibling.numbered siblings = front ++ .gap item :: back) :
    Emitted.EachChain (Chain.Complete siblings) (context.gap item).output ∧
      (context.gap item).context.Stands siblings (front ++ [.gap item]) := by
  cases context with
  | idle => cases item <;> exact ⟨trivial, trivial⟩
  | closed terminated => cases item <;> exact ⟨trivial, trivial⟩
  | opened chain terminated gaps =>
    obtain ⟨opener, later, hhas, hjoined, honly, upto, behind, rfl, hlast, hbehind, rfl⟩ := h
    have hstep : (opened chain terminated (behind.filterMap Sibling.item?)).gap item =
        ⟨opened chain terminated ((behind ++ [Sibling.gap item]).filterMap Sibling.item?),
          [], none⟩ := by
      cases item <;> simp [Context.gap, Sibling.item?]
    rw [hstep]
    refine ⟨trivial, opener, later, hhas, by simpa using hjoined, ?_, upto, behind ++ [.gap item],
      by simp, hlast, ?_, rfl⟩
    · rw [Sibling.attachment_behind_front hs]
      exact honly
    · rw [List.forall_mem_append, List.forall_mem_singleton]
      exact ⟨hbehind, rfl⟩

/-- A chain stands as soon as it begins. -/
theorem stands_start {k : Condition} {site : Site} {item : Nat × α}
    (hs : Sibling.numbered siblings = front ++ .conditional (.opens k) site item :: back) :
    Chain.Stands siblings (front ++ [.conditional (.opens k) site item])
      ⟨[(k, item)], none, site.extent⟩ [] := by
  have hplace : item.1 = front.length := Sibling.place_of_item hs rfl
  refine ⟨⟨.opens k, site, item⟩, [], Chain.has_start k site item, ?_, ?_,
    front ++ [.conditional (.opens k) site item], [], by simp, by simp [hplace], by simp, rfl⟩
  · rw [Sibling.joined_append, Sibling.joined_front hs (Nat.le_of_eq hplace.symm),
      Sibling.joined_conditional, if_pos (by simp [Sibling.belongs, Conditional.isLater])]
    rfl
  · intro j hj
    rw [Sibling.attachment_behind_front hs] at hj
    exact (Attachment.joins.inj hj).symm.trans hplace.symm

/-- It stands with one more member, which was to join it. -/
theorem stands_concat {opener : Member (Nat × α)} {later : List (Member (Nat × α))}
    {chain : Chain (Nat × α)} {part : Conditional} {site : Site} {item : Nat × α}
    (hs : Sibling.numbered siblings = front ++ .conditional part site item :: back)
    (hhas : chain.Has opener (later ++ [⟨part, site, item⟩]))
    (hjoined : Sibling.joined siblings opener.item.1 front = opener :: later)
    (hattach : Sibling.attachment siblings front.length = .joins opener.item.1)
    (hpart : part.isLater = true) :
    chain.Stands siblings (front ++ [.conditional part site item]) [] := by
  have hplace : item.1 = front.length := Sibling.place_of_item hs rfl
  refine ⟨opener, later ++ [⟨part, site, item⟩], hhas, ?_, ?_,
    front ++ [.conditional part site item], [], by simp, by simp [hplace], by simp, rfl⟩
  · have hbelongs : Sibling.belongs siblings opener.item.1 ⟨part, site, item⟩ = true := by
      simp [Sibling.belongs, hpart, hplace, hattach]
    rw [Sibling.joined_append, hjoined, Sibling.joined_conditional, if_pos hbelongs]
    rfl
  · intro j hj
    rw [Sibling.attachment_behind_front hs, hattach] at hj
    cases part with
    | opens k => cases hpart
    | continues k => exact (Attachment.joins.inj hj).symm
    | otherwise => cases hj

theorem Stands.extend (h : context.Stands siblings front) (hsound : context.Sound)
    (hcause : context.cause? = (Sibling.attachment siblings front.length).cause?)
    (condition : Option Condition) (site : Site) (item : Nat × α)
    (hs : Sibling.numbered siblings =
      front ++ .conditional (condition.elim .otherwise .continues) site item :: back) :
    Emitted.EachChain (Chain.Complete siblings) (context.extend condition site item).output ∧
      (context.extend condition site item).context.Stands siblings
        (front ++ [.conditional (condition.elim .otherwise .continues) site item]) := by
  cases context with
  | idle => exact ⟨trivial, trivial⟩
  | closed terminated => cases terminated <;> exact ⟨trivial, trivial⟩
  | opened chain terminated gaps =>
    cases terminated with
    | true =>
      have hclosed : ∀ j < front.length, Sibling.joined siblings j
          (.conditional (condition.elim .otherwise .continues) site item :: back) = [] := by
        intro j hj
        refine Sibling.joined_back hs hj fun hv => ?_
        rw [hv] at hcause
        cases hcause
      exact ⟨h.close item hs hclosed rfl, trivial⟩
    | false =>
      obtain ⟨opener, later, hhas, hjoined, honly, -⟩ := h
      have hattach : Sibling.attachment siblings front.length = .joins opener.item.1 := by
        cases hv : Sibling.attachment siblings front.length with
        | joins j => rw [honly j hv]
        | orphaned => rw [hv] at hcause; cases hcause
        | notAdjacent => rw [hv] at hcause; cases hcause
      have ho : chain.otherwise = none := hsound.2 rfl
      cases condition with
      | none => exact ⟨trivial, stands_concat hs (hhas.finished ho site item) hjoined hattach rfl⟩
      | some k =>
        exact ⟨trivial,
          stands_concat hs (hhas.continued hsound.1 ho k site item) hjoined hattach rfl⟩

theorem Stands.step (h : context.Stands siblings front) (hsound : context.Sound)
    (hcause : context.cause? = (Sibling.attachment siblings front.length).cause?)
    {s : Sibling (Nat × α)} (hs : Sibling.numbered siblings = front ++ s :: back) :
    Emitted.EachChain (Chain.Complete siblings) (context.step s).output ∧
      (context.step s).context.Stands siblings (front ++ [s]) := by
  cases s with
  | content item =>
    have hclosed : ∀ j < front.length, Sibling.joined siblings j (.content item :: back) = [] :=
      fun j hj => Sibling.joined_behind hs rfl rfl hj
    exact ⟨h.close item hs hclosed rfl, stands_close context⟩
  | gap item => exact h.gap item hs
  | conditional c site item =>
    cases c with
    | opens k =>
      have hclosed : ∀ j < front.length,
          Sibling.joined siblings j (.conditional (.opens k) site item :: back) = [] :=
        fun j hj => Sibling.joined_behind hs rfl rfl hj
      exact ⟨h.release hs hclosed rfl, stands_start hs⟩
    | continues k => exact h.extend hsound hcause (some k) site item hs
    | otherwise => exact h.extend hsound hcause none site item hs

/-- All chains that a run lets go of are complete. -/
theorem Stands.run (h : context.Stands siblings front) (hsound : context.Sound)
    (hcause : context.cause? = (Sibling.attachment siblings front.length).cause?)
    (hs : Sibling.numbered siblings = front ++ back) :
    Emitted.EachChain (Chain.Complete siblings) (context.run back).1 := by
  induction back generalizing front context with
  | nil => exact h.release hs (fun j _ => rfl) rfl
  | cons s back ih =>
    obtain ⟨hout, hstands⟩ := h.step hsound hcause hs
    have hstep : (context.step s).context.cause? =
        (Sibling.attachment siblings (front ++ [s]).length).cause? := by
      rw [Sibling.attachment_behind_front hs]
      exact cause?_step hcause front.length s
    exact hout.append complete_append
      (ih hstands (sound_step hsound s) hstep (by simpa using hs))

end Chain.Context

/-- Places beside the items change nothing about the output. -/
theorem Chain.build_numbered (siblings : List (Sibling α)) :
    (build siblings).1 = (build (Sibling.numbered siblings)).1.map (Emitted.map Prod.snd) := by
  have hmap := build_map Prod.snd (Sibling.numbered siblings)
  rw [Sibling.map_numbered] at hmap
  exact congrArg Prod.fst hmap

/-- Every chain of the output has the members that belong to its `if`, and the gaps behind the last
of them follow it. -/
theorem Chain.complete_build (siblings : List (Sibling α))
    {front back : List (Emitted (Nat × α))} {c : Chain (Nat × α)}
    (h : (build (Sibling.numbered siblings)).1 = front ++ .chain c :: back) :
    c.Complete siblings back := by
  have hidle : (Context.idle : Context (Nat × α)).Stands siblings [] := trivial
  have hrun : Emitted.EachChain (Chain.Complete siblings) (build (Sibling.numbered siblings)).1 :=
    hidle.run Context.sound_idle rfl rfl
  rw [h] at hrun
  exact hrun.split

end Stencil
