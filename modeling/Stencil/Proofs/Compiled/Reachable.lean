import Mathlib.Data.List.Nodup
import Mathlib.Data.List.Pairwise
import Stencil.Proofs.Compile.Structure
import Stencil.Proofs.Compiled.Passes
import Stencil.Proofs.RefTable

/-!
# What passes can reach

A walk enters every arm, a pass only those that its answers pick. Yet each node of a walk is on the
way of some pass: the branches around it are answered so that they pick the arms that lead there,
and all others in any way. And what a pass meets it meets in the order of the walk, so an element
comes before what it encloses.
-/
namespace Stencil.Compiled

/-! ## Numbers on a walk -/

section Numbers
variable (id : Nat) (content : String) (span : Span) (ns : List Compiled)

theorem walkAll_branch (arms : List (Condition × Compiled)) (otherwise : Option Compiled) :
    walkAll (branch arms otherwise span :: ns) =
      branch arms otherwise span :: (walkAll (subtrees arms otherwise) ++ walkAll ns) := by
  rw [walkAll, walk, walk_subtrees, walkAll_eq, walkAll_eq, List.cons_append]

@[simp] theorem ids_element (tag : String) (attributes : List Attribute)
    (reference : Option String) (children : List Compiled) :
    ids (element id tag attributes reference children span :: ns) =
      id :: (ids children ++ ids ns) := by
  simp [ids, walkAll, walk, id?]
@[simp] theorem ids_text : ids (text id content span :: ns) = id :: ids ns := rfl
@[simp] theorem ids_comment : ids (comment id content span :: ns) = id :: ids ns := rfl
@[simp] theorem ids_branch (arms : List (Condition × Compiled)) (otherwise : Option Compiled) :
    ids (branch arms otherwise span :: ns) = ids (subtrees arms otherwise) ++ ids ns := by
  rw [ids, walkAll_branch, List.filterMap_cons_none rfl, List.filterMap_append]
  rfl

end Numbers

theorem ids_eq (ns : List Compiled) : ids ns = ns.flatMap fun n => ids [n] := by
  simp [ids, walkAll_eq, List.filterMap_flatMap]

theorem ids_sublist_of_mem {n : Compiled} {ns : List Compiled} (h : n ∈ ns) :
    (ids [n]).Sublist (ids ns) := by
  rw [ids_eq ns, List.flatMap_def]
  exact List.sublist_flatten_of_mem (List.mem_map_of_mem h)

variable {ns : List (Place × Compiled)} {qs : List Question} {rendered : List Nat}

/-- The subtree that is picked is one of those that a walk enters. -/
theorem Picks.ids_sublist {place : Place} {otherwise : Option Compiled} {entry : Nat}
    {arms : List (Condition × Compiled)} {asked : List Question}
    {picked : Option (Place × Compiled)} (h : Picks place otherwise entry arms asked picked) :
    (ids (picked.toList.map (·.2))).Sublist (ids (subtrees arms otherwise)) := by
  cases picked with
  | none => exact List.nil_sublist _
  | some p => exact ids_sublist_of_mem (h.mem_subtrees p rfl)

/-- What a pass renders is met on a walk, in this order. -/
theorem Passes.sublist (h : Passes ns qs rendered) : rendered.Sublist (ids (ns.map (·.2))) := by
  induction h with
  | nil => exact .slnil
  | element hb hr ihb ihr =>
    rw [map_childrenAt] at ihb
    rw [List.map_cons, ids_element]
    exact (ihb.append ihr).cons_cons _
  | text hr ihr | comment hr ihr => exact ihr.cons_cons _
  | branch hp hb hr ihb ihr =>
    rw [List.map_cons, ids_branch]
    exact (ihb.trans hp.ids_sublist).append ihr

/-! ## Elements around a node -/

/-- An element has a node below it. -/
def Encloses (ns : List Compiled) (outer inner : Nat) : Prop :=
  ∃ tag attributes reference children span,
    .element outer tag attributes reference children span ∈ walkAll ns ∧ inner ∈ ids children

theorem encloses_cons {n : Compiled} {ns : List Compiled} {outer inner : Nat} :
    Encloses (n :: ns) outer inner ↔ Encloses [n] outer inner ∨ Encloses ns outer inner := by
  simp only [Encloses, walkAll, List.append_nil, List.mem_append, or_and_right, exists_or]

theorem encloses_element {id : Nat} {tag : String} {attributes : List Attribute}
    {reference : Option String} {children : List Compiled} {span : Span} {outer inner : Nat} :
    Encloses [.element id tag attributes reference children span] outer inner ↔
      outer = id ∧ inner ∈ ids children ∨ Encloses children outer inner := by
  simp only [Encloses, walkAll, walk, List.append_nil, List.mem_cons, or_and_right, exists_or]
  refine or_congr_left ⟨?_, ?_⟩
  · rintro ⟨_, _, _, _, _, ⟨⟩, hinner⟩
    exact ⟨rfl, hinner⟩
  · rintro ⟨rfl, hinner⟩
    exact ⟨_, _, _, _, _, rfl, hinner⟩

theorem not_encloses_text {id : Nat} {content : String} {span : Span} {outer inner : Nat} :
    ¬ Encloses [.text id content span] outer inner := by
  simp [Encloses, walkAll, walk]

theorem not_encloses_comment {id : Nat} {content : String} {span : Span} {outer inner : Nat} :
    ¬ Encloses [.comment id content span] outer inner := by
  simp [Encloses, walkAll, walk]

theorem encloses_branch {arms : List (Condition × Compiled)} {otherwise : Option Compiled}
    {span : Span} {outer inner : Nat} :
    Encloses [.branch arms otherwise span] outer inner ↔
      ∃ n ∈ subtrees arms otherwise, Encloses [n] outer inner := by
  have hwalk : walkAll [.branch arms otherwise span] =
      .branch arms otherwise span :: (subtrees arms otherwise).flatMap walk := by
    rw [walkAll_branch, walkAll_eq, walkAll, List.append_nil]
  have hsingle (n : Compiled) : walkAll [n] = n.walk := List.append_nil _
  simp only [Encloses, hwalk, hsingle, List.mem_cons, List.mem_flatMap, reduceCtorEq, false_or]
  constructor
  · rintro ⟨tag, attributes, reference, children, span, ⟨n, hn, he⟩, hinner⟩
    exact ⟨n, hn, tag, attributes, reference, children, span, he, hinner⟩
  · rintro ⟨n, hn, tag, attributes, reference, children, span, he, hinner⟩
    exact ⟨tag, attributes, reference, children, span, ⟨n, hn, he⟩, hinner⟩

theorem Encloses.mem_ids {ns : List Compiled} {outer inner : Nat} (h : Encloses ns outer inner) :
    inner ∈ ids ns := by
  induction ns using list_induction with
  | nil =>
    obtain ⟨_, _, _, _, _, hmem, -⟩ := h
    cases hmem
  | element id tag attributes reference children span ns ihc ihn =>
    rw [ids_element]
    rcases encloses_cons.mp h with h | h
    · rcases encloses_element.mp h with ⟨-, hinner⟩ | h
      · exact List.mem_cons_of_mem _ (List.mem_append_left _ hinner)
      · exact List.mem_cons_of_mem _ (List.mem_append_left _ (ihc h))
    · exact List.mem_cons_of_mem _ (List.mem_append_right _ (ihn h))
  | text id content span ns ihn =>
    have h := (encloses_cons.mp h).resolve_left not_encloses_text
    exact List.mem_cons_of_mem _ (ihn h)
  | comment id content span ns ihn =>
    have h := (encloses_cons.mp h).resolve_left not_encloses_comment
    exact List.mem_cons_of_mem _ (ihn h)
  | branch arms otherwise span ns ihs ihn =>
    rw [ids_branch]
    rcases encloses_cons.mp h with h | h
    · obtain ⟨n, hn, h⟩ := encloses_branch.mp h
      exact List.mem_append_left _ ((ids_sublist_of_mem hn).subset (ihs n hn h))
    · exact List.mem_append_right _ (ihn h)

/-- Where numbers are unique, a number belongs to one of the nodes of a list. -/
theorem eq_of_mem_ids {ns : List Compiled} (hn : (ids ns).Nodup) {m n : Compiled} (hm : m ∈ ns)
    (hn' : n ∈ ns) {id : Nat} (hidm : id ∈ ids [m]) (hidn : id ∈ ids [n]) : m = n := by
  rw [ids_eq, List.nodup_flatMap] at hn
  by_contra hne
  have hsymm : Std.Symm (Function.onFun List.Disjoint fun n : Compiled => ids [n]) :=
    ⟨fun _ _ h => List.disjoint_symm h⟩
  exact hn.2.forall hm hn' hne hidm hidn

/-- A number of the front part is rendered with the front part. -/
theorem mem_front_of_disjoint {front back inside outside : List Nat} (hd : front.Disjoint back)
    (hsub : outside ⊆ back) {id : Nat} (h : id ∈ inside ++ outside) (hf : id ∈ front) :
    id ∈ inside :=
  (List.mem_append.mp h).resolve_right fun ho => hd hf (hsub ho)

/-- A number of the back part is rendered with the back part. -/
theorem mem_back_of_disjoint {front back inside outside : List Nat} (hd : front.Disjoint back)
    (hsub : inside ⊆ front) {id : Nat} (h : id ∈ inside ++ outside) (hb : id ∈ back) :
    id ∈ outside :=
  (List.mem_append.mp h).resolve_left fun hi => hd (hsub hi) hb

/-- An element is rendered before all that is rendered below it. -/
theorem Passes.element_before (h : Passes ns qs rendered) (hn : (ids (ns.map (·.2))).Nodup)
    {outer inner : Nat} (he : Encloses (ns.map (·.2)) outer inner) (hi : inner ∈ rendered) :
    [outer, inner].Sublist rendered := by
  induction h with
  | nil => cases hi
  | @element place id tag attributes reference children span ns below behind inside outside hb hr
      ihb ihr =>
    have hin := hb.sublist
    rw [map_childrenAt] at ihb hin
    rw [List.map_cons, ids_element, List.nodup_cons] at hn
    obtain ⟨hid, hn⟩ := hn
    have hapart := List.disjoint_of_nodup_append hn
    -- The element has a number of its own, so what it encloses is among the others.
    have hne (hmem : inner ∈ ids children ++ ids (ns.map (·.2))) : inner ∈ inside ++ outside :=
      (List.mem_cons.mp hi).resolve_left fun heq => hid (heq ▸ hmem)
    rcases encloses_cons.mp he with he | he
    · rcases encloses_element.mp he with ⟨rfl, hinner⟩ | he
      · exact (List.singleton_sublist.mpr (hne (List.mem_append_left _ hinner))).cons_cons _
      · have hmem := hne (List.mem_append_left _ he.mem_ids)
        have hinside := mem_front_of_disjoint hapart hr.sublist.subset hmem he.mem_ids
        have hall := ihb hn.of_append_left he hinside
        exact (hall.trans (List.sublist_append_left _ _)).cons _
    · have hmem := hne (List.mem_append_right _ he.mem_ids)
      have houtside := mem_back_of_disjoint hapart hin.subset hmem he.mem_ids
      have hall := ihr hn.of_append_right he houtside
      exact (hall.trans (List.sublist_append_right _ _)).cons _
  | text hr ihr =>
    obtain ⟨hid, hn⟩ := List.nodup_cons.mp hn
    have he := (encloses_cons.mp he).resolve_left not_encloses_text
    have hi := (List.mem_cons.mp hi).resolve_left fun heq => hid (heq ▸ he.mem_ids)
    exact (ihr hn he hi).cons _
  | comment hr ihr =>
    obtain ⟨hid, hn⟩ := List.nodup_cons.mp hn
    have he := (encloses_cons.mp he).resolve_left not_encloses_comment
    have hi := (List.mem_cons.mp hi).resolve_left fun heq => hid (heq ▸ he.mem_ids)
    exact (ihr hn he hi).cons _
  | @branch place arms otherwise span picked ns asked below behind inside outside hp hb hr ihb
      ihr =>
    rw [List.map_cons, ids_branch] at hn
    have hapart := List.disjoint_of_nodup_append hn
    rcases encloses_cons.mp he with he | he
    · obtain ⟨n, hns, he⟩ := encloses_branch.mp he
      have hmem := (ids_sublist_of_mem hns).subset he.mem_ids
      have hinside := mem_front_of_disjoint hapart hr.sublist.subset hi hmem
      cases picked with
      | none => exact absurd (hb.sublist.subset hinside) (by simp [ids, walkAll])
      | some p =>
        -- The subtree around the number is the one that was picked.
        have hps := hp.mem_subtrees p rfl
        have hsame :=
          eq_of_mem_ids hn.of_append_left hns hps he.mem_ids (hb.sublist.subset hinside)
        subst hsame
        have hnodup := (ids_sublist_of_mem hps).nodup hn.of_append_left
        exact (ihb hnodup he hinside).trans (List.sublist_append_left _ _)
    · have hin := (hb.sublist.trans hp.ids_sublist).subset
      have houtside := mem_back_of_disjoint hapart hin hi he.mem_ids
      exact (ihr hn.of_append_right he houtside).trans (List.sublist_append_right _ _)

/-! ## The way to a node -/

theorem exists_pass (ns : List (Place × Compiled)) : ∃ qs rendered, Passes ns qs rendered := by
  obtain ⟨qs, rendered, -, h, -⟩ := exists_passes (σ := Unit) (fun _ => pure false) ns ()
  exact ⟨qs, rendered, h⟩

/-- Every subtree of a branch can be picked: reject the arms in front of it. -/
theorem exists_picks_mem (place : Place) {otherwise : Option Compiled} {n : Compiled}
    {arms : List (Condition × Compiled)} (h : n ∈ subtrees arms otherwise) (entry : Nat) :
    ∃ asked p, Picks place otherwise entry arms asked (some (p, n)) := by
  induction arms generalizing entry with
  | nil =>
    have ho : otherwise = some n := by simpa [subtrees] using h
    subst ho
    exact ⟨_, _, .otherwise⟩
  | cons arm arms ih =>
    obtain ⟨condition, m⟩ := arm
    rcases List.mem_cons.mp h with rfl | h
    · obtain ⟨answer, haccept⟩ := exists_answer condition.polarity true
      exact ⟨_, _, .accepted haccept⟩
    · obtain ⟨answer, hreject⟩ := exists_answer condition.polarity false
      obtain ⟨asked, p, hp⟩ := ih h (entry + 1)
      exact ⟨_, p, .rejected hreject hp⟩

/-- Some pass renders a node that a walk meets. -/
theorem exists_pass_to {id : Nat} (h : id ∈ ids (ns.map (·.2))) :
    ∃ qs rendered, Passes ns qs rendered ∧ id ∈ rendered := by
  induction ns using located_induction with
  | nil => cases h
  | element place id' tag attributes reference children span ns ihc ihn =>
    rw [map_childrenAt] at ihc
    simp only [List.map_cons, ids_element, List.mem_cons, List.mem_append] at h
    obtain ⟨below, inside, hb⟩ := exists_pass (childrenAt place children)
    obtain ⟨behind, outside, hr⟩ := exists_pass ns
    rcases h with rfl | h | h
    · exact ⟨_, _, .element hb hr, List.mem_cons_self⟩
    · obtain ⟨below, inside, hb, hmem⟩ := ihc h
      exact ⟨_, _, .element hb hr, List.mem_cons_of_mem _ (List.mem_append_left _ hmem)⟩
    · obtain ⟨behind, outside, hr, hmem⟩ := ihn h
      exact ⟨_, _, .element hb hr, List.mem_cons_of_mem _ (List.mem_append_right _ hmem)⟩
  | text place id' content span ns ihn =>
    obtain ⟨behind, outside, hr⟩ := exists_pass ns
    rcases List.mem_cons.mp h with rfl | h
    · exact ⟨_, _, .text hr, List.mem_cons_self⟩
    · obtain ⟨behind, outside, hr, hmem⟩ := ihn h
      exact ⟨_, _, .text hr, List.mem_cons_of_mem _ hmem⟩
  | comment place id' content span ns ihn =>
    obtain ⟨behind, outside, hr⟩ := exists_pass ns
    rcases List.mem_cons.mp h with rfl | h
    · exact ⟨_, _, .comment hr, List.mem_cons_self⟩
    · obtain ⟨behind, outside, hr, hmem⟩ := ihn h
      exact ⟨_, _, .comment hr, List.mem_cons_of_mem _ hmem⟩
  | branch place arms otherwise span ns ihs ihn =>
    rw [List.map_cons, ids_branch, List.mem_append, ids_eq, List.mem_flatMap] at h
    rcases h with ⟨n, hn, hid⟩ | h
    · obtain ⟨asked, p, hp⟩ := exists_picks_mem place hn 0
      obtain ⟨below, inside, hb, hmem⟩ := ihs n hn p hid
      obtain ⟨behind, outside, hr⟩ := exists_pass ns
      exact ⟨_, _, .branch hp hb hr, List.mem_append_left _ hmem⟩
    · obtain ⟨behind, outside, hr, hmem⟩ := ihn h
      obtain ⟨qs, rendered, hall⟩ := exists_pass [(place, .branch arms otherwise span)]
      cases hall with
      | branch hp hb _ => exact ⟨_, _, .branch hp hb hr, List.mem_append_right _ hmem⟩

end Stencil.Compiled

namespace Stencil

/-- Answers in the order of the questions. -/
def Answers.inOrder (answers : List Bool) : Answers :=
  ⟨answers.map some, [], false⟩

/-- Prepared answers are given to the questions that they were prepared for. -/
theorem Compiled.replies_inOrder (before : List Bool) (asked : List String)
    (h : asked.length = before.length) (qs : List Question) :
    Replies (Answers.inOrder (before ++ qs.map (·.answer))).ask asked qs
      ((qs.map (·.condition.expression.source)).reverse ++ asked) := by
  induction qs generalizing before asked with
  | nil => rfl
  | cons q qs ih =>
    have hanswer : (Answers.inOrder (before ++ q.answer :: qs.map (·.answer))).answer asked.length
        q.condition.expression.source = q.answer := by
      simp [Answers.answer, Answers.inOrder, h]
    refine ⟨q.condition.expression.source :: asked, Prod.ext hanswer rfl, ?_⟩
    have hrest := ih (before ++ [q.answer]) (q.condition.expression.source :: asked) (by simp [h])
    simpa using hrest

namespace Template

open Compiled (Encloses)

/-- The nodes of a compiled template are those that passes can render: each by some sequence of
answers, one for each question of the pass. And any pass renders such nodes only, each once, and an
element before all nodes that it encloses. -/
theorem contains_iff_rendered {options : Options} {t : Template} {c : CompiledTemplate}
    (h : t.compile options = .ok c) :
    (∀ id, c.containsNode id = true ↔
        ∃ answers : List Bool, ∃ ids asked,
          (c.render (Answers.inOrder answers).ask).run [] = (ids, asked) ∧
            asked.length = answers.length ∧ id ∈ ids) ∧
      ∀ {σ : Type} (ask : Evaluator σ) (s : σ), ∃ ids last,
        (c.render ask).run s = (ids, last) ∧ (∀ id ∈ ids, c.containsNode id = true) ∧
          ids.Nodup ∧ ∀ outer inner, Encloses c.nodes outer inner → inner ∈ ids →
            [outer, inner].Sublist ids := by
  have hnodup : c.ids.Nodup := (ids_increase h).imp Nat.ne_of_lt
  have hpass {σ : Type} (ask : Evaluator σ) (s : σ) : ∃ ids last,
      (c.render ask).run s = (ids, last) ∧ ids.Sublist c.ids ∧
        ∀ outer inner, Encloses c.nodes outer inner → inner ∈ ids → [outer, inner].Sublist ids := by
    obtain ⟨qs, ids, last, hp, hr⟩ := Compiled.exists_passes ask (Compiled.childrenAt [] c.nodes) s
    have hrun := hp.run_renderAll hr
    have hsub := hp.sublist
    have hbefore := @Compiled.Passes.element_before _ _ _ hp
    rw [Compiled.map_childrenAt] at hrun hsub hbefore
    exact ⟨ids, last, hrun, hsub, fun outer inner he hi => hbefore hnodup he hi⟩
  constructor
  · intro id
    rw [CompiledTemplate.containsNode, List.contains_iff_mem]
    constructor
    · intro hid
      rw [CompiledTemplate.ids, ← Compiled.map_childrenAt [] c.nodes] at hid
      obtain ⟨qs, ids, hp, hmem⟩ := Compiled.exists_pass_to hid
      have hrun := hp.run_renderAll (Compiled.replies_inOrder [] [] rfl qs)
      rw [Compiled.map_childrenAt] at hrun
      exact ⟨_, ids, _, hrun, by simp, hmem⟩
    · rintro ⟨answers, ids, asked, hrun, -, hmem⟩
      obtain ⟨ids', last, hrun', hsub, -⟩ := hpass (Answers.inOrder answers).ask []
      cases hrun.symm.trans hrun'
      exact hsub.subset hmem
  · intro σ ask s
    obtain ⟨ids, last, hrun, hsub, hbefore⟩ := hpass ask s
    refine ⟨ids, last, hrun, fun id hid => ?_, hsub.nodup hnodup, hbefore⟩
    rw [CompiledTemplate.containsNode, List.contains_iff_mem]
    exact hsub.subset hid

/-- The text in the second of three members can be rendered, then behind its element. -/
theorem contains_iff_rendered_threeWays :
    ∃ c, threeWays.compile .standard = .ok c ∧
      (∃ answers : List Bool, ∃ ids asked,
        (c.render (Answers.inOrder answers).ask).run [] = (ids, asked) ∧
          asked.length = answers.length ∧ 3 ∈ ids) ∧
      ∃ ids last, (c.render (Answers.inOrder [false, true]).ask).run [] = (ids, last) ∧
        [2, 3].Sublist ids := by
  let member (id : Nat) (below : List Compiled) : Compiled :=
    .element id "p" [] none below ⟨0, 0⟩
  let c : CompiledTemplate :=
    ⟨[.branch [(⟨⟨"a", ⟨0, 0⟩⟩, .positive⟩, member 0 []),
      (⟨⟨"b", ⟨0, 0⟩⟩, .positive⟩, member 2 [.text 3 "y" ⟨0, 0⟩])] (some (member 5 [])) ⟨0, 0⟩]⟩
  have hc : threeWays.compile .standard = .ok c := rfl
  obtain ⟨hcontains, hpass⟩ := contains_iff_rendered hc
  obtain ⟨ids, last, hrun, -, -, hbefore⟩ := hpass (Answers.inOrder [false, true]).ask []
  have hids : ids = [2, 3] := (congrArg Prod.fst hrun).symm
  have hencloses : Encloses c.nodes 2 3 :=
    ⟨"p", [], none, [.text 3 "y" ⟨0, 0⟩], ⟨0, 0⟩, .tail _ (.tail _ (.head _)), .head _⟩
  exact ⟨c, hc, (hcontains 3).mp (by decide), ids, last, hrun,
    hbefore 2 3 hencloses (by simp [hids])⟩

end Template
end Stencil
