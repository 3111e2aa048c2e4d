import Mathlib.Data.List.Nodup
import Stencil.Binding
import Stencil.Proofs.Compiled.Passes

/-!
# What a pass asks

A pass tries the arms of a branch in order, each once and none behind an accepted one, and it tries
them only where it has entered every subtree around the branch. What it renders depends on the
answers to these questions and on nothing else.
-/
namespace Stencil.Compiled

/-! ## Places -/

def next? : Compiled → Step → Option Compiled
  | element _ _ _ _ children _, .child index => children[index]?
  | branch arms _ _, .arm entry => arms[entry]?.map (·.2)
  | branch _ otherwise _, .otherwise => otherwise
  | _, _ => none

/-- The node at a place. -/
def at? (ns : List Compiled) : Place → Option Compiled
  | .child index :: steps => ns[index]?.bind fun n => steps.foldlM next? n
  | _ => none

theorem at?_concat {ns : List Compiled} {place : Place} {n : Compiled} (h : at? ns place = some n)
    (step : Step) : at? ns (place ++ [step]) = n.next? step := by
  cases place with
  | nil => cases h
  | cons first steps =>
    cases first with
    | child index =>
      obtain ⟨m, hm, hsteps⟩ := Option.bind_eq_some_iff.mp h
      simp [at?, hm, List.foldlM_append, hsteps]
    | arm entry => cases h
    | otherwise => cases h

theorem mem_childrenAt {place : Place} {ns : List Compiled} {p : Place × Compiled}
    (h : p ∈ childrenAt place ns) :
    ∃ index, p.1 = place ++ [.child index] ∧ ns[index]? = some p.2 := by
  obtain ⟨index, hindex, rfl⟩ := List.mem_mapIdx.mp h
  exact ⟨index, rfl, List.getElem?_eq_getElem hindex⟩

theorem at?_childrenAt {root : List Compiled} {place : Place} {id : Nat} {tag : String}
    {attributes : List Attribute} {reference : Option String} {children : List Compiled}
    {span : Span} (h : at? root place = some (.element id tag attributes reference children span)) :
    ∀ p ∈ childrenAt place children, at? root p.1 = some p.2 := by
  intro p hp
  obtain ⟨index, hplace, hindex⟩ := mem_childrenAt hp
  rw [hplace, at?_concat h]
  exact hindex

/-- No place is on the way to another one. -/
def Apart (ns : List (Place × Compiled)) : Prop :=
  ns.Pairwise fun p q => ¬ p.1 <+: q.1 ∧ ¬ q.1 <+: p.1

theorem apart_childrenAt (place : Place) (ns : List Compiled) : Apart (childrenAt place ns) := by
  rw [Apart, List.pairwise_iff_getElem]
  intro i j hi hj hlt
  have hne : i ≠ j := Nat.ne_of_lt hlt
  simp [childrenAt, List.prefix_append_right_inj, hne, hne.symm]

/-! ## Questions -/

/-- The question belongs to an arm of a branch, and asks for its condition. -/
def Question.IsEntry (ns : List Compiled) (q : Question) : Prop :=
  ∃ arms otherwise span n, at? ns q.branch = some (.branch arms otherwise span) ∧
    arms[q.entry]? = some (q.condition, n)

/-- The arms that are tried, each by its branch and its number. -/
def arms (qs : List Question) : List (Place × Nat) :=
  qs.map fun q => (q.branch, q.entry)

/-- An arm was tried, and was accepted or not. -/
def Tried (qs : List Question) (branch : Place) (entry : Nat) (accepted : Bool) : Prop :=
  ∃ q ∈ qs, q.branch = branch ∧ q.entry = entry ∧ q.accepted = accepted

/-- A pass takes the step: into the accepted arm of a branch, or into what stands when all of them
were tried in vain. -/
def Step.Taken (ns : List Compiled) (qs : List Question) (place : Place) : Step → Prop
  | .child _ => True
  | .arm entry => Tried qs place entry true
  | .otherwise => ∀ arms otherwise span, at? ns place = some (.branch arms otherwise span) →
      ∀ entry < arms.length, Tried qs place entry false

/-- Questions as a pass asks them. -/
structure Orderly (ns : List Compiled) (qs : List Question) : Prop where
  entries : ∀ q ∈ qs, q.IsEntry ns
  once : (arms qs).Nodup
  inVain : ∀ q ∈ qs, ∀ entry < q.entry, Tried qs q.branch entry false
  entered : ∀ q ∈ qs, ∀ place step below, q.branch = place ++ step :: below →
    step.Taken ns qs place

theorem Tried.mono {qs rs : List Question} {branch : Place} {entry : Nat} {accepted : Bool}
    (h : Tried qs branch entry accepted) (hsub : qs ⊆ rs) : Tried rs branch entry accepted := by
  obtain ⟨q, hq, hsame⟩ := h
  exact ⟨q, hsub hq, hsame⟩

theorem Step.Taken.mono {ns : List Compiled} {qs rs : List Question} {place : Place} {step : Step}
    (h : step.Taken ns qs place) (hsub : qs ⊆ rs) : step.Taken ns rs place := by
  cases step with
  | child index => trivial
  | arm entry => exact Tried.mono h hsub
  | otherwise =>
    intro arms otherwise span hat entry hentry
    exact (h arms otherwise span hat entry hentry).mono hsub

/-! ## One branch -/

section Branch
variable {place : Place} {otherwise : Option Compiled} {entry : Nat}
  {arms : List (Condition × Compiled)} {asked : List Question} {picked : Option (Place × Compiled)}

theorem Picks.branch_eq (h : Picks place otherwise entry arms asked picked) :
    ∀ q ∈ asked, q.branch = place ∧ entry ≤ q.entry := by
  induction h with
  | otherwise => simp
  | accepted h => simp
  | rejected h hp ih =>
    rw [List.forall_mem_cons]
    exact ⟨⟨rfl, Nat.le_refl _⟩, fun q hq => ⟨(ih q hq).1, Nat.le_of_succ_le (ih q hq).2⟩⟩

/-- Each arm is tried once. -/
theorem Picks.once (h : Picks place otherwise entry arms asked picked) :
    (Compiled.arms asked).Nodup := by
  induction h with
  | otherwise => exact List.nodup_nil
  | accepted h => exact List.nodup_singleton _
  | @rejected entry condition answer n arms asked picked h hp ih =>
    refine List.nodup_cons.mpr ⟨fun hmem => ?_, ih⟩
    obtain ⟨q, hq, heq⟩ := List.mem_map.mp hmem
    have hle := (hp.branch_eq q hq).2
    have hentry : q.entry = entry := (Prod.mk.inj heq).2
    omega

/-- Before an arm is tried, those in front of it were tried in vain. -/
theorem Picks.inVain (h : Picks place otherwise entry arms asked picked) :
    ∀ q ∈ asked, ∀ i, entry ≤ i → i < q.entry → Tried asked place i false := by
  induction h with
  | otherwise => simp
  | accepted h =>
    rw [List.forall_mem_singleton]
    intro i hle hlt
    exact absurd hlt (Nat.not_lt.mpr hle)
  | @rejected entry condition answer n arms asked picked h hp ih =>
    have htried : Tried (⟨place, entry, condition, answer⟩ :: asked) place entry false :=
      ⟨_, List.mem_cons_self, rfl, rfl, h⟩
    rw [List.forall_mem_cons]
    refine ⟨fun i hle hlt => absurd hlt (Nat.not_lt.mpr hle), fun q hq i hle hlt => ?_⟩
    rcases Nat.eq_or_lt_of_le hle with rfl | hless
    · exact htried
    · exact (ih q hq i hless hlt).mono (List.subset_cons_self _ _)

theorem drop_succ {α : Type} {all rest : List α} {x : α} {i : Nat} (h : all.drop i = x :: rest) :
    all[i]? = some x ∧ all.drop (i + 1) = rest := by
  rw [← List.head?_drop, ← List.tail_drop, h]
  exact ⟨rfl, rfl⟩

/-- The arms from number `entry` on are tried for their conditions. -/
theorem Picks.entries (h : Picks place otherwise entry arms asked picked)
    {all : List (Condition × Compiled)} (hd : all.drop entry = arms) :
    ∀ q ∈ asked, ∃ n, all[q.entry]? = some (q.condition, n) := by
  induction h with
  | otherwise => simp
  | accepted h =>
    rw [List.forall_mem_singleton]
    exact ⟨_, (drop_succ hd).1⟩
  | rejected h hp ih =>
    rw [List.forall_mem_cons]
    exact ⟨⟨_, (drop_succ hd).1⟩, ih (drop_succ hd).2⟩

/-- The subtree that is picked is the one of the accepted arm, or what stands when all arms were
tried in vain. -/
theorem Picks.taken (h : Picks place otherwise entry arms asked picked)
    {all : List (Condition × Compiled)} (hd : all.drop entry = arms) (span : Span) :
    ∀ p ∈ picked, ∃ step, p.1 = place ++ [step] ∧
      (branch all otherwise span).next? step = some p.2 ∧
      ((∃ i, step = .arm i ∧ Tried asked place i true) ∨
        step = .otherwise ∧ ∀ i, entry ≤ i → i < all.length → Tried asked place i false) := by
  induction h with
  | otherwise =>
    intro p hp
    obtain ⟨n, hn, rfl⟩ := Option.map_eq_some_iff.mp hp
    have hlength := List.drop_eq_nil_iff.mp hd
    exact ⟨.otherwise, rfl, hn, .inr ⟨rfl, fun i hle hlt => by omega⟩⟩
  | @accepted entry condition answer n arms h =>
    rintro p ⟨⟩
    refine ⟨.arm entry, rfl, ?_, .inl ⟨entry, rfl, _, List.mem_singleton_self _, rfl, rfl, h⟩⟩
    rw [next?, (drop_succ hd).1]
    rfl
  | @rejected entry condition answer n arms asked picked h hp ih =>
    have htried : Tried (⟨place, entry, condition, answer⟩ :: asked) place entry false :=
      ⟨_, List.mem_cons_self, rfl, rfl, h⟩
    have hsub : asked ⊆ ⟨place, entry, condition, answer⟩ :: asked := List.subset_cons_self _ _
    intro p hpicked
    obtain ⟨step, hplace, hnext, ⟨i, rfl, hi⟩ | ⟨rfl, hall⟩⟩ := ih (drop_succ hd).2 p hpicked
    · exact ⟨_, hplace, hnext, .inl ⟨i, rfl, hi.mono hsub⟩⟩
    · refine ⟨_, hplace, hnext, .inr ⟨rfl, fun i hle hlt => ?_⟩⟩
      rcases Nat.eq_or_lt_of_le hle with rfl | hless
      · exact htried
      · exact (hall i hless hlt).mono hsub

theorem Picks.at? (h : Picks place otherwise 0 arms asked picked) {root : List Compiled}
    {span : Span} (hat : Compiled.at? root place = some (.branch arms otherwise span)) :
    ∀ p ∈ picked.toList, Compiled.at? root p.1 = some p.2 := by
  intro p hp
  obtain ⟨step, hplace, hnext, -⟩ := h.taken List.drop_zero span p (Option.mem_toList.mp hp)
  rw [hplace, at?_concat hat, hnext]

end Branch

/-! ## Whole passes -/

/-- Each step on the way from a place was taken. -/
def EnteredFrom (root : List Compiled) (qs : List Question) (place : Place) : List Step → Prop
  | [] => True
  | step :: below => step.Taken root qs place ∧ EnteredFrom root qs (place ++ [step]) below

/-- A question as it comes up in a pass over some of the nodes below `root`. -/
structure Question.Reached (root : List Compiled) (ns : List (Place × Compiled))
    (qs : List Question) (q : Question) : Prop where
  entry : q.IsEntry root
  inVain : ∀ entry < q.entry, Tried qs q.branch entry false
  way : ∃ p ∈ ns, ∃ steps, q.branch = p.1 ++ steps ∧ EnteredFrom root qs p.1 steps

variable {root : List Compiled} {ns ms : List (Place × Compiled)} {qs rs : List Question}
  {ids : List Nat}

theorem EnteredFrom.mono {place : Place} {steps : List Step} (h : EnteredFrom root qs place steps)
    (hsub : qs ⊆ rs) : EnteredFrom root rs place steps := by
  induction steps generalizing place with
  | nil => trivial
  | cons step steps ih => exact ⟨h.1.mono hsub, ih h.2⟩

theorem EnteredFrom.taken {place : Place} {steps : List Step}
    (h : EnteredFrom root qs place steps) :
    ∀ way step below, steps = way ++ step :: below → step.Taken root qs (place ++ way) := by
  induction steps generalizing place with
  | nil => simp
  | cons first steps ih =>
    intro way step below heq
    cases way with
    | nil =>
      obtain ⟨rfl, -⟩ := List.cons.inj heq
      rw [List.append_nil]
      exact h.1
    | cons _ way =>
      obtain ⟨rfl, hsteps⟩ := List.cons.inj heq
      rw [List.append_cons]
      exact ih h.2 way step below hsteps

/-- What is reached from nodes is reached from those above, and among more questions. -/
theorem Question.Reached.lift {q : Question} (h : q.Reached root ms qs) (hsub : qs ⊆ rs)
    (hms : ∀ p ∈ ms, p ∈ ns ∨ ∃ above ∈ ns, ∃ step, p.1 = above.1 ++ [step] ∧
      step.Taken root rs above.1) : q.Reached root ns rs := by
  obtain ⟨p, hp, steps, hbranch, hway⟩ := h.way
  refine ⟨h.entry, fun entry hlt => (h.inVain entry hlt).mono hsub, ?_⟩
  rcases hms p hp with hp | ⟨above, habove, step, hplace, htaken⟩
  · exact ⟨p, hp, steps, hbranch, hway.mono hsub⟩
  · refine ⟨above, habove, step :: steps, by simp [hbranch, hplace], htaken, ?_⟩
    exact hplace ▸ hway.mono hsub

/-- Every question of a pass is reached. -/
theorem Passes.reached (h : Passes ns qs ids) (hat : ∀ p ∈ ns, at? root p.1 = some p.2) :
    ∀ q ∈ qs, q.Reached root ns qs := by
  have behind {p : Place × Compiled} {ns : List (Place × Compiled)} {qs rs : List Question}
      (hsub : qs ⊆ rs) (ih : ∀ q ∈ qs, q.Reached root ns qs) :
      ∀ q ∈ qs, q.Reached root (p :: ns) rs := fun q hq =>
    (ih q hq).lift hsub fun m hm => .inl (List.mem_cons_of_mem _ hm)
  induction h with
  | nil => simp
  | @element place id tag attributes reference children span ns below behind' inner outer hb hr
      ihb ihr =>
    rw [List.forall_mem_cons] at hat
    rw [List.forall_mem_append]
    refine ⟨fun q hq => (ihb (at?_childrenAt hat.1) q hq).lift (List.subset_append_left _ _)
      fun p hp => ?_, behind (List.subset_append_right _ _) (ihr hat.2)⟩
    obtain ⟨index, hplace, -⟩ := mem_childrenAt hp
    exact .inr ⟨_, List.mem_cons_self, .child index, hplace, trivial⟩
  | text hr ihr | comment hr ihr =>
    exact behind (List.Subset.refl _) (ihr (List.forall_mem_cons.mp hat).2)
  | @branch place arms otherwise span picked ns asked below behind' inner outer hp hb hr ihb ihr =>
    rw [List.forall_mem_cons] at hat
    rw [List.forall_mem_append, List.forall_mem_append]
    refine ⟨fun q hq => ⟨?_, ?_, ?_⟩, fun q hq => ?_, behind ?_ (ihr hat.2)⟩
    · obtain ⟨n, hn⟩ := hp.entries List.drop_zero q hq
      exact ⟨arms, otherwise, span, n, (hp.branch_eq q hq).1 ▸ hat.1, hn⟩
    · intro entry hlt
      rw [(hp.branch_eq q hq).1]
      exact (hp.inVain q hq entry (Nat.zero_le _) hlt).mono (List.subset_append_left _ _)
    · exact ⟨_, List.mem_cons_self, [], by simp [(hp.branch_eq q hq).1], trivial⟩
    · refine (ihb (hp.at? hat.1) q hq).lift ?_ fun p hmem => ?_
      · exact List.Subset.trans (List.subset_append_left _ _) (List.subset_append_right _ _)
      · obtain ⟨step, hplace, -, ⟨i, rfl, hi⟩ | ⟨rfl, hall⟩⟩ :=
          hp.taken List.drop_zero span p (Option.mem_toList.mp hmem)
        · exact .inr ⟨_, List.mem_cons_self, _, hplace, hi.mono (List.subset_append_left _ _)⟩
        · refine .inr ⟨_, List.mem_cons_self, _, hplace, ?_⟩
          intro arms' otherwise' span' hat' i hi
          cases hat.1.symm.trans hat'
          exact (hall i (Nat.zero_le _) hi).mono (List.subset_append_left _ _)
    · exact List.Subset.trans (List.subset_append_right _ _) (List.subset_append_right _ _)

theorem nodup_arms_append (hq : (arms qs).Nodup) (hr : (arms rs).Nodup)
    (h : ∀ q ∈ qs, ∀ r ∈ rs, q.branch ≠ r.branch) : (arms (qs ++ rs)).Nodup := by
  rw [arms, List.map_append]
  refine hq.append hr fun arm hmem hmem' => ?_
  obtain ⟨q, hq, rfl⟩ := List.mem_map.mp hmem
  obtain ⟨r, hr, heq⟩ := List.mem_map.mp hmem'
  exact h q hq r hr (Prod.mk.inj heq).1.symm

/-- Below places that are apart there are different branches. -/
theorem Apart.branch_ne {p : Place × Compiled} {q r : Question} (ha : Apart (p :: ns))
    (hq : p.1 <+: q.branch) (hr : r.Reached root ns rs) : q.branch ≠ r.branch := by
  obtain ⟨p', hp', steps, hbranch, -⟩ := hr.way
  intro heq
  have hapart := List.rel_of_pairwise_cons ha hp'
  rcases List.prefix_or_prefix_of_prefix hq ⟨steps, (heq.trans hbranch).symm⟩ with h | h
  · exact hapart.1 h
  · exact hapart.2 h

/-- No arm is tried twice. -/
theorem Passes.once (h : Passes ns qs ids) (hat : ∀ p ∈ ns, at? root p.1 = some p.2)
    (ha : Apart ns) : (arms qs).Nodup := by
  induction h with
  | nil => exact List.nodup_nil
  | @element place id tag attributes reference children span ns below behind inner outer hb hr
      ihb ihr =>
    rw [List.forall_mem_cons] at hat
    have hbelow := at?_childrenAt hat.1
    refine nodup_arms_append (ihb hbelow (apart_childrenAt place children))
      (ihr hat.2 ha.of_cons) fun q hq r hr' => ha.branch_ne ?_ (hr.reached hat.2 r hr')
    obtain ⟨p, hp, steps, hbranch, -⟩ := (hb.reached hbelow q hq).way
    obtain ⟨index, hplace, -⟩ := mem_childrenAt hp
    exact ⟨.child index :: steps, by simp [hbranch, hplace]⟩
  | text hr ihr | comment hr ihr => exact ihr (List.forall_mem_cons.mp hat).2 ha.of_cons
  | @branch place arms otherwise span picked ns asked below behind inner outer hp hb hr ihb ihr =>
    rw [List.forall_mem_cons] at hat
    have hbelow := hp.at? hat.1
    have hpicked : Apart picked.toList := by cases picked <;> simp [Apart]
    have hway : ∀ q ∈ below, ∃ step steps, q.branch = place ++ step :: steps := by
      intro q hq
      obtain ⟨p, hmem, steps, hbranch, -⟩ := (hb.reached hbelow q hq).way
      obtain ⟨step, hplace, -⟩ := hp.taken List.drop_zero span p (Option.mem_toList.mp hmem)
      exact ⟨step, steps, by simp [hbranch, hplace]⟩
    rw [← List.append_assoc]
    refine nodup_arms_append (nodup_arms_append hp.once (ihb hbelow hpicked) ?_)
      (ihr hat.2 ha.of_cons) fun q hq r hr' => ha.branch_ne ?_ (hr.reached hat.2 r hr')
    · intro q hq r hr'
      obtain ⟨step, steps, hbranch⟩ := hway r hr'
      rw [(hp.branch_eq q hq).1, hbranch]
      simp
    · rcases List.mem_append.mp hq with hq | hq
      · exact (hp.branch_eq q hq).1 ▸ List.prefix_rfl
      · obtain ⟨step, steps, hbranch⟩ := hway q hq
        exact ⟨step :: steps, hbranch.symm⟩

/-- A pass over a whole template asks in order. -/
theorem Passes.orderly {ns : List Compiled} (h : Passes (childrenAt [] ns) qs ids) :
    Orderly ns qs := by
  have hat : ∀ p ∈ childrenAt [] ns, at? ns p.1 = some p.2 := by
    intro p hp
    obtain ⟨index, hplace, hindex⟩ := mem_childrenAt hp
    simp [hplace, at?, hindex]
  have hreached := h.reached hat
  refine ⟨fun q hq => (hreached q hq).entry, h.once hat (apart_childrenAt [] ns),
    fun q hq => (hreached q hq).inVain, fun q hq place step below hbranch => ?_⟩
  obtain ⟨p, hp, steps, hway, hentered⟩ := (hreached q hq).way
  obtain ⟨index, hplace, -⟩ := mem_childrenAt hp
  have hall : EnteredFrom ns qs [] (.child index :: steps) := ⟨trivial, hplace ▸ hentered⟩
  refine hall.taken place step below ?_
  rw [← hbranch, hway, hplace]
  rfl

end Stencil.Compiled

namespace Stencil

open Compiled (Passes Replies Orderly childrenAt)

/-- An evaluator that knows the truth of every expression by its text. -/
def Evaluator.ofTruth (truth : String → Bool) : Evaluator Unit :=
  fun e => pure (truth e.source)

theorem Compiled.replies_ofTruth {truth : String → Bool} {qs : List Compiled.Question} :
    Replies (Evaluator.ofTruth truth) () qs () ↔
      ∀ q ∈ qs, truth q.condition.expression.source = q.answer := by
  induction qs with
  | nil => simp [Replies]
  | cons q qs ih =>
    rw [List.forall_mem_cons, ← ih]
    constructor
    · rintro ⟨next, hq, hqs⟩
      exact ⟨(Prod.mk.inj hq).1, hqs⟩
    · rintro ⟨hq, hqs⟩
      exact ⟨(), Prod.ext hq rfl, hqs⟩

namespace CompiledTemplate

/-- What a pass under a truth assignment renders, and what it asks for, both in order. -/
def observe (c : CompiledTemplate) (truth : String → Bool) : List Nat × List Expression :=
  (Evaluator.ofTruth truth).observe (fun ask => c.render ask) ()

/-- The binding that such a pass leaves, where the renderer holds `handle` for a node. -/
def boundBy {η : Type} (c : CompiledTemplate) (handle : Nat → η) (truth : String → Bool) :
    Binding η :=
  Binding.ofPass c ((c.observe truth).1.map fun id => ⟨id, handle id⟩)

variable {σ : Type} {ask : Evaluator σ}

/-- An evaluator that gives the answers of a pass makes this pass. -/
theorem run_render {c : CompiledTemplate} {qs : List Compiled.Question} {ids : List Nat}
    {s last : σ} (h : Passes (childrenAt [] c.nodes) qs ids) (hr : Replies ask s qs last) :
    (c.render ask).run s = (ids, last) ∧
      ask.observe (fun ask => c.render ask) s = (ids, qs.map (·.condition.expression)) := by
  have hrun := h.run_renderAll hr
  have hrecorded := h.run_renderAll (hr.recorded [])
  rw [Compiled.map_childrenAt] at hrun hrecorded
  refine ⟨hrun, ?_⟩
  rw [Evaluator.observe, render, hrecorded]
  rfl

/-- A pass depends only on the answers that it gets: where two truth assignments agree on what one
of them is asked, they render the same, ask the same, and leave the same binding. And whatever the
evaluator, a pass asks in order: its questions are arms of branches of the template, none of them is
asked twice, the arms in front of it were not accepted, and all subtrees around its branch were
entered. -/
theorem render_asks (c : CompiledTemplate) :
    (∀ v w : String → Bool, (∀ e ∈ (c.observe v).2, v e.source = w e.source) →
        c.observe w = c.observe v ∧
          ∀ {η : Type} (handle : Nat → η), c.boundBy handle w = c.boundBy handle v) ∧
      ∀ {σ : Type} (ask : Evaluator σ) (s : σ), ∃ qs ids last,
        (c.render ask).run s = (ids, last) ∧
          ask.observe (fun ask => c.render ask) s = (ids, qs.map (·.condition.expression)) ∧
          Replies ask s qs last ∧ Passes (childrenAt [] c.nodes) qs ids ∧ Orderly c.nodes qs := by
  constructor
  · intro v w hagree
    obtain ⟨qs, ids, ⟨⟩, hpass, hv⟩ :=
      Compiled.exists_passes (Evaluator.ofTruth v) (childrenAt [] c.nodes) ()
    have hobserve : c.observe v = (ids, qs.map (·.condition.expression)) := (run_render hpass hv).2
    rw [hobserve, List.forall_mem_map] at hagree
    have hw : Replies (Evaluator.ofTruth w) () qs () :=
      Compiled.replies_ofTruth.mpr fun q hq =>
        (hagree q hq).symm.trans (Compiled.replies_ofTruth.mp hv q hq)
    have hsame : c.observe w = c.observe v := hobserve ▸ (run_render hpass hw).2
    refine ⟨hsame, fun handle => ?_⟩
    rw [boundBy, boundBy, hsame]
  · intro σ ask s
    obtain ⟨qs, ids, last, hpass, hr⟩ := Compiled.exists_passes ask (childrenAt [] c.nodes) s
    obtain ⟨hrun, hobserve⟩ := run_render hpass hr
    exact ⟨qs, ids, last, hrun, hobserve, hr, hpass, hpass.orderly⟩

/-- Of three members that ask for `a` and `b`, the second is rendered where only `b` is true, and
so it is where everything but `a` is. -/
theorem render_asks_threeWays :
    ∃ c, Template.threeWays.compile .standard = .ok c ∧
      c.observe (· == "b") = ([2, 3], [⟨"a", ⟨0, 0⟩⟩, ⟨"b", ⟨0, 0⟩⟩]) ∧
      c.observe (· != "a") = ([2, 3], [⟨"a", ⟨0, 0⟩⟩, ⟨"b", ⟨0, 0⟩⟩]) := by
  let member (id : Nat) (below : List Compiled) : Compiled :=
    .element id "p" [] none below ⟨0, 0⟩
  let c : CompiledTemplate :=
    ⟨[.branch [(⟨⟨"a", ⟨0, 0⟩⟩, .positive⟩, member 0 []),
      (⟨⟨"b", ⟨0, 0⟩⟩, .positive⟩, member 2 [.text 3 "y" ⟨0, 0⟩])] (some (member 5 [])) ⟨0, 0⟩]⟩
  have hb : c.observe (· == "b") = ([2, 3], [⟨"a", ⟨0, 0⟩⟩, ⟨"b", ⟨0, 0⟩⟩]) := by decide
  refine ⟨c, rfl, hb, ((render_asks c).1 (· == "b") (· != "a") ?_).1.trans hb⟩
  rw [hb]
  decide

end CompiledTemplate
end Stencil
