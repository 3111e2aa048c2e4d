import Stencil.Proofs.Compile.Meaning

/-!
# Passes as relations

What a pass asks and what it renders is decided by the answers alone, whoever gives them. So a pass
is a relation between a compiled tree, the questions with their answers, and the numbers that are
rendered. Every evaluator makes such a pass, and one with the same answers makes the same.
-/
namespace Stencil.Compiled

/-- A step down: to a node of a list, into an arm of a branch, or into what stands otherwise. -/
inductive Step where
  | child (index : Nat)
  | arm (entry : Nat)
  | otherwise
  deriving DecidableEq, Repr

/-- The steps from the top of a template to a node. -/
abbrev Place := List Step

/-- A question of a pass: the arm of a branch that is tried, and what was answered. -/
structure Question where
  branch : Place
  entry : Nat
  condition : Condition
  answer : Bool
  deriving DecidableEq, Repr

def Question.accepted (q : Question) : Bool :=
  q.condition.polarity.accepts q.answer

/-- Every question can be answered so that the arm is accepted, and so that it is not. -/
theorem exists_answer (p : Polarity) (accepted : Bool) : ∃ answer, p.accepts answer = accepted := by
  cases p with
  | positive => exact ⟨accepted, rfl⟩
  | negative => exact ⟨!accepted, Bool.not_not accepted⟩

def childrenAt (place : Place) (ns : List Compiled) : List (Place × Compiled) :=
  ns.mapIdx fun i n => (place ++ [.child i], n)

@[simp] theorem map_childrenAt (place : Place) (ns : List Compiled) :
    (childrenAt place ns).map (·.2) = ns := by
  simp only [childrenAt, List.mapIdx_eq_zipIdx_map, List.map_map]
  exact List.zipIdx_map_fst 0 ns

/-- The arms of a branch from number `entry` on are tried in order, and one subtree is picked. -/
inductive Picks (place : Place) (otherwise : Option Compiled) :
    Nat → List (Condition × Compiled) → List Question → Option (Place × Compiled) → Prop where
  | otherwise {entry : Nat} :
    Picks place otherwise entry [] [] (otherwise.map (place ++ [.otherwise], ·))
  | accepted {entry : Nat} {condition : Condition} {answer : Bool} {n : Compiled}
      {arms : List (Condition × Compiled)} (h : condition.polarity.accepts answer = true) :
    Picks place otherwise entry ((condition, n) :: arms) [⟨place, entry, condition, answer⟩]
      (some (place ++ [.arm entry], n))
  | rejected {entry : Nat} {condition : Condition} {answer : Bool} {n : Compiled}
      {arms : List (Condition × Compiled)} {asked : List Question}
      {picked : Option (Place × Compiled)} (h : condition.polarity.accepts answer = false)
      (hp : Picks place otherwise (entry + 1) arms asked picked) :
    Picks place otherwise entry ((condition, n) :: arms)
      (⟨place, entry, condition, answer⟩ :: asked) picked

/-- A pass over nodes at their places: the questions that it asks and the numbers that it renders. -/
inductive Passes : List (Place × Compiled) → List Question → List Nat → Prop where
  | nil : Passes [] [] []
  | element {place : Place} {id : Nat} {tag : String} {attributes : List Attribute}
      {reference : Option String} {children : List Compiled} {span : Span}
      {ns : List (Place × Compiled)} {below behind : List Question} {inner outer : List Nat}
      (hb : Passes (childrenAt place children) below inner) (hr : Passes ns behind outer) :
    Passes ((place, .element id tag attributes reference children span) :: ns) (below ++ behind)
      (id :: (inner ++ outer))
  | text {place : Place} {id : Nat} {content : String} {span : Span}
      {ns : List (Place × Compiled)} {behind : List Question} {outer : List Nat}
      (hr : Passes ns behind outer) :
    Passes ((place, .text id content span) :: ns) behind (id :: outer)
  | comment {place : Place} {id : Nat} {content : String} {span : Span}
      {ns : List (Place × Compiled)} {behind : List Question} {outer : List Nat}
      (hr : Passes ns behind outer) :
    Passes ((place, .comment id content span) :: ns) behind (id :: outer)
  | branch {place : Place} {arms : List (Condition × Compiled)} {otherwise : Option Compiled}
      {span : Span} {picked : Option (Place × Compiled)} {ns : List (Place × Compiled)}
      {asked below behind : List Question} {inner outer : List Nat}
      (hp : Picks place otherwise 0 arms asked picked) (hb : Passes picked.toList below inner)
      (hr : Passes ns behind outer) :
    Passes ((place, .branch arms otherwise span) :: ns) (asked ++ (below ++ behind))
      (inner ++ outer)

/-- Induction over a list of nodes, with the list below an element, each subtree of a branch by
itself, and the list behind. -/
@[elab_as_elim]
theorem list_induction {P : List Compiled → Prop} (nil : P [])
    (element : ∀ id tag attributes reference children span ns, P children → P ns →
      P (.element id tag attributes reference children span :: ns))
    (text : ∀ id content span ns, P ns → P (.text id content span :: ns))
    (comment : ∀ id content span ns, P ns → P (.comment id content span :: ns))
    (branch : ∀ arms otherwise span ns, (∀ n ∈ subtrees arms otherwise, P [n]) → P ns →
      P (.branch arms otherwise span :: ns))
    (ns : List Compiled) : P ns :=
  @Compiled.rec_1 (fun n => ∀ ns, P ns → P (n :: ns)) P
    (fun arms => ∀ n ∈ arms.map (·.2), P [n]) (fun otherwise => ∀ n ∈ otherwise.toList, P [n])
    (fun arm => P [arm.2])
    (fun id tag attributes reference children span hc ns hn =>
      element id tag attributes reference children span ns hc hn)
    (fun id content span ns hn => text id content span ns hn)
    (fun id content span ns hn => comment id content span ns hn)
    (fun arms otherwise span ha hd ns hn => branch arms otherwise span ns
      (List.forall_mem_append.mpr ⟨ha, hd⟩) hn)
    nil (fun _ ns h hn => h ns hn)
    (by simp) (fun _ _ h ha => by rw [List.map_cons, List.forall_mem_cons]; exact ⟨h, ha⟩)
    (by simp) (fun _ h => List.forall_mem_singleton.mpr (h [] nil))
    (fun _ _ h => h [] nil) ns

/-- The same over nodes at places. -/
@[elab_as_elim]
theorem located_induction {P : List (Place × Compiled) → Prop} (nil : P [])
    (element : ∀ place id tag attributes reference children span ns,
      P (childrenAt place children) → P ns →
        P ((place, .element id tag attributes reference children span) :: ns))
    (text : ∀ place id content span ns, P ns → P ((place, .text id content span) :: ns))
    (comment : ∀ place id content span ns, P ns → P ((place, .comment id content span) :: ns))
    (branch : ∀ place arms otherwise span ns,
      (∀ n ∈ subtrees arms otherwise, ∀ place, P [(place, n)]) → P ns →
        P ((place, .branch arms otherwise span) :: ns))
    (ns : List (Place × Compiled)) : P ns := by
  generalize hms : ns.map (·.2) = ms
  induction ms using list_induction generalizing ns with
  | nil => exact List.map_eq_nil_iff.mp hms ▸ nil
  | element id tag attributes reference children span ms hc hm =>
    obtain ⟨⟨place, _⟩, ns, rfl, rfl, hns⟩ := List.map_eq_cons_iff.mp hms
    exact element _ _ _ _ _ _ _ _ (hc _ (map_childrenAt place children)) (hm ns hns)
  | text id content span ms hm =>
    obtain ⟨⟨place, _⟩, ns, rfl, rfl, hns⟩ := List.map_eq_cons_iff.mp hms
    exact text _ _ _ _ _ (hm ns hns)
  | comment id content span ms hm =>
    obtain ⟨⟨place, _⟩, ns, rfl, rfl, hns⟩ := List.map_eq_cons_iff.mp hms
    exact comment _ _ _ _ _ (hm ns hns)
  | branch arms otherwise span ms hs hm =>
    obtain ⟨⟨place, _⟩, ns, rfl, rfl, hns⟩ := List.map_eq_cons_iff.mp hms
    exact branch _ _ _ _ _ (fun n hn place => hs n hn _ rfl) (hm ns hns)

/-! ## Evaluators -/

variable {σ : Type} {ask : Evaluator σ}

theorem run_bind {α β : Type} {x : StateM σ α} {a : α} {s next : σ} (h : x.run s = (a, next))
    (f : α → StateM σ β) : (x >>= f).run s = (f a).run next := by
  rw [StateT.run_bind, h]
  rfl

/-- From a state, an evaluator that is asked these questions gives these answers. -/
def Replies (ask : Evaluator σ) : σ → List Question → σ → Prop
  | s, [], last => s = last
  | s, q :: qs, last =>
    ∃ next, (ask q.condition.expression).run s = (q.answer, next) ∧ Replies ask next qs last

theorem replies_append {s last : σ} {qs rs : List Question} :
    Replies ask s (qs ++ rs) last ↔ ∃ next, Replies ask s qs next ∧ Replies ask next rs last := by
  induction qs generalizing s with
  | nil => simp [Replies]
  | cons q qs ih =>
    simp only [List.cons_append, Replies, ih]
    constructor
    · rintro ⟨next, hq, mid, hqs, hrs⟩
      exact ⟨mid, ⟨next, hq, hqs⟩, hrs⟩
    · rintro ⟨mid, ⟨next, hq, hqs⟩, hrs⟩
      exact ⟨next, hq, mid, hqs, hrs⟩

/-- A record of what is asked changes no answer. -/
theorem Replies.recorded {s last : σ} {qs : List Question} (h : Replies ask s qs last)
    (asked : List Expression) :
    Replies ask.recorded (s, asked) qs (last, asked ++ qs.map (·.condition.expression)) := by
  induction qs generalizing s asked with
  | nil =>
    cases h
    simp [Replies]
  | cons q qs ih =>
    obtain ⟨next, hq, hqs⟩ := h
    refine ⟨(next, asked ++ [q.condition.expression]), ?_, ?_⟩
    · have hask : ask q.condition.expression s = (q.answer, next) := hq
      simp [StateT.run, Evaluator.recorded, hask]
    · simpa using ih hqs (asked ++ [q.condition.expression])

theorem renderAll_toList (ask : Evaluator σ) (n : Option Compiled) :
    renderAll ask n.toList = renderOption ask n := by
  cases n <;> simp [renderAll, renderOption]

/-- An evaluator that answers so picks the same subtree. -/
theorem Picks.run_select {place : Place} {otherwise : Option Compiled} {entry : Nat}
    {arms : List (Condition × Compiled)} {asked : List Question}
    {picked : Option (Place × Compiled)} (h : Picks place otherwise entry arms asked picked)
    {s last : σ} (hr : Replies ask s asked last) :
    (select ask otherwise arms).run s = (picked.map (·.2), last) := by
  induction h generalizing s with
  | otherwise =>
    cases hr
    cases otherwise <;> rfl
  | accepted h =>
    obtain ⟨next, hq, rfl⟩ := hr
    rw [select, run_bind hq, if_pos h]
    rfl
  | rejected h hp ih =>
    obtain ⟨next, hq, hrest⟩ := hr
    rw [select, run_bind hq, if_neg (by simp [h])]
    exact ih hrest

/-- An evaluator that answers so renders the same. -/
theorem Passes.run_renderAll {ns : List (Place × Compiled)} {qs : List Question} {ids : List Nat}
    (h : Passes ns qs ids) {s last : σ} (hr : Replies ask s qs last) :
    (renderAll ask (ns.map (·.2))).run s = (ids, last) := by
  induction h generalizing s last with
  | nil =>
    cases hr
    rfl
  | element hb hn ihb ihn =>
    obtain ⟨next, hbelow, hbehind⟩ := replies_append.mp hr
    have hinner := ihb hbelow
    rw [map_childrenAt] at hinner
    rw [List.map_cons, renderAll, render, bind_assoc, run_bind hinner, pure_bind,
      run_bind (ihn hbehind)]
    rfl
  | text hn ihn | comment hn ihn =>
    rw [List.map_cons, renderAll, render, pure_bind, run_bind (ihn hr)]
    rfl
  | @branch place arms otherwise span picked ns asked below behind inner outer hp hb hn ihb ihn =>
    obtain ⟨mid, hasked, hrest⟩ := replies_append.mp hr
    obtain ⟨next, hbelow, hbehind⟩ := replies_append.mp hrest
    have hinner := ihb hbelow
    have hpicked : picked.toList.map (·.2) = (picked.map (·.2)).toList := by cases picked <;> rfl
    rw [hpicked, renderAll_toList] at hinner
    rw [List.map_cons, renderAll, render, ← select_bind_renderOption, bind_assoc,
      run_bind (hp.run_select hasked), run_bind hinner, run_bind (ihn hbehind)]
    rfl

/-- Every evaluator picks a subtree, and whichever it is, it is one of the branch. -/
theorem exists_picks (ask : Evaluator σ) (place : Place) (otherwise : Option Compiled)
    (arms : List (Condition × Compiled)) (entry : Nat) (s : σ) :
    ∃ asked picked last, Picks place otherwise entry arms asked picked ∧
      Replies ask s asked last := by
  induction arms generalizing entry s with
  | nil => exact ⟨_, _, _, .otherwise, rfl⟩
  | cons arm arms ih =>
    obtain ⟨condition, n⟩ := arm
    obtain ⟨answer, next, hq⟩ : ∃ answer next, (ask condition.expression).run s = (answer, next) :=
      ⟨_, _, rfl⟩
    cases h : condition.polarity.accepts answer with
    | true => exact ⟨_, _, _, .accepted h, next, hq, rfl⟩
    | false =>
      obtain ⟨asked, picked, last, hp, hr⟩ := ih (entry + 1) next
      exact ⟨_, _, _, .rejected h hp, next, hq, hr⟩

theorem Picks.mem_subtrees {place : Place} {otherwise : Option Compiled} {entry : Nat}
    {arms : List (Condition × Compiled)} {asked : List Question}
    {picked : Option (Place × Compiled)} (h : Picks place otherwise entry arms asked picked) :
    ∀ p ∈ picked, p.2 ∈ subtrees arms otherwise := by
  induction h with
  | otherwise =>
    intro p hp
    obtain ⟨n, hn, rfl⟩ := Option.map_eq_some_iff.mp hp
    simpa [subtrees] using hn
  | accepted h =>
    rintro p ⟨⟩
    simp [subtrees]
  | rejected h hp ih =>
    intro p hp
    exact List.mem_cons_of_mem _ (ih p hp)

/-- Every evaluator makes a pass. -/
theorem exists_passes (ask : Evaluator σ) (ns : List (Place × Compiled)) (s : σ) :
    ∃ qs ids last, Passes ns qs ids ∧ Replies ask s qs last := by
  induction ns using located_induction generalizing s with
  | nil => exact ⟨_, _, _, .nil, rfl⟩
  | element place id tag attributes reference children span ns ihc ihn =>
    obtain ⟨below, inner, next, hb, hbelow⟩ := ihc s
    obtain ⟨behind, outer, last, hn, hbehind⟩ := ihn next
    exact ⟨_, _, last, .element hb hn, replies_append.mpr ⟨next, hbelow, hbehind⟩⟩
  | text place id content span ns ihn =>
    obtain ⟨behind, outer, last, hn, hbehind⟩ := ihn s
    exact ⟨_, _, last, .text hn, hbehind⟩
  | comment place id content span ns ihn =>
    obtain ⟨behind, outer, last, hn, hbehind⟩ := ihn s
    exact ⟨_, _, last, .comment hn, hbehind⟩
  | branch place arms otherwise span ns ihs ihn =>
    obtain ⟨asked, picked, mid, hp, hasked⟩ := exists_picks ask place otherwise arms 0 s
    obtain ⟨below, inner, next, hb, hbelow⟩ : ∃ below inner next,
        Passes picked.toList below inner ∧ Replies ask mid below next := by
      cases picked with
      | none => exact ⟨_, _, _, .nil, rfl⟩
      | some p => exact ihs p.2 (hp.mem_subtrees p rfl) p.1 mid
    obtain ⟨behind, outer, last, hn, hbehind⟩ := ihn next
    exact ⟨_, _, last, .branch hp hb hn, replies_append.mpr
      ⟨mid, hasked, replies_append.mpr ⟨next, hbelow, hbehind⟩⟩⟩

end Stencil.Compiled
