import Stencil.Binding
import Stencil.Proofs.RefTable

/-!
# What a pass binds

A name is bound to the last report of the greatest node that has the name. This node is the last of
the candidates that were reported, in whatever order the reports come.
-/
namespace Stencil

variable {η : Type}

namespace Binding

/-- The report that a name is bound to: of the reported nodes with this name it is about the
greatest, and of the reports about this node it is the last. -/
structure Wins (names : Nat → Option String) (name : String) (reports : List (Rendered η))
    (r : Rendered η) : Prop where
  named : names r.node = some name
  greatest : ∀ s ∈ reports, names s.node = some name → s.node ≤ r.node
  last : (reports.filter (·.node == r.node)).getLast? = some r

variable {names : Nat → Option String} {name : String} {reports : List (Rendered η)}

theorem Wins.mem {r : Rendered η} (h : Wins names name reports r) : r ∈ reports :=
  (List.mem_filter.mp (List.mem_of_getLast? h.last)).1

/-- A report of a smaller node, or of another name, changes nothing. -/
theorem Wins.concat {r s : Rendered η} (h : Wins names name reports r)
    (hs : names s.node = some name → s.node < r.node) : Wins names name (reports ++ [s]) r := by
  have hne : s.node ≠ r.node := by
    intro heq
    have hlt := hs (heq ▸ h.named)
    omega
  refine ⟨h.named, ?_, ?_⟩
  · rw [List.forall_mem_append, List.forall_mem_singleton]
    exact ⟨h.greatest, fun hn => Nat.le_of_lt (hs hn)⟩
  · have hfilter : [s].filter (·.node == r.node) = [] := by simp [hne]
    rw [List.filter_append, hfilter, List.append_nil]
    exact h.last

/-- A report of a node that is at least as great wins. -/
theorem wins_concat {s : Rendered η} (hn : names s.node = some name)
    (hs : ∀ r ∈ reports, names r.node = some name → r.node ≤ s.node) :
    Wins names name (reports ++ [s]) s := by
  refine ⟨hn, ?_, ?_⟩
  · rw [List.forall_mem_append, List.forall_mem_singleton]
    exact ⟨hs, fun _ => Nat.le_refl _⟩
  · simp [List.filter_append]

/-- The binding after some reports. -/
def ofReports (names : Nat → Option String) (reports : List (Rendered η)) : Binding η :=
  reports.foldl (report names) SortedMap.empty

theorem ofReports_concat (names : Nat → Option String) (reports : List (Rendered η))
    (s : Rendered η) : ofReports names (reports ++ [s]) = (ofReports names reports).report names s := by
  simp [ofReports]

/-- A report about another name does not touch a name. -/
theorem get?_report_of_ne {b : Binding η} {s : Rendered η} (h : names s.node ≠ some name) :
    (b.report names s).get? name = b.get? name := by
  rw [report]
  split
  · rfl
  · next other ho =>
    have hne : other ≠ name := fun heq => h (heq ▸ ho)
    split
    · split
      · rfl
      · exact SortedMap.get?_insert_of_ne _ hne _
    · exact SortedMap.get?_insert_of_ne _ hne _

/-- A name is bound to its winner, and where it is not bound no node with the name is reported. -/
theorem get?_ofReports (names : Nat → Option String) (name : String)
    (reports : List (Rendered η)) :
    (∀ r, (ofReports names reports).get? name = some r → Wins names name reports r) ∧
      ((ofReports names reports).get? name = none →
        ∀ r ∈ reports, names r.node ≠ some name) := by
  induction reports using List.reverseRecOn with
  | nil => simp [ofReports]
  | append_singleton reports s ih =>
    obtain ⟨hsome, hnone⟩ := ih
    rw [ofReports_concat]
    by_cases hs : names s.node = some name
    · rw [report, hs]
      simp only
      cases hb : (ofReports names reports).get? name with
      | none =>
        have hwins := wins_concat hs fun r hr hn => absurd hn (hnone hb r hr)
        simp only [SortedMap.get?_insert_self]
        exact ⟨fun r hr => Option.some.inj hr ▸ hwins, fun hn => by cases hn⟩
      | some bound =>
        have hbound := hsome bound hb
        simp only
        split
        · next hlt =>
          rw [hb]
          exact ⟨fun r hr => Option.some.inj hr ▸ hbound.concat fun _ => hlt,
            fun hn => by cases hn⟩
        · next hge =>
          have hwins := wins_concat hs fun r hr hn =>
            Nat.le_trans (hbound.greatest r hr hn) (Nat.le_of_not_lt hge)
          rw [SortedMap.get?_insert_self]
          exact ⟨fun r hr => Option.some.inj hr ▸ hwins, fun hn => by cases hn⟩
    · rw [get?_report_of_ne hs]
      refine ⟨fun r hr => (hsome r hr).concat fun hn => absurd hn hs, fun hn => ?_⟩
      rw [List.forall_mem_append, List.forall_mem_singleton]
      exact ⟨hnone hn, hs⟩

theorem get?_eq_some_iff {r : Rendered η} :
    (ofReports names reports).get? name = some r ↔ Wins names name reports r := by
  obtain ⟨hsome, hnone⟩ := get?_ofReports names name reports
  refine ⟨hsome r, fun h => ?_⟩
  cases hb : (ofReports names reports).get? name with
  | none => exact absurd h.named (hnone hb r h.mem)
  | some s =>
    have hs := hsome s hb
    have hnode : s.node = r.node :=
      Nat.le_antisymm (h.greatest s hs.mem hs.named) (hs.greatest r h.mem h.named)
    rw [← hs.last, hnode, h.last]

/-- Where every node is reported once, the order of the reports does not matter. -/
theorem Wins.perm {reports' : List (Rendered η)} {r : Rendered η}
    (h : Wins names name reports r) (hp : reports.Perm reports')
    (hd : (reports.map (·.node)).Nodup) : Wins names name reports' r := by
  refine ⟨h.named, fun s hs => h.greatest s (hp.mem_iff.mpr hs), ?_⟩
  cases hl : (reports'.filter (·.node == r.node)).getLast? with
  | none =>
    have hnone := List.getLast?_eq_none_iff.mp hl
    rw [List.filter_eq_nil_iff] at hnone
    exact absurd (by simp) (hnone r (hp.mem_iff.mp h.mem))
  | some s =>
    have hs := List.mem_of_getLast? hl
    rw [List.mem_filter, beq_iff_eq] at hs
    rw [List.inj_on_of_nodup_map hd (hp.mem_iff.mpr hs.1) h.mem hs.2]

/-- The last of increasing numbers is the greatest. -/
theorem getLast?_of_increasing {ids : List Nat} (h : ids.Pairwise (· < ·)) {id : Nat}
    (hid : id ∈ ids) (hle : ∀ i ∈ ids, i ≤ id) : ids.getLast? = some id := by
  cases hl : ids.getLast? with
  | none =>
    rw [List.getLast?_eq_none_iff.mp hl] at hid
    cases hid
  | some last =>
    obtain ⟨front, rfl⟩ := List.getLast?_eq_some_iff.mp hl
    have hlast := hle last (by simp)
    rcases List.mem_append.mp hid with hid | hid
    · have hlt := (List.pairwise_append.mp h).2.2 id hid last (by simp)
      omega
    · rw [List.mem_singleton.mp hid]

section Pass
variable {options : Options} {t : Template} {c : CompiledTemplate}

/-- A pass binds a name to the last of its candidates that were reported. -/
theorem node?_ofPass (h : t.compile options = .ok c) (reports : List (Rendered η))
    (name : String) :
    (ofPass c reports).node? name =
      ((c.refs.candidates name).filter (· ∈ reports.map (·.node))).getLast? := by
  have hnames {r : Rendered η} : c.refs.nameOf? r.node = some name ↔
      r.node ∈ c.refs.candidates name := t.nameOf?_eq_some_iff h
  obtain ⟨hsome, hnone⟩ := get?_ofReports c.refs.nameOf? name reports
  rw [node?]
  cases hb : (ofPass c reports).get? name with
  | none =>
    have hempty : (c.refs.candidates name).filter (· ∈ reports.map (·.node)) = [] := by
      rw [List.filter_eq_nil_iff]
      intro id hid hreported
      obtain ⟨r, hr, rfl⟩ := List.mem_map.mp (of_decide_eq_true hreported)
      exact hnone hb r hr (hnames.mpr hid)
    rw [hempty]
    rfl
  | some r =>
    have hr := hsome r hb
    refine (getLast?_of_increasing ((t.candidates_increase h name).filter _) ?_ ?_).symm
    · rw [List.mem_filter]
      exact ⟨hnames.mp hr.named, decide_eq_true (List.mem_map_of_mem hr.mem)⟩
    · intro id hid
      obtain ⟨hc, hreported⟩ := List.mem_filter.mp hid
      obtain ⟨s, hs, rfl⟩ := List.mem_map.mp (of_decide_eq_true hreported)
      exact hr.greatest s hs (hnames.mpr hc)

/-- The reports of a pass, in any order and about any nodes, bind the names that have a reported
candidate, in ascending order: each to the greatest of them, which is the last one in the template,
and to the handle of the last report about it. -/
theorem ofPass_binds (h : t.compile options = .ok c) (reports : List (Rendered η)) :
    (∀ name, name ∈ (ofPass c reports).keys ↔
        ∃ entry, c.refs.get? name = some entry ∧
          ∃ id ∈ entry.candidates, id ∈ reports.map (·.node)) ∧
      (∀ name ∈ (ofPass c reports).keys, ∃ r : Rendered η,
        (ofPass c reports).node? name = some r.node ∧
          (ofPass c reports).handle? name = some r.handle ∧
          r.node ∈ c.refs.candidates name ∧
          (∀ id ∈ c.refs.candidates name, id ∈ reports.map (·.node) → id ≤ r.node) ∧
          (reports.filter (·.node == r.node)).getLast? = some r) ∧
      (ofPass c reports).keys.Pairwise (· < ·) ∧
      (∀ reports', reports.Perm reports' → ∀ name,
        (ofPass c reports').node? name = (ofPass c reports).node? name ∧
          ((reports.map (·.node)).Nodup →
            (ofPass c reports').handle? name = (ofPass c reports).handle? name)) ∧
      ∀ {σ : Type} (ask : Evaluator σ) (s : σ),
        reports.map (·.node) = ((c.render ask).run s).1 → ∀ name,
          (c.refs.candidates name).Sublist c.ids ∧
            (ofPass c reports).node? name =
              ((c.refs.candidates name).filter (· ∈ ((c.render ask).run s).1)).getLast? := by
  have hnode := node?_ofPass h reports
  refine ⟨?_, ?_, SortedMap.pairwise_keys _, ?_, ?_⟩
  · intro name
    obtain ⟨hsome, hnone⟩ := get?_ofReports c.refs.nameOf? name reports
    rw [SortedMap.mem_keys]
    constructor
    · intro hbound
      obtain ⟨r, hr⟩ := Option.isSome_iff_exists.mp hbound
      have hw := hsome r hr
      obtain ⟨entry, he, hc⟩ := RefTable.mem_candidates.mp ((t.nameOf?_eq_some_iff h).mp hw.named)
      exact ⟨entry, he, r.node, hc, List.mem_map_of_mem hw.mem⟩
    · rintro ⟨entry, he, id, hid, hreported⟩
      obtain ⟨r, hr, rfl⟩ := List.mem_map.mp hreported
      have hname := (t.nameOf?_eq_some_iff h).mpr (RefTable.mem_candidates.mpr ⟨entry, he, hid⟩)
      rw [Option.isSome_iff_ne_none]
      exact fun hn => hnone hn r hr hname
  · intro name hbound
    obtain ⟨r, hr⟩ := Option.isSome_iff_exists.mp (SortedMap.mem_keys.mp hbound)
    have hwins := (get?_ofReports c.refs.nameOf? name reports).1 r hr
    refine ⟨r, congrArg (Option.map Rendered.node) hr, congrArg (Option.map Rendered.handle) hr,
      (t.nameOf?_eq_some_iff h).mp hwins.named, ?_, hwins.last⟩
    intro id hid hreported
    obtain ⟨s, hs, rfl⟩ := List.mem_map.mp hreported
    exact hwins.greatest s hs ((t.nameOf?_eq_some_iff h).mpr hid)
  · intro reports' hp name
    refine ⟨?_, fun hd => ?_⟩
    · rw [node?_ofPass h, hnode]
      simp only [(hp.map (·.node)).mem_iff]
    · have hget : (ofPass c reports').get? name = (ofPass c reports).get? name := by
        ext r
        have hd' := (hp.map (·.node)).nodup_iff.mp hd
        exact get?_eq_some_iff.trans
          (Iff.trans ⟨fun hw => hw.perm hp.symm hd', fun hw => hw.perm hp hd⟩
            get?_eq_some_iff.symm)
      rw [handle?, handle?, hget]
  · intro σ ask s hrendered name
    rw [hnode, hrendered]
    exact ⟨c.candidates_sublist name, rfl⟩

end Pass

/-- Two elements of one name, around a text. -/
def twins : Template :=
  let named : Node := .element 0 ⟨0, 0⟩
    ⟨⟨"p", ⟨0, 0⟩⟩, [⟨⟨"ref", ⟨0, 0⟩⟩, some ⟨.literal "a", ⟨0, 0⟩⟩, ⟨0, 0⟩⟩]⟩ false []
  [named, .text 0 ⟨0, 0⟩ "x", named]

/-- The second twin wins, although the first and an unknown node are reported behind it, and it has
the handle of its second report. -/
theorem ofPass_twins :
    ∃ c, twins.compile .standard = .ok c ∧
      ∃ b : Binding String, b = ofPass c [⟨2, "h"⟩, ⟨1, "i"⟩, ⟨2, "j"⟩, ⟨0, "k"⟩, ⟨7, "l"⟩] ∧
        b.node? "a" = some 2 ∧ b.handle? "a" = some "j" ∧ b.keys = ["a"] := by
  let c : CompiledTemplate :=
    ⟨[.element 0 "p" [] (some "a") [] ⟨0, 0⟩, .text 1 "x" ⟨0, 0⟩,
      .element 2 "p" [] (some "a") [] ⟨0, 0⟩]⟩
  have hc : twins.compile .standard = .ok c := rfl
  obtain ⟨hkeys, hbound, -, -, -⟩ :=
    ofPass_binds hc [⟨2, "h"⟩, ⟨1, "i"⟩, ⟨2, "j"⟩, ⟨0, "k"⟩, ⟨7, "l"⟩]
  have hcandidates : c.refs.candidates "a" = [0, 2] := by decide +kernel
  have hmem := (hkeys "a").mpr
    ⟨⟨⟨"a", 2, "p", ⟨0, 0⟩⟩, [0, 2]⟩, by decide +kernel, 2, by decide, by decide⟩
  obtain ⟨r, hnode, hhandle, hr, hgreatest, hlast⟩ := hbound "a" hmem
  rw [hcandidates] at hr hgreatest
  have htwo : r.node = 2 := by
    have hle := hgreatest 2 (by decide) (by decide)
    simp only [List.mem_cons, List.not_mem_nil, or_false] at hr
    omega
  rw [htwo] at hnode hlast
  obtain rfl : _ = r := Option.some.inj hlast
  exact ⟨c, hc, _, rfl, hnode, hhandle, by decide +kernel⟩

end Binding
end Stencil
