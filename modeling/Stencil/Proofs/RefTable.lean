import Mathlib.Data.List.Induction
import Mathlib.Data.List.Nodup
import Stencil.Proofs.Compile.Structure
import Stencil.Proofs.SortedMap
import Stencil.RefTable

/-!
# What a table of refs holds

A name has an entry when it is declared: its last declaration, and the nodes of all of them in the
order of the tree. A node has the name of its last declaration. In a compiled template every node
declares one name at most, so that it is a candidate of this name and of no other.
-/
namespace Stencil

namespace RefTable

/-- The declarations of a name, in order. -/
def named (name : String) (ds : List Declaration) : List Declaration :=
  ds.filter (·.name == name)

/-- The table after some declarations. -/
def ofDeclarations (ds : List Declaration) : RefTable :=
  ds.foldl declare empty

theorem ofDeclarations_concat (ds : List Declaration) (d : Declaration) :
    ofDeclarations (ds ++ [d]) = (ofDeclarations ds).declare d := by
  simp [ofDeclarations]

theorem named_concat (name : String) (ds : List Declaration) (d : Declaration) :
    named name (ds ++ [d]) = named name ds ++ if d.name = name then [d] else [] := by
  by_cases h : d.name = name <;> simp [named, h]

/-- The candidates are those of the entry. -/
theorem candidates_of_get? {t : RefTable} {name : String} {ds : List Declaration}
    (h : t.get? name =
      (named name ds).getLast?.map fun d => ⟨d, (named name ds).map (·.node)⟩) :
    t.candidates name = (named name ds).map (·.node) := by
  have hget : t.entries.get? name = _ := h
  rw [candidates, hget]
  cases hl : (named name ds).getLast? with
  | none => simp [List.getLast?_eq_none_iff.mp hl]
  | some last => rfl

/-- An entry is the last declaration of its name, with the nodes of all of them. -/
theorem get?_ofDeclarations (name : String) (ds : List Declaration) :
    (ofDeclarations ds).get? name =
      (named name ds).getLast?.map fun d => ⟨d, (named name ds).map (·.node)⟩ := by
  induction ds using List.reverseRecOn with
  | nil => rfl
  | append_singleton ds d ih =>
    rw [ofDeclarations_concat, named_concat, declare, get?]
    by_cases h : d.name = name
    · subst h
      simp [candidates_of_get? ih]
    · rw [SortedMap.get?_insert_of_ne _ h, if_neg h, List.append_nil]
      exact ih

/-- Every entry stands for a declaration of its name. -/
theorem mem_entries_ofDeclarations (ds : List Declaration) :
    ∀ p ∈ (ofDeclarations ds).entries.entries, p.2.last ∈ ds ∧ p.2.last.name = p.1 := by
  induction ds using List.reverseRecOn with
  | nil => exact List.forall_mem_nil _
  | append_singleton ds d ih =>
    intro p hp
    rw [ofDeclarations_concat] at hp
    rcases SortedMap.mem_insertEntry hp with rfl | hp
    · exact ⟨List.mem_append_right ds List.mem_cons_self, rfl⟩
    · exact (ih p hp).imp_left (List.mem_append_left [d])

theorem candidates_ofDeclarations (name : String) (ds : List Declaration) :
    (ofDeclarations ds).candidates name = (named name ds).map (·.node) :=
  candidates_of_get? (get?_ofDeclarations name ds)

theorem mem_candidates {t : RefTable} {name : String} {node : Nat} :
    node ∈ t.candidates name ↔ ∃ entry, t.get? name = some entry ∧ node ∈ entry.candidates := by
  rw [candidates, get?]
  cases t.entries.get? name <;> simp

/-- A node has the name of its last declaration. -/
theorem nameOf?_ofDeclarations (node : Nat) (ds : List Declaration) :
    (ofDeclarations ds).nameOf? node =
      (ds.filter (·.node == node)).getLast?.map (·.name) := by
  induction ds using List.reverseRecOn with
  | nil => rfl
  | append_singleton ds d ih =>
    rw [ofDeclarations_concat, declare, nameOf?, List.filter_append]
    by_cases h : d.node = node
    · subst h
      simp
    · have hd : [d].filter (·.node == node) = [] := by simp [h]
      rw [SortedMap.get?_insert_of_ne _ h, hd, List.append_nil]
      exact ih

/-- Where no node declares twice, its name is the one that it is a candidate of. -/
theorem nameOf?_eq_some_iff {ds : List Declaration} (h : (ds.map (·.node)).Nodup) {node : Nat}
    {name : String} :
    (ofDeclarations ds).nameOf? node = some name ↔
      node ∈ (ofDeclarations ds).candidates name := by
  rw [nameOf?_ofDeclarations, candidates_ofDeclarations]
  simp only [Option.map_eq_some_iff, List.mem_map, named, List.mem_filter, beq_iff_eq]
  constructor
  · rintro ⟨d, hd, rfl⟩
    have hmem := List.mem_of_getLast? hd
    rw [List.mem_filter, beq_iff_eq] at hmem
    exact ⟨d, ⟨hmem.1, rfl⟩, hmem.2⟩
  · rintro ⟨d, ⟨hd, rfl⟩, rfl⟩
    cases hl : (ds.filter (·.node == d.node)).getLast? with
    | none =>
      have hnone := List.getLast?_eq_none_iff.mp hl
      rw [List.filter_eq_nil_iff] at hnone
      exact absurd (by simp) (hnone d hd)
    | some last =>
      have hmem := List.mem_of_getLast? hl
      rw [List.mem_filter, beq_iff_eq] at hmem
      exact ⟨last, rfl, by rw [List.inj_on_of_nodup_map h hmem.1 hd hmem.2]⟩

end RefTable

namespace Compiled

/-- A listing of the declarations of trees, depth first: an element comes before all below it, and
a branch stands for its arms in order, then for what is left otherwise. -/
structure DepthFirst (listing : List Compiled → List Declaration) : Prop where
  nil : listing [] = []
  cons (n : Compiled) (ns : List Compiled) : listing (n :: ns) = listing [n] ++ listing ns
  element (id : Nat) (tag : String) (attributes : List Attribute) (reference : Option String)
    (children : List Compiled) (span : Span) :
    listing [element id tag attributes reference children span] =
      (reference.map (⟨·, id, tag, span⟩)).toList ++ listing children
  text (id : Nat) (content : String) (span : Span) : listing [text id content span] = []
  comment (id : Nat) (content : String) (span : Span) : listing [comment id content span] = []
  branch (arms : List (Condition × Compiled)) (otherwise : Option Compiled) (span : Span) :
    listing [branch arms otherwise span] = listing (subtrees arms otherwise)

theorem walkAll_eq (ns : List Compiled) : walkAll ns = ns.flatMap walk := by
  induction ns with
  | nil => rfl
  | cons n ns ih => simp [walkAll, ih]

/-- A branch declares nothing itself. -/
theorem depthFirst_declarations : DepthFirst declarations where
  nil := rfl
  cons n ns := by simp [declarations, walkAll]
  element id tag attributes reference children span := by
    cases reference <;> simp [declarations, walkAll, walk, declaration?, List.filterMap_cons]
  text id content span := rfl
  comment id content span := rfl
  branch arms otherwise span := by
    have hwalk : walkAll [branch arms otherwise span] =
        branch arms otherwise span :: walkAll (subtrees arms otherwise) := by
      simp [walkAll, walk, walk_subtrees, walkAll_eq]
    rw [declarations, hwalk, List.filterMap_cons_none rfl, declarations]

theorem id?_of_declaration? {n : Compiled} {d : Declaration} (h : n.declaration? = some d) :
    n.id? = some d.node := by
  cases n with
  | element id tag attributes reference children span =>
    cases reference with
    | none => cases h
    | some name =>
      cases h
      rfl
  | text id content span => cases h
  | comment id content span => cases h
  | branch arms otherwise span => cases h

/-- Declarations are in the order of the tree. -/
theorem declarations_sublist (nodes : List Compiled) :
    ((declarations nodes).map (·.node)).Sublist (ids nodes) := by
  rw [declarations, ids]
  induction walkAll nodes with
  | nil => exact .slnil
  | cons n ns ih =>
    cases hd : n.declaration? with
    | none =>
      rw [List.filterMap_cons_none hd]
      exact ih.trans ((List.sublist_cons_self n ns).filterMap id?)
    | some d =>
      rw [List.filterMap_cons_some hd, List.filterMap_cons_some (id?_of_declaration? hd)]
      exact ih.cons_cons d.node

end Compiled

namespace RefTable

/-- The table of any trees, also of such that repeat numbers: a name has an entry when it is
declared, and the entry is its last declaration with the nodes of all of them in order; a node has
the name that it declared last. Where no number is repeated the two agree, and a node is a candidate
of one name only. -/
theorem build_records :
    Compiled.DepthFirst Compiled.declarations ∧
      ∀ nodes : List Compiled,
        let ds := Compiled.declarations nodes
        (∀ name, (build nodes).contains name = true ↔ ∃ d ∈ ds, d.name = name) ∧
          (∀ name entry, (build nodes).get? name = some entry →
            (ds.filter (·.name == name)).getLast? = some entry.last ∧
              entry.candidates = (ds.filter (·.name == name)).map (·.node)) ∧
          (∀ node, (build nodes).nameOf? node =
            (ds.filter (·.node == node)).getLast?.map (·.name)) ∧
          (build nodes).entries.keys.Pairwise (· < ·) ∧
          ((ds.map (·.node)).Nodup →
            (∀ node name, (build nodes).nameOf? node = some name ↔
              ∃ entry, (build nodes).get? name = some entry ∧ node ∈ entry.candidates) ∧
            ∀ d ∈ ds, ∃! name, ∃ entry,
              (build nodes).get? name = some entry ∧ d.node ∈ entry.candidates) := by
  refine ⟨Compiled.depthFirst_declarations, fun nodes => ?_⟩
  intro ds
  have hget (name : String) : (build nodes).get? name =
      (named name ds).getLast?.map fun d => ⟨d, (named name ds).map (·.node)⟩ :=
    get?_ofDeclarations name ds
  refine ⟨fun name => ?_, fun name entry hentry => ?_, fun node => nameOf?_ofDeclarations node ds,
    SortedMap.pairwise_keys _, fun hd => ?_⟩
  · have hcontains : (build nodes).contains name = ((build nodes).get? name).isSome := rfl
    rw [hcontains, hget, Option.isSome_map, List.getLast?_isSome, named]
    simp [List.filter_eq_nil_iff]
  · rw [hget] at hentry
    obtain ⟨d, hlast, rfl⟩ := Option.map_eq_some_iff.mp hentry
    exact ⟨hlast, rfl⟩
  · have hname {node : Nat} {name : String} : (build nodes).nameOf? node = some name ↔
        ∃ entry, (build nodes).get? name = some entry ∧ node ∈ entry.candidates :=
      (nameOf?_eq_some_iff hd).trans mem_candidates
    refine ⟨fun node name => hname, fun d hmem => ?_⟩
    have hown : d.node ∈ (ofDeclarations ds).candidates d.name := by
      rw [candidates_ofDeclarations]
      exact List.mem_map_of_mem (List.mem_filter.mpr ⟨hmem, beq_self_eq_true _⟩)
    refine ⟨d.name, mem_candidates.mp hown, fun name hother => ?_⟩
    -- Two names of one node would be two answers for it.
    have hsome := (hname.mpr hother).symm.trans (hname.mpr (mem_candidates.mp hown))
    exact Option.some.inj hsome

/-- An element around a branch, all of one name but the last. -/
def nest : List Compiled :=
  let named (id : Nat) (name : String) (children : List Compiled) : Compiled :=
    .element id "p" [] (some name) children ⟨id, id + 1⟩
  let condition : Condition := ⟨⟨"x", ⟨0, 0⟩⟩, .positive⟩
  [named 0 "a" [.branch [(condition, named 1 "a" [])] (some (named 2 "a" [])) ⟨1, 3⟩,
    named 3 "b" []]]

/-- The numbers of the nest are distinct. The first arm is a candidate, although what stands
otherwise wins. -/
theorem build_records_nest :
    ((Compiled.declarations nest).map (·.node)).Nodup ∧
      (build nest).nameOf? 1 = some "a" ∧
      ∃ entry, (build nest).get? "a" = some entry ∧ 1 ∈ entry.candidates ∧
        entry.last = ⟨"a", 2, "p", ⟨2, 3⟩⟩ := by
  have hds : Compiled.declarations nest =
      [⟨"a", 0, "p", ⟨0, 1⟩⟩, ⟨"a", 1, "p", ⟨1, 2⟩⟩, ⟨"a", 2, "p", ⟨2, 3⟩⟩,
        ⟨"b", 3, "p", ⟨3, 4⟩⟩] := rfl
  have hd : ((Compiled.declarations nest).map (·.node)).Nodup := by
    rw [hds]
    decide
  obtain ⟨-, hentry, hnode, -, hdistinct⟩ := build_records.2 nest
  have hname : (build nest).nameOf? 1 = some "a" := (hnode 1).trans (by simp [hds])
  obtain ⟨entry, ha, hcandidate⟩ := ((hdistinct hd).1 1 "a").mp hname
  obtain ⟨hlast, -⟩ := hentry "a" entry ha
  have htwo : ((Compiled.declarations nest).filter (·.name == "a")).getLast? =
      some ⟨"a", 2, "p", ⟨2, 3⟩⟩ := by simp [hds]
  exact ⟨hd, hname, entry, ha, hcandidate, Option.some.inj (hlast.symm.trans htwo)⟩

end RefTable

namespace CompiledTemplate

theorem refs_eq (c : CompiledTemplate) :
    c.refs = RefTable.ofDeclarations (Compiled.declarations c.nodes) := rfl

theorem candidates_sublist (c : CompiledTemplate) (name : String) :
    (c.refs.candidates name).Sublist c.ids := by
  rw [refs_eq, RefTable.candidates_ofDeclarations]
  exact (List.filter_sublist.map _).trans (Compiled.declarations_sublist c.nodes)

end CompiledTemplate

namespace Template

/-- The candidates of a name are in the order of the template. -/
theorem candidates_increase {options : Options} {t : Template} {c : CompiledTemplate}
    (h : t.compile options = .ok c) (name : String) :
    (c.refs.candidates name).Pairwise (· < ·) :=
  (ids_increase h).sublist (c.candidates_sublist name)

/-- In a compiled template a node has the name that it is a candidate of. -/
theorem nameOf?_eq_some_iff {options : Options} {t : Template} {c : CompiledTemplate}
    (h : t.compile options = .ok c) {node : Nat} {name : String} :
    c.refs.nameOf? node = some name ↔ node ∈ c.refs.candidates name :=
  RefTable.nameOf?_eq_some_iff
    (((ids_increase h).imp Nat.ne_of_lt).sublist (Compiled.declarations_sublist c.nodes))

end Template
end Stencil
