import Stencil.Proofs.Chain.Placement
import Stencil.Proofs.Compile.Siblings
import Stencil.Proofs.StableSort

/-!
# The errors of a template

Each node has the errors of its own directives and at most one error of its place among its
siblings. Compilation finds them in another order: those of a node's own directives, those below
it, and those of a whole sibling list at its end. Sorting by the numbers of the nodes puts them
back into document order.
-/
namespace Stencil

/-- A node with what is wrong with its place among its siblings. -/
structure Verdict where
  node : Node
  placement : Option CompileError

/-- All errors of a node: those of its directives, then that of its place. -/
def Verdict.errors (options : Options) (v : Verdict) : List CompileError :=
  v.node.faults options ++ v.placement.toList

namespace Node

mutual
/-- The verdicts on a node and on all below it, depth first. -/
def judge (keep : Bool) (placement : Option CompileError) : Node → List Verdict
  | element id span tag preserve children =>
    ⟨element id span tag preserve children, placement⟩ ::
      judgeAll (keep || tag.preservesComments) .idle children
  | text id span content => [⟨text id span content, placement⟩]
  | comment id span content => [⟨comment id span content, placement⟩]

/-- The verdicts on a sibling list. Chains decide on the place of each, by what its directives
say at best, from the siblings before it. -/
def judgeAll (keep : Bool) (context : Chain.Context Node) : List Node → List Verdict
  | [] => []
  | n :: ns =>
    let step := context.step (n.sibling keep)
    n.judge keep step.error ++ judgeAll keep step.context ns
end

/-- Every node is judged once. -/
@[simp] theorem judgeAll_nodes (keep : Bool) (context : Chain.Context Node) (ns : List Node) :
    (judgeAll keep context ns).map (·.node) = walkAll ns := by
  induction ns using siblings_induction generalizing keep context with
  | nil => rfl
  | element id span tag preserve children ns ihc ihn =>
    simp [judgeAll, judge, walkAll, walk, ihc, ihn]
  | text id span content ns ihn | comment id span content ns ihn =>
    simp [judgeAll, judge, walkAll, walk, ihn]

theorem node_of_mem_faults {options : Options} {n : Node} {e : CompileError}
    (h : e ∈ n.faults options) : e.node = n.id := by
  cases n with
  | element id span tag preserve children =>
    rw [faults_element, StartTag.errors] at h
    obtain ⟨f, -, rfl⟩ := List.mem_map.mp h
    rfl
  | text id span content => cases h
  | comment id span content => cases h

/-- The site of a conditional is that of its own node. -/
theorem node_of_sibling {keep : Bool} {n m : Node} {c : Conditional} {site : Site}
    (h : n.sibling keep = .conditional c site m) : site.node = n.id := by
  cases n with
  | element id span tag preserve children =>
    simp only [sibling] at h
    split at h
    · cases h
      rfl
    · cases h
  | text id span content =>
    simp only [sibling] at h
    split at h <;> cases h
  | comment id span content =>
    simp only [sibling] at h
    split at h <;> cases h

/-- An error of place: it belongs to the node, which is an orphan or not adjacent. -/
def IsPlacement (n : Node) (e : CompileError) : Prop :=
  e.node = n.id ∧ ∃ directive, e.cause = .orphaned directive ∨ e.cause = .notAdjacent directive

theorem isPlacement_step {keep : Bool} {context : Chain.Context Node} {n : Node}
    {e : CompileError} (h : (context.step (n.sibling keep)).error = some e) :
    n.IsPlacement e := by
  obtain ⟨c, site, m, hs, -, he⟩ := Chain.Context.error_step h
  have hn := node_of_sibling hs
  rcases he with rfl | rfl
  · exact ⟨hn, site.directive, .inl rfl⟩
  · exact ⟨hn, site.directive, .inr rfl⟩

/-- The place of every node is judged by a step of its chain. -/
theorem placement_judgeAll {keep : Bool} {context : Chain.Context Node} {ns : List Node} :
    ∀ v ∈ judgeAll keep context ns, ∃ (keep' : Bool) (context' : Chain.Context Node),
      v.placement = (context'.step (v.node.sibling keep')).error := by
  induction ns using siblings_induction generalizing keep context with
  | nil => intro v hv; cases hv
  | element id span tag preserve children ns ihc ihn =>
    intro v hv
    simp only [judgeAll, judge, List.cons_append, List.mem_cons, List.mem_append] at hv
    rcases hv with rfl | hv | hv
    · exact ⟨keep, context, rfl⟩
    · exact ihc v hv
    · exact ihn v hv
  | text id span content ns ihn | comment id span content ns ihn =>
    intro v hv
    simp only [judgeAll, judge, List.cons_append, List.nil_append, List.mem_cons] at hv
    rcases hv with rfl | hv
    · exact ⟨keep, context, rfl⟩
    · exact ihn v hv

theorem isPlacement_judgeAll {keep : Bool} {context : Chain.Context Node} {ns : List Node}
    {v : Verdict} (hv : v ∈ judgeAll keep context ns) {e : CompileError}
    (he : v.placement = some e) : v.node.IsPlacement e := by
  obtain ⟨keep', context', h⟩ := placement_judgeAll v hv
  exact isPlacement_step (h.symm.trans he)

theorem node_of_mem_errors {options : Options} {keep : Bool} {context : Chain.Context Node}
    {ns : List Node} {v : Verdict} (hv : v ∈ judgeAll keep context ns) {e : CompileError}
    (he : e ∈ v.errors options) : e.node = v.node.id := by
  rcases List.mem_append.mp he with he | he
  · exact node_of_mem_faults he
  · exact (isPlacement_judgeAll hv (Option.mem_toList.mp he)).1

/-- All errors of a sibling list and of what is below it, in document order. -/
def reports (options : Options) (keep : Bool) (context : Chain.Context Node) (ns : List Node) :
    List CompileError :=
  (judgeAll keep context ns).flatMap (Verdict.errors options)

/-- The same errors in the order in which compilation finds them. -/
def found (options : Options) (keep : Bool) (context : Chain.Context Node) (ns : List Node) :
    List CompileError :=
  (compileAll options keep ns).2 ++ (context.run (ns.map (sibling keep))).2

theorem reports_element (options : Options) (keep : Bool) (context : Chain.Context Node) (id : Nat)
    (span : Span) (tag : StartTag) (preserve : Bool) (children ns : List Node) :
    let step := context.step ((element id span tag preserve children).sibling keep)
    reports options keep context (element id span tag preserve children :: ns) =
      tag.errors options id ++ step.error.toList ++
        reports options (keep || tag.preservesComments) .idle children ++
        reports options keep step.context ns := by
  simp [reports, judgeAll, judge, Verdict.errors]

theorem found_element (options : Options) (keep : Bool) (context : Chain.Context Node) (id : Nat)
    (span : Span) (tag : StartTag) (preserve : Bool) (children ns : List Node) :
    let step := context.step ((element id span tag preserve children).sibling keep)
    found options keep context (element id span tag preserve children :: ns) =
      tag.errors options id ++
        (found options (preserve || options.preserveComments) .idle children ++
          (compileAll options keep ns).2 ++ step.error.toList) ++
        (step.context.run (ns.map (sibling keep))).2 := by
  simp [found, compileAll, compile, ofSiblings_compileAll, grouped, Chain.build, Chain.Context.run]

@[simp] theorem error_text (keep : Bool) (context : Chain.Context Node) (id : Nat) (span : Span)
    (content : String) : (context.step ((text id span content).sibling keep)).error = none := by
  simp only [sibling]
  split <;> simp

@[simp] theorem error_comment (keep : Bool) (context : Chain.Context Node) (id : Nat) (span : Span)
    (content : String) : (context.step ((comment id span content).sibling keep)).error = none := by
  simp only [sibling]
  split <;> simp

/-- The errors of a sibling list belong to its nodes. -/
theorem id_of_mem_reports {options : Options} {keep : Bool} {context : Chain.Context Node}
    {ns : List Node} {e : CompileError} (he : e ∈ reports options keep context ns) :
    e.node ∈ (walkAll ns).map id := by
  obtain ⟨v, hv, he⟩ := List.mem_flatMap.mp he
  have hw : v.node ∈ walkAll ns := by
    rw [← judgeAll_nodes keep context]
    exact List.mem_map_of_mem hv
  rw [node_of_mem_errors hv he]
  exact List.mem_map_of_mem hw

theorem le_of_mem_reports {options : Options} {keep scope : Bool} {next : Nat}
    {context : Chain.Context Node} {ns : List Node} (hn : isNumberedAll scope next ns = true)
    {e : CompileError} (he : e ∈ reports options keep context ns) : next ≤ e.node := by
  have hid := id_of_mem_reports he
  rw [ids_of_isNumbered hn] at hid
  exact (List.mem_range'_1.mp hid).1

theorem pairwise_reports {options : Options} {keep scope : Bool} {next : Nat}
    {context : Chain.Context Node} {ns : List Node} (hn : isNumberedAll scope next ns = true) :
    (reports options keep context ns).Pairwise (·.node ≤ ·.node) := by
  have hids : ((judgeAll keep context ns).map (·.node.id)).Pairwise (· < ·) := by
    have hm : (judgeAll keep context ns).map (·.node.id) = List.range' next (sizeAll ns) := by
      rw [← ids_of_isNumbered hn, ← judgeAll_nodes keep context, List.map_map]
      rfl
    rw [hm]
    exact List.pairwise_lt_range'
  rw [reports, List.pairwise_flatMap]
  constructor
  · intro v hv
    refine List.pairwise_of_forall_mem_list fun e he f hf => ?_
    rw [node_of_mem_errors hv he, node_of_mem_errors hv hf]
  · rw [List.pairwise_map] at hids
    refine hids.imp_of_mem fun {v w} hv hw hlt e he f hf => ?_
    rw [node_of_mem_errors hv he, node_of_mem_errors hw hf]
    omega

/-- Compilation finds the errors of each node, in their order. -/
theorem filter_found (options : Options) {scope : Bool} {next : Nat}
    (context : Chain.Context Node) {ns : List Node} (hn : isNumberedAll scope next ns = true)
    (k : Nat) :
    (found options (scope || options.preserveComments) context ns).filter (·.node = k) =
      (reports options (scope || options.preserveComments) context ns).filter (·.node = k) := by
  induction ns using siblings_induction generalizing scope next context k with
  | nil => rfl
  | element id span tag preserve children ns ihc ihn =>
    obtain ⟨rfl, rfl, hb, hs⟩ := isNumberedAll_element.mp hn
    have hk := Bool.or_right_comm scope options.preserveComments tag.preservesComments
    have hbelow := ihc .idle hb
    have hbehind := ihn (context.step ((element id span tag (scope || tag.preservesComments)
      children).sibling (scope || options.preserveComments))).context hs
    rw [found_element, reports_element, hk]
    generalize hstep : context.step ((element id span tag (scope || tag.preservesComments)
      children).sibling (scope || options.preserveComments)) = step at hbehind ⊢
    -- The errors below and behind belong to later nodes than the error of this place does.
    have hlater : ∀ e ∈ found options (scope || tag.preservesComments || options.preserveComments)
        .idle children ++ (compileAll options (scope || options.preserveComments) ns).2,
        ∀ f ∈ step.error.toList, e.node ≠ f.node := by
      intro e he f hf
      rw [← hstep] at hf
      have hf := (isPlacement_step (Option.mem_toList.mp hf)).1
      simp only [Node.id] at hf
      rcases List.mem_append.mp he with he | he
      · have hle := le_of_mem_reports hb ((mem_iff_of_filter_key hbelow e).mp he)
        omega
      · have hle := le_of_mem_reports hs
          ((mem_iff_of_filter_key hbehind e).mp (List.mem_append_left _ he))
        omega
    have hmove := filter_append_comm_of_key hlater k
    have hbehind := hbehind k
    simp only [found, List.filter_append] at hbehind
    simp only [List.filter_append] at hmove ⊢
    rw [hmove, hbelow k, ← hbehind]
    simp only [List.append_assoc]
  | text id span content ns ihn | comment id span content ns ihn =>
    have hr := (isNumberedAll_cons.mp hn).2
    simpa [found, reports, Verdict.errors, compileAll, compile, judgeAll, judge,
      Chain.Context.run] using ihn _ hr k

theorem reports_eq_nil_iff {options : Options} {keep : Bool} {context : Chain.Context Node}
    {ns : List Node} :
    reports options keep context ns = [] ↔
      ∀ v ∈ judgeAll keep context ns, v.node.faults options = [] ∧ v.placement = none := by
  simp [reports, Verdict.errors]

end Node

namespace Template

/-- The verdicts on all nodes of a numbered template. -/
def verdicts (options : Options) (t : Template) : List Verdict :=
  Node.judgeAll options.preserveComments .idle t

/-- Sorted by their nodes, the errors found are those of the verdicts. -/
theorem mergeSort_found (options : Options) (t : Template) :
    (Compiled.ofSiblings (Node.compileAll options options.preserveComments t.number)).2.mergeSort
        (·.node ≤ ·.node) =
      Node.reports options options.preserveComments .idle t.number := by
  have hf := Node.filter_found options .idle t.isNumbered_number
  rw [Bool.false_or] at hf
  rw [Node.ofSiblings_compileAll]
  exact mergeSort_eq_of_filter_key (Node.pairwise_reports t.isNumbered_number) hf

/-- Compilation fails when there are errors to report, and then with those. -/
theorem compile_eq (options : Options) (t : Template) :
    let errors := Node.reports options options.preserveComments .idle t.number
    (errors = [] → ∃ c, t.compile options = .ok c) ∧
      (errors ≠ [] → t.compile options = .error errors) := by
  rw [compile, compile_input, compileNumbered, ← mergeSort_found]
  generalize Compiled.ofSiblings _ = built
  obtain ⟨nodes, errors⟩ := built
  cases errors with
  | nil => exact ⟨fun _ => ⟨_, rfl⟩, fun h => absurd List.mergeSort_nil h⟩
  | cons e es =>
    refine ⟨fun h => ?_, fun _ => rfl⟩
    have hp := List.mergeSort_perm (e :: es) (·.node ≤ ·.node)
    rw [h] at hp
    exact absurd hp.symm.eq_nil (by simp)

theorem compile_error {options : Options} {t : Template} {es : List CompileError}
    (h : t.compile options = .error es) :
    es ≠ [] ∧ es = Node.reports options options.preserveComments .idle t.number := by
  obtain ⟨hok, herror⟩ := compile_eq options t
  by_cases hn : Node.reports options options.preserveComments .idle t.number = []
  · obtain ⟨c, hc⟩ := hok hn
    cases hc.symm.trans h
  · cases (herror hn).symm.trans h
    exact ⟨hn, rfl⟩

/-- Every node is judged once, in document order. Compilation succeeds when no node has an error,
and otherwise returns all errors, node by node: those of its directives, then that of its
place. -/
theorem compile_reports (options : Options) (t : Template) :
    (verdicts options t.number).map (·.node) = Node.walkAll t.number ∧
      (∀ v ∈ verdicts options t.number, ∀ e, v.placement = some e → v.node.IsPlacement e) ∧
      ((∃ c, t.compile options = .ok c) ↔
        ∀ v ∈ verdicts options t.number, v.node.faults options = [] ∧ v.placement = none) ∧
      ∀ es, t.compile options = .error es ↔
        es ≠ [] ∧ es = (verdicts options t.number).flatMap (Verdict.errors options) := by
  obtain ⟨hok, herror⟩ := compile_eq options t
  refine ⟨Node.judgeAll_nodes _ _ _, fun v hv e he => Node.isPlacement_judgeAll hv he, ?_, ?_⟩
  · rw [verdicts, ← Node.reports_eq_nil_iff]
    refine ⟨fun ⟨c, hc⟩ => ?_, hok⟩
    by_contra hne
    cases hc.symm.trans (herror hne)
  · intro es
    refine ⟨compile_error, ?_⟩
    rintro ⟨hne, rfl⟩
    exact herror hne

/-- An orphan comes before the faulty `ref` below it, which is found first. -/
example :
    let member (name : String) (below : List Node) : Node :=
      .element 0 ⟨0, 0⟩ ⟨⟨"p", ⟨0, 0⟩⟩, [⟨⟨name, ⟨0, 0⟩⟩, none, ⟨0, 0⟩⟩]⟩ false below
    compile .standard [member "else" [member "ref" []]] =
      .error [⟨.orphaned "else", "p", ⟨0, 0⟩, 0⟩, ⟨.wrongValue "ref" .literal, "p", ⟨0, 0⟩, 1⟩] := by
  exact (compile_eq .standard _).2 (by decide)

end Template
end Stencil
