import Stencil.Outline
import Stencil.Proofs.Compile.Concatenation
import Stencil.Proofs.Compiled.Located
import Stencil.Proofs.Node.Names
import Stencil.Proofs.RefTable
import Stencil.Proofs.Text.Lines

/-!
# Outlines line by line

An outline has a line for each node that is not a blank text, at the level of its place, and a line
over each subtree of a branch. Then come the names of the table of refs. Texts are quoted, but
comments, attribute values, expressions and names of refs are written as they stand. So these lines
are the lines that a reader sees unless there is a line feed in what is written as it stands.
-/
namespace Stencil

namespace Outline

open Compiled (Place Step at? level walkAll located)

/-- What stands on the line of a node. A blank text has none. -/
def ownText? : Compiled → Option String
  | .element id tag attributes reference _ _ =>
    some (startTag tag attributes reference ++ " " ++ node id)
  | .text _ content _ =>
    if Text.isBlankText content then none else some (Text.quote (Text.trim content))
  | .comment _ content _ => some ("<!--" ++ content ++ "-->")
  | .branch .. => some "branch"

/-- What stands over a subtree of a branch: the condition of its arm, or `else`. -/
def heading? (root : List Compiled) (place : Place) : Option String :=
  match place.getLast?, at? root place.dropLast with
  | some (.arm entry), some (.branch arms _ _) => arms[entry]?.map fun a => arm (entry == 0) a.1
  | some .otherwise, _ => some "else"
  | _, _ => none

/-- The lines for the node at a place. -/
def linesAt (root : List Compiled) (p : Place × Compiled) : List Line :=
  (heading? root p.1).toList.map (⟨level p.1 - 1, ·⟩) ++ (ownText? p.2).toList.map (⟨level p.1, ·⟩)

/-- The line of a name in the table of refs. -/
def nameLine (name : String) (e : RefEntry) : Line :=
  ⟨1, name ++ " -> <" ++ e.last.tag ++ "> " ++ node e.last.node ++ " (candidates " ++
    ", ".intercalate (e.candidates.map node) ++ ")"⟩

/-- The lines of a table of refs: one for each name, under a heading. -/
def tableLines (t : RefTable) : List Line :=
  if t.entries.entries = [] then []
  else ⟨0, "refs"⟩ :: t.entries.entries.map fun (name, e) => nameLine name e

/-- The lines of an outline: those of the nodes at their places, then those of the names. -/
def linesOf (c : CompiledTemplate) : List Line :=
  (located c.nodes).flatMap (linesAt c.nodes) ++ tableLines c.refs

/-- A line as it is printed, without its end. -/
def Line.chars (l : Line) : List Char :=
  List.replicate (2 * l.level) ' ' ++ l.text.toList

def valueText : AttributeValue → String
  | .literal s => s
  | .expression e => e.source

/-- What the outline writes of a node as it stands. -/
def verbatim : Compiled → List String
  | .element _ _ attributes reference _ _ =>
    attributes.filterMap (·.value.map (valueText ·.value)) ++ reference.toList
  | .text .. => []
  | .comment _ content _ => [content]
  | .branch arms _ _ => arms.map (·.1.expression.source)

/-- Nothing that the outline writes of a node as it stands has a line feed. -/
def Feedless (n : Compiled) : Prop :=
  ∀ s ∈ verbatim n, '\n' ∉ s.toList

instance (n : Compiled) : Decidable (Feedless n) :=
  inferInstanceAs (Decidable (∀ s ∈ verbatim n, _))

/-! ## One line for each node -/

section Places
variable {root : List Compiled} {place : Place}

@[simp] theorem heading?_child (root : List Compiled) (place : Place) (index : Nat) :
    heading? root (place ++ [.child index]) = none := by
  simp [heading?]

@[simp] theorem heading?_otherwise (root : List Compiled) (place : Place) :
    heading? root (place ++ [.otherwise]) = some "else" := by
  simp [heading?]

theorem heading?_arm {entry : Nat} {k : Condition} {n : Compiled}
    {arms : List (Condition × Compiled)}
    (h : Compiled.AreArms root place entry ((k, n) :: arms)) :
    heading? root (place ++ [.arm entry]) = some (arm (entry == 0) k) := by
  obtain ⟨all, otherwise, span, hbranch, hdrop⟩ := h
  simp [heading?, hbranch, (Compiled.drop_succ hdrop).1]

end Places

-- The heading of a node is written where its branch writes the arm, in front of its own lines.
mutual
theorem flatMap_walkFrom {root : List Compiled} {place : Place} {n : Compiled}
    (h : at? root place = some n) :
    (n.walkFrom place).flatMap (linesAt root) =
      (heading? root place).toList.map (⟨level place - 1, ·⟩) ++ lines (level place) n := by
  cases n with
  | element id tag attributes reference children span =>
    have hlevel (i : Nat) : level (place ++ [.child i]) = level place + 1 :=
      Compiled.level_concat (Compiled.ne_nil_of_at? h) _
    rw [Compiled.walkFrom, List.flatMap_cons,
      flatMap_walkAllFrom (Compiled.areChildren_element h) hlevel]
    simp [linesAt, ownText?, lines]
  | text id content span =>
    simp only [Compiled.walkFrom, List.flatMap_cons, List.flatMap_nil, linesAt, ownText?, lines]
    split <;> simp
  | comment id content span => simp [Compiled.walkFrom, linesAt, ownText?, lines]
  | branch arms otherwise span =>
    have hlevel : level (place ++ [.otherwise]) = level place + 2 :=
      Compiled.level_concat (Compiled.ne_nil_of_at? h) _
    rw [Compiled.walkFrom, List.flatMap_cons, List.flatMap_append,
      flatMap_walkArmsFrom (Compiled.areArms_branch h)]
    cases otherwise with
    | none => simp [Compiled.walkOptionFrom, linesAt, ownText?, lines, linesOption]
    | some n =>
      have hat : at? root (place ++ [.otherwise]) = some n := Compiled.at?_concat h .otherwise
      rw [Compiled.walkOptionFrom, flatMap_walkFrom hat]
      simp [linesAt, ownText?, lines, linesOption, hlevel]

theorem flatMap_walkAllFrom {root : List Compiled} {place : Place} {index depth : Nat}
    {ns : List Compiled} (h : Compiled.AreChildren root place index ns)
    (hlevel : ∀ i, level (place ++ [.child i]) = depth) :
    (Compiled.walkAllFrom place index ns).flatMap (linesAt root) = linesAll depth ns := by
  cases ns with
  | nil => rfl
  | cons n ns =>
    rw [Compiled.walkAllFrom, List.flatMap_append, flatMap_walkFrom h.head,
      flatMap_walkAllFrom h.tail hlevel]
    simp [linesAll, hlevel]

theorem flatMap_walkArmsFrom {root : List Compiled} {place : Place} {entry : Nat}
    {arms : List (Condition × Compiled)} (h : Compiled.AreArms root place entry arms) :
    (Compiled.walkArmsFrom place entry arms).flatMap (linesAt root) =
      linesArms (level place) (entry == 0) arms := by
  cases arms with
  | nil => rfl
  | cons a arms =>
    obtain ⟨k, n⟩ := a
    have hlevel : level (place ++ [.arm entry]) = level place + 2 :=
      Compiled.level_concat h.ne_nil _
    rw [Compiled.walkArmsFrom, List.flatMap_append, flatMap_walkFrom h.head,
      flatMap_walkArmsFrom h.tail]
    simp [linesArms, heading?_arm h, hlevel]
end

/-- The lines of all nodes are those of a walk with places. -/
theorem linesAll_eq (ns : List Compiled) :
    linesAll 0 ns = (located ns).flatMap (linesAt ns) :=
  (flatMap_walkAllFrom (Compiled.areChildren_root ns) fun _ => rfl).symm

/-! ## Line feeds -/

/-- The names that the outline writes of a node are spelled as names. -/
def IsNamed : Compiled → Prop
  | .element _ tag attributes _ _ _ =>
    Token.IsName tag ∧ ∀ a ∈ attributes, Token.IsName a.name.value
  | .text .. | .comment .. | .branch .. => True

theorem not_mem_chars {l : Line} : '\n' ∉ l.chars ↔ '\n' ∉ l.text.toList := by
  simp [Line.chars]

theorem feed_not_mem_name {name : String} (h : Token.IsName name) : '\n' ∉ name.toList :=
  h.not_mem (by decide) (by decide)

theorem toList_node (id : Nat) : (node id).toList = '#' :: Nat.toDigits 10 id := by
  simp only [node, Nat.toString_eq_repr, String.toList_append, Nat.toList_repr]
  rfl

theorem not_mem_node {c : Char} (hc : c ≠ '#') (hd : c.isDigit = false) (id : Nat) :
    c ∉ (node id).toList := by
  rw [toList_node, List.mem_cons, not_or]
  refine ⟨hc, fun hmem => ?_⟩
  cases hd.symm.trans (Nat.isDigit_of_mem_toDigits (by decide) (by decide) hmem)

theorem not_mem_attributeText {a : Attribute} (h : Token.IsName a.name.value) :
    '\n' ∉ (attributeText a).toList ↔ ∀ v ∈ a.value, '\n' ∉ (valueText v.value).toList := by
  have hname := feed_not_mem_name h
  obtain ⟨name, value, span⟩ := a
  obtain _ | ⟨_ | e, place⟩ := value <;>
    simp [attributeText, valueText, expression, String.toList_append, hname]

theorem not_mem_startTag {id : Nat} {tag : String} {attributes : List Attribute}
    {reference : Option String} {children : List Compiled} {span : Span}
    (h : IsNamed (.element id tag attributes reference children span)) :
    '\n' ∉ (startTag tag attributes reference).toList ↔
      ∀ s ∈ verbatim (.element id tag attributes reference children span), '\n' ∉ s.toList := by
  have htag := feed_not_mem_name h.1
  have hparts : '\n' ∉ (startTag tag attributes reference).toList ↔
      (∀ a ∈ attributes, '\n' ∉ (attributeText a).toList) ∧
        ∀ r ∈ reference, '\n' ∉ r.toList := by
    cases reference <;> simp [startTag, String.toList_append, htag]
  rw [hparts, verbatim, List.forall_mem_append, List.forall_mem_filterMap]
  refine and_congr (forall₂_congr fun a ha => ?_) (by simp)
  rw [not_mem_attributeText (h.2 a ha)]
  cases a.value <;> simp

/-- No line feed divides the line. -/
def Single (l : Line) : Prop :=
  '\n' ∉ l.text.toList

theorem single_arm (depth : Nat) (first : Bool) (k : Condition) :
    Single ⟨depth, arm first k⟩ ↔ '\n' ∉ k.expression.source.toList := by
  obtain ⟨e, ⟨⟩⟩ := k <;> cases first <;>
    simp [Single, arm, expression, Polarity.describe, String.toList_append]

-- A branch writes its conditions over its subtrees, so that they are among the lines of the arms.
mutual
theorem single_lines {n : Compiled} (h : ∀ m ∈ n.walk, IsNamed m) (depth : Nat) :
    (∀ l ∈ lines depth n, Single l) ↔ ∀ m ∈ n.walk, Feedless m := by
  cases n with
  | element id tag attributes reference children span =>
    obtain ⟨hn, hchildren⟩ := List.forall_mem_cons.mp h
    have hline : Single ⟨depth, startTag tag attributes reference ++ " " ++ node id⟩ ↔
        Feedless (.element id tag attributes reference children span) := by
      rw [Feedless, ← not_mem_startTag hn]
      simp [Single, String.toList_append, not_mem_node]
    rw [lines, List.forall_mem_cons, hline, single_linesAll hchildren, Compiled.walk,
      List.forall_mem_cons]
  | text id content span =>
    rw [lines]
    split <;> simp [Compiled.walk, Single, Feedless, verbatim, Text.not_mem_quote]
  | comment id content span =>
    simp [lines, Compiled.walk, Single, Feedless, verbatim, String.toList_append]
  | branch arms otherwise span =>
    obtain ⟨-, hbelow⟩ := List.forall_mem_cons.mp h
    obtain ⟨harms, hotherwise⟩ := List.forall_mem_append.mp hbelow
    have hbranch : Single ⟨depth, "branch"⟩ := by simp [Single]
    have helse : Single ⟨depth + 1, "else"⟩ := by simp [Single]
    have hdefault : (∀ l ∈ linesOption depth otherwise, Single l) ↔
        ∀ m ∈ Compiled.walkOption otherwise, Feedless m := by
      cases otherwise with
      | none => simp [linesOption, Compiled.walkOption]
      | some n =>
        rw [linesOption, Compiled.walkOption, List.forall_mem_cons, single_lines hotherwise]
        exact and_iff_right helse
    have hconditions : Feedless (.branch arms otherwise span) ↔
        ∀ a ∈ arms, '\n' ∉ a.1.expression.source.toList := by
      rw [Feedless, verbatim, List.forall_mem_map]
    rw [lines, Compiled.walk, List.forall_mem_cons, List.forall_mem_append, List.forall_mem_cons,
      List.forall_mem_append, single_linesArms harms, hdefault, hconditions, and_iff_right hbranch,
      and_assoc]

theorem single_linesAll {ns : List Compiled} (h : ∀ m ∈ walkAll ns, IsNamed m) (depth : Nat) :
    (∀ l ∈ linesAll depth ns, Single l) ↔ ∀ m ∈ walkAll ns, Feedless m := by
  cases ns with
  | nil => simp [linesAll, walkAll]
  | cons n ns =>
    obtain ⟨hn, hns⟩ := List.forall_mem_append.mp h
    rw [linesAll, walkAll, List.forall_mem_append, List.forall_mem_append, single_lines hn,
      single_linesAll hns]

theorem single_linesArms {arms : List (Condition × Compiled)}
    (h : ∀ m ∈ Compiled.walkArms arms, IsNamed m) (depth : Nat) (first : Bool) :
    (∀ l ∈ linesArms depth first arms, Single l) ↔
      (∀ a ∈ arms, '\n' ∉ a.1.expression.source.toList) ∧
        ∀ m ∈ Compiled.walkArms arms, Feedless m := by
  cases arms with
  | nil => simp [linesArms, Compiled.walkArms]
  | cons a arms =>
    obtain ⟨k, n⟩ := a
    obtain ⟨hn, harms⟩ := List.forall_mem_append.mp h
    rw [linesArms, Compiled.walkArms, List.forall_mem_cons, List.forall_mem_append, single_arm,
      single_lines hn, single_linesArms harms, List.forall_mem_cons, List.forall_mem_append]
    exact and_assoc.symm.trans and_and_and_comm
end

/-! ## The table of refs -/

/-- The table is listed by its names, since an entry stands under its own. -/
theorem table_refs (c : CompiledTemplate) : table c.refs = tableLines c.refs := by
  have hnames := RefTable.mem_entries_ofDeclarations (Compiled.declarations c.nodes)
  rw [← CompiledTemplate.refs_eq] at hnames
  have hentries : c.refs.entries.values.map entry =
      c.refs.entries.entries.map fun (name, e) => nameLine name e := by
    rw [SortedMap.values, List.map_map]
    refine List.map_congr_left fun p hp => ?_
    obtain ⟨name, e⟩ := p
    obtain rfl : e.last.name = name := (hnames _ hp).2
    rfl
  rw [table, tableLines, hentries, SortedMap.isEmpty]
  cases c.refs.entries.entries <;> rfl

theorem single_nameLine {name : String} {e : RefEntry} (hname : '\n' ∉ name.toList)
    (htag : Token.IsName e.last.tag) : Single (nameLine name e) := by
  have hcandidates : '\n' ∉ (", ".intercalate (e.candidates.map node)).toList :=
    Text.not_mem_intercalate (by decide) (List.forall_mem_map.mpr fun id _ =>
      not_mem_node (by decide) (by decide) id)
  have hnode : '\n' ∉ (node e.last.node).toList := not_mem_node (by decide) (by decide) _
  rw [Single, nameLine]
  generalize ", ".intercalate (e.candidates.map node) = candidates at hcandidates
  simp [String.toList_append, hname, feed_not_mem_name htag, hnode, hcandidates]

/-- The table writes the names that the nodes write, and tags. -/
theorem single_tableLines {c : CompiledTemplate} (hn : ∀ n ∈ walkAll c.nodes, IsNamed n)
    (hf : ∀ n ∈ walkAll c.nodes, Feedless n) : ∀ l ∈ tableLines c.refs, Single l := by
  have hnames : ∀ p ∈ c.refs.entries.entries, Single (nameLine p.1 p.2) := by
    rintro ⟨name, last, candidates⟩ hp
    obtain ⟨hmem, hname⟩ := RefTable.mem_entries_ofDeclarations _ _ hp
    obtain rfl : last.name = name := hname
    obtain ⟨n, hwalk, hd⟩ := List.mem_filterMap.mp hmem
    cases n with
    | element id tag attributes reference children span =>
      cases reference with
      | none => cases hd
      | some name =>
        cases Option.some.inj hd
        exact single_nameLine (hf _ hwalk name (by simp [verbatim])) (hn _ hwalk).1
    | text _ _ _ | comment _ _ _ | branch _ _ _ => cases hd
  rw [tableLines]
  split
  · simp
  · exact List.forall_mem_cons.mpr ⟨by simp [Single], List.forall_mem_map.mpr hnames⟩

/-! ## Reading the lines -/

/-- The line does not end in a return, which would be read as a part of its end. -/
def EndsOpenly (l : Line) : Prop :=
  l.text.toList.getLast? ≠ some '\r'

theorem toList_render (ls : List Line) :
    (render ls).toList = (ls.map Line.chars).flatMap (· ++ ['\n']) := by
  simp [render, Line.render, Line.chars, List.flatMap_map, String.toList_append]

theorem getLast?_chars {l : Line} (h : EndsOpenly l) : l.chars.getLast? ≠ some '\r' := by
  rw [Line.chars, List.getLast?_append]
  cases hlast : l.text.toList.getLast? with
  | some c =>
    rw [EndsOpenly, hlast] at h
    exact h
  | none =>
    rw [Option.none_or]
    intro hmem
    cases List.eq_of_mem_replicate (List.mem_of_getLast? hmem)

/-- Printed lines are read back exactly when each is a single line. -/
theorem feedLines_render {ls : List Line} (h : ∀ l ∈ ls, EndsOpenly l) :
    Text.feedLines (render ls).toList = ls.map Line.chars ↔ ∀ l ∈ ls, Single l := by
  rw [toList_render, Text.feedLines_flatMap, List.forall_mem_map]
  · exact forall₂_congr fun l _ => not_mem_chars
  · exact List.forall_mem_map.mpr fun l hl => getLast?_chars (h l hl)

/-- No heading ends in a return, whatever the expression in it is. -/
theorem getLast?_heading {root : List Compiled} {place : Place} {s : String}
    (h : heading? root place = some s) : s.toList.getLast? ≠ some '\r' := by
  rw [heading?] at h
  split at h
  · obtain ⟨a, -, rfl⟩ := Option.map_eq_some_iff.mp h
    rw [arm, expression, ← String.append_assoc]
    exact Text.getLast?_append_ne (by decide) (by decide) _
  · cases h
    decide
  · cases h

theorem getLast?_node (front : String) (id : Nat) :
    (front ++ node id).toList.getLast? ≠ some '\r' :=
  Text.getLast?_append_ne (by simp [toList_node]) (not_mem_node (by decide) (by decide) id) front

theorem getLast?_ownText {n : Compiled} {s : String} (h : ownText? n = some s) :
    s.toList.getLast? ≠ some '\r' := by
  cases n with
  | element id tag attributes reference children span =>
    obtain rfl := Option.some.inj h
    exact getLast?_node _ id
  | text id content span =>
    rw [ownText?] at h
    split at h
    · cases h
    · obtain rfl := Option.some.inj h
      rw [Text.quote, String.toList_ofList, List.getLast?_append_of_ne_nil _ (by simp)]
      decide
  | comment id content span =>
    obtain rfl := Option.some.inj h
    exact Text.getLast?_append_ne (by decide) (by decide) _
  | branch arms otherwise span =>
    obtain rfl := Option.some.inj h
    decide

theorem endsOpenly_linesAt (root : List Compiled) (p : Place × Compiled) :
    ∀ l ∈ linesAt root p, EndsOpenly l := by
  rw [linesAt, List.forall_mem_append, List.forall_mem_map, List.forall_mem_map]
  exact ⟨fun s hs => getLast?_heading (Option.mem_toList.mp hs),
    fun s hs => getLast?_ownText (Option.mem_toList.mp hs)⟩

theorem endsOpenly_tableLines (t : RefTable) : ∀ l ∈ tableLines t, EndsOpenly l := by
  rw [tableLines]
  split
  · simp
  · refine List.forall_mem_cons.mpr ⟨by simp [EndsOpenly], List.forall_mem_map.mpr fun p _ => ?_⟩
    exact Text.getLast?_append_ne (by decide) (by decide) _

theorem single_binding {η : Type} (b : Binding η) :
    (∀ l ∈ binding b, Single l) ↔ ∀ name ∈ b.keys, '\n' ∉ name.toList := by
  have hnode (id : Nat) : '\n' ∉ (node id).toList := not_mem_node (by decide) (by decide) id
  rw [binding, List.forall_mem_map, SortedMap.keys, List.forall_mem_map]
  refine forall₂_congr fun p _ => ?_
  simp [Single, String.toList_append, hnode]

theorem endsOpenly_binding {η : Type} (b : Binding η) : ∀ l ∈ binding b, EndsOpenly l :=
  List.forall_mem_map.mpr fun p _ => getLast?_node _ p.2.node

theorem outline_eq (c : CompiledTemplate) : c.outline = render (linesOf c) := by
  rw [CompiledTemplate.outline, linesAll_eq, table_refs, linesOf]

theorem endsOpenly_linesOf (c : CompiledTemplate) : ∀ l ∈ linesOf c, EndsOpenly l := by
  rw [linesOf, List.forall_mem_append, List.forall_mem_flatMap]
  exact ⟨fun p _ => endsOpenly_linesAt c.nodes p, endsOpenly_tableLines c.refs⟩

theorem single_linesOf {c : CompiledTemplate} (h : ∀ n ∈ walkAll c.nodes, IsNamed n) :
    (∀ l ∈ linesOf c, Single l) ↔ ∀ n ∈ walkAll c.nodes, Feedless n := by
  rw [linesOf, ← linesAll_eq, List.forall_mem_append, single_linesAll h]
  exact and_iff_left_of_imp (single_tableLines h)

theorem isNamed_of_compileSource {options : Options} {source : String} {c : CompiledTemplate}
    (h : compileSource options source = .ok c) : ∀ n ∈ walkAll c.nodes, IsNamed n := by
  obtain ⟨t, hp, hc⟩ := compileSource_eq_ok_iff.mp h
  refine Template.forall_nodes hc (fun m hm => ?_) fun d _ => trivial
  rw [Template.number_of_isNumbered (Template.isNumbered_of_parse hp)] at hm
  have htidy := Template.isTidy_of_parse hp m hm
  cases m with
  | element id span tag preserve children =>
    exact ⟨htidy.1, fun a ha => (htidy.2 a (List.mem_of_mem_filter ha)).1⟩
  | text _ _ _ | comment _ _ _ => trivial

end Outline

open Outline (linesOf Line Feedless)

/-- The outline of a compiled source has a line for each node at the level of its place, unless the
node is a blank text, a line over each subtree of a branch, and a line for each name of the table of
refs. These are the lines that are read, exactly when no line feed is in a comment, an attribute
value, an expression or the name of a ref. Likewise for the names of a binding. -/
theorem compileSource_outline {options : Options} {source : String} {c : CompiledTemplate}
    (h : compileSource options source = .ok c) :
    c.outline = Outline.render (linesOf c) ∧
      (Compiled.located c.nodes).map (·.2) = Compiled.walkAll c.nodes ∧
      (∀ p ∈ Compiled.located c.nodes, Compiled.at? c.nodes p.1 = some p.2) ∧
      (Text.feedLines c.outline.toList = (linesOf c).map Line.chars ↔
        ∀ n ∈ Compiled.walkAll c.nodes, Feedless n) ∧
      ∀ {η : Type} (b : Binding η),
        Text.feedLines b.outline.toList =
            b.entries.map (fun (name, r) => (name ++ " -> " ++ Outline.node r.node).toList) ↔
          ∀ name ∈ b.keys, '\n' ∉ name.toList := by
  have hlocated := Compiled.located_walk c.nodes
  refine ⟨Outline.outline_eq c, hlocated.1, hlocated.2, ?_, fun {η} b => ?_⟩
  · rw [Outline.outline_eq, Outline.feedLines_render (Outline.endsOpenly_linesOf c)]
    exact Outline.single_linesOf (Outline.isNamed_of_compileSource h)
  · rw [← Outline.single_binding, ← Outline.feedLines_render (Outline.endsOpenly_binding b),
      Binding.outline, Outline.binding, List.map_map]
    rfl

/-- A branch of two, the first with a `ref`. -/
theorem compileSource_outline_branch :
    ∃ c, compileSource .standard "<p if:true={a} ref='r'>x</p><q else/>" = .ok c ∧
      Text.feedLines c.outline.toList =
        ["branch", "  if:true \x7ba\x7d", "    <p ref=\"r\"> #0", "      \"x\"", "  else",
          "    <q> #2", "refs", "  r -> <p> #0 (candidates #0)"].map String.toList := by
  let phrases : List Phrase :=
    [.enclosing ⟨⟨0, 1⟩, ⟨"p", ⟨1, 2⟩⟩,
        [.valued ⟨"if:true", ⟨3, 10⟩⟩ ⟨10, 11⟩ (.expression ⟨"a", ⟨11, 14⟩⟩),
          .valued ⟨"ref", ⟨15, 18⟩⟩ ⟨18, 19⟩ (.literal ⟨"r", ⟨19, 22⟩⟩)]⟩ ⟨22, 23⟩
        [.text ⟨"x", ⟨23, 24⟩⟩] ⟨24, 26⟩ ⟨"p", ⟨26, 27⟩⟩ ⟨27, 28⟩,
      .selfClosing ⟨⟨28, 29⟩, ⟨"q", ⟨29, 30⟩⟩, [.bare ⟨"else", ⟨31, 35⟩⟩]⟩ ⟨35, 37⟩]
  have hlex : Token.lex "<p if:true={a} ref='r'>x</p><q else/>" = Phrase.tokensAll phrases := by
    decide +kernel
  have hwell : Phrase.WellFormedAll phrases := by
    simp [phrases, Phrase.WellFormedAll, Phrase.WellFormed, TagPhrase.Distinct,
      AttributePhrase.name]
  have hparse := Template.parse_of_derives (by rw [hlex]; rfl) ⟨hlex.symm, hwell⟩
  let c : CompiledTemplate :=
    ⟨[.branch
      [(⟨⟨"a", ⟨11, 14⟩⟩, .positive⟩, .element 0 "p" [] (some "r") [.text 1 "x" ⟨23, 24⟩] ⟨0, 28⟩)]
      (some (.element 2 "q" [] none [] ⟨28, 37⟩)) ⟨0, 37⟩]⟩
  have hcompile : compileSource .standard "<p if:true={a} ref='r'>x</p><q else/>" = .ok c :=
    compileSource_eq_ok_iff.mpr ⟨_, hparse, rfl⟩
  refine ⟨c, hcompile, ?_⟩
  obtain ⟨-, -, -, hlines, -⟩ := compileSource_outline hcompile
  rw [hlines.mpr (by decide)]
  decide +kernel

/-- Two nodes, the second a comment with a line feed in it. It takes two lines. -/
theorem compileSource_outline_feed :
    ∃ c, compileSource .standard "<template preserve-comments><!--a\nb--></template>" = .ok c ∧
      c.nodes = [.element 0 "template" [] none [.comment 1 "a\nb" ⟨28, 38⟩] ⟨0, 49⟩] ∧
      (linesOf c).length = 2 ∧
      Text.feedLines c.outline.toList =
        ["<template> #0", "  <!--a", "b-->"].map String.toList := by
  let phrases : List Phrase :=
    [.enclosing ⟨⟨0, 1⟩, ⟨"template", ⟨1, 9⟩⟩, [.bare ⟨"preserve-comments", ⟨10, 27⟩⟩]⟩ ⟨27, 28⟩
      [.comment ⟨"a\nb", ⟨28, 38⟩⟩] ⟨38, 40⟩ ⟨"template", ⟨40, 48⟩⟩ ⟨48, 49⟩]
  have hlex : Token.lex "<template preserve-comments><!--a\nb--></template>" =
      Phrase.tokensAll phrases := by decide +kernel
  have hwell : Phrase.WellFormedAll phrases := by
    simp [phrases, Phrase.WellFormedAll, Phrase.WellFormed, TagPhrase.Distinct,
      AttributePhrase.name]
  have hparse := Template.parse_of_derives (by rw [hlex]; rfl) ⟨hlex.symm, hwell⟩
  let c : CompiledTemplate :=
    ⟨[.element 0 "template" [] none [.comment 1 "a\nb" ⟨28, 38⟩] ⟨0, 49⟩]⟩
  have hcompile : compileSource .standard "<template preserve-comments><!--a\nb--></template>" =
      .ok c := compileSource_eq_ok_iff.mpr ⟨_, hparse, rfl⟩
  exact ⟨c, hcompile, rfl, by decide +kernel, by decide +kernel⟩

end Stencil
