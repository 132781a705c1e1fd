import Mathlib.Data.List.Basic
import Reckoner.Node.Outline
import Reckoner.Proofs.Composition
import Reckoner.Proofs.Locations
import Reckoner.Proofs.Preorder
import Reckoner.Proofs.Quoting

/-!
# The lines of a tree

The lines of a child are set in by every node above it. In the end each node has a line of its own,
set in by its depth, and what the line shows of the node can be read back from it.

* `Node.outline_eq_flatMap`, `lines_dump` -- the lines of any tree, node by node;
* `Label.Legible` -- counts that are not negative, an operator just where the kind asks for one, and
  no quotation mark in it; `Legible.line_injective` -- so all that a line shows can be read from it;
* `exists_parse_legible` -- all that is read is legible;
* `Node.Entry` -- what the line of a node shows; `parse_dump` -- the lines of the trees of texts.
-/

namespace Reckoner

/-! ## 1. Lines and depths -/

namespace Text

/-- A line set in some levels deep. -/
def setIn (depth : Nat) (line : Text) : Text := List.replicate (2 * depth) ' ' ++ line

theorem setIn_zero : setIn 0 = id := rfl

theorem indented_setIn (depth : Nat) (line : Text) :
    indented (setIn depth line) = setIn (depth + 1) line := rfl

theorem notMem_setIn {depth : Nat} {line : Text} (h : '\n' ∉ line) : '\n' ∉ setIn depth line := by
  simp [setIn, h]

end Text

namespace Node

/-- The lines of a node at a place: those of its header, set in by the depth of the place. -/
def linesAt (site : List Nat × Node) : List Text :=
  site.2.label.header.lines.map (Text.setIn site.1.length)

theorem linesAt_under (i : Nat) (site : List Nat × Node) :
    linesAt (under [i] site) = (linesAt site).map Text.indented := by
  rw [linesAt, linesAt, List.map_map]
  exact List.map_congr_left fun line _ => (Text.indented_setIn site.1.length line).symm

mutual

/-- **The lines of a tree are those of its nodes**, each set in by its depth. -/
theorem outline_eq_flatMap : ∀ n : Node, n.outline = n.sites.flatMap linesAt
  | .mk label children => by
      have hown : linesAt ([], .mk label children) = label.header.lines := by
        rw [linesAt, List.length_nil, Text.setIn_zero, List.map_id, label_mk]
      rw [outline, sites, List.flatMap_cons, hown, outlineAll_eq_flatMap 0 children]

theorem outlineAll_eq_flatMap (i : Nat) :
    ∀ nodes : List Node, outlineAll nodes = (sitesFrom i nodes).flatMap linesAt
  | [] => rfl
  | node :: rest => by
      have hnode : node.outline.map Text.indented =
          ((sites node).map (under [i])).flatMap linesAt := by
        rw [outline_eq_flatMap node, List.map_flatMap, List.flatMap_map]
        exact List.flatMap_congr fun site _ => (linesAt_under i site).symm
      rw [outlineAll, sitesFrom, List.flatMap_append, hnode, outlineAll_eq_flatMap (i + 1) rest]

end

theorem outline_ne_nil (n : Node) : n.outline ≠ [] := by
  obtain ⟨label, children⟩ := n
  rw [outline]
  exact List.append_ne_nil_of_left_ne_nil (Text.lines_ne_nil _) _

/-- The dump of a tree has the lines of its nodes, no more and no less. -/
theorem lines_dump (n : Node) : n.dump.lines = n.sites.flatMap linesAt := by
  have hflat : ∀ line ∈ n.outline, '\n' ∉ line := by
    rw [outline_eq_flatMap]
    intro line hline
    obtain ⟨site, -, hline⟩ := List.mem_flatMap.1 hline
    obtain ⟨own, hown, rfl⟩ := List.mem_map.1 hline
    exact Text.notMem_setIn (Text.notMem_of_mem_lines hown)
  rw [dump, Text.lines_unlines n.outline_ne_nil hflat, outline_eq_flatMap]

/-- The line of a node at a place. -/
def lineAt (site : List Nat × Node) : Text := Text.setIn site.1.length site.2.label.header

/-- When no header holds a line feed there is one line for each node. -/
theorem lines_dump_of_notMem {n : Node} (h : ∀ site ∈ n.sites, '\n' ∉ site.2.label.header) :
    n.dump.lines = n.sites.map lineAt := by
  rw [lines_dump, List.map_eq_flatMap]
  refine List.flatMap_congr fun site hsite => ?_
  rw [linesAt, Text.lines_eq_singleton (h site hsite), List.map_singleton, lineAt]

end Node

/-! ## 2. Reading a line back -/

/-- The kinds that show an operator. -/
def Node.Kind.showsOperator : Kind → Bool
  | .prefixOp | .infixOp | .binaryFunction | .unaryFunction => true
  | .expression | .number | .paren => false

/-- The counts of a location are not negative. -/
def Location.Counted (here : Location) : Prop := 0 ≤ here.line ∧ 0 ≤ here.column

/-- What can be read from the line of a node. -/
structure Label.Legible (label : Label) : Prop where
  start : label.span.start.Counted
  stop : label.span.stop.Counted
  operator : label.operator?.isSome = label.kind.showsOperator
  flat : ∀ operator ∈ label.operator?, operator.Flat

namespace Location

theorem isDigit_or_colon {here : Location} (h : here.Counted) {c : Char} (hc : c ∈ here.text) :
    c.isDigit = true ∨ c = ':' := by
  rcases List.mem_append.1 hc with hc | hc
  · exact .inl (Text.isDigit_of_mem_ofInt h.1 hc)
  rcases List.mem_cons.1 hc with rfl | hc
  · exact .inr rfl
  · exact .inl (Text.isDigit_of_mem_ofInt h.2 hc)

theorem text_injective {a b : Location} (ha : a.Counted) (hb : b.Counted) (h : a.text = b.text) :
    a.line = b.line ∧ a.column = b.column := by
  have hcolon : ∀ n : Int, 0 ≤ n → ':' ∉ Text.ofInt n := fun n hn hmem =>
    absurd (Text.isDigit_of_mem_ofInt hn hmem) (by decide)
  obtain ⟨hline, hcolumn⟩ := Text.eq_of_split (hcolon _ ha.1) (hcolon _ hb.1) h
  exact ⟨Text.ofInt_injective ha.1 hb.1 hline, Text.ofInt_injective ha.2 hb.2 hcolumn⟩

end Location

theorem Node.Kind.word_injective {kind kind' : Kind} (h : kind.word = kind'.word) :
    kind = kind' := by
  revert h
  cases kind <;> cases kind' <;> decide

/-- What the line of a node shows. -/
structure Node.Entry where
  depth : Nat
  kind : Kind
  startLine : Int
  startColumn : Int
  stopLine : Int
  stopColumn : Int
  operator? : Option Text
  text : Text
  deriving DecidableEq, Repr

/-- What the line of a node at a place shows. -/
def Node.entryAt (site : List Nat × Node) : Entry :=
  let label := site.2.label
  ⟨site.1.length, label.kind, label.span.start.line, label.span.start.column,
    label.span.stop.line, label.span.stop.column, label.operator?, label.text⟩

namespace Label

/-- A header in its parts, the first in front. -/
theorem header_eq (label : Label) : label.header = label.span.text ++ ' ' ::
    (label.kind.word ++ ' ' :: (label.info ++ label.text.quoted)) := by
  simp only [header, List.append_assoc, List.cons_append]

theorem info_of_operator {label : Label} {operator : Text}
    (hkind : label.kind.showsOperator = true) (hset : label.operator? = some operator) :
    label.info = operator ++ [' '] := by
  unfold info
  cases hcase : label.kind with
  | prefixOp => rw [hset, Option.getD_some]
  | infixOp => rw [hset, Option.getD_some]
  | binaryFunction => rw [hset, Option.getD_some]
  | unaryFunction => rw [hset, Option.getD_some]
  | _ =>
      rw [hcase] at hkind
      cases hkind

end Label

namespace Label.Legible

variable {a b label : Label}

theorem span_char (h : label.Legible) {c : Char} (hc : c ∈ label.span.text) :
    c.isDigit = true ∨ c = ':' ∨ c = '-' := by
  rcases List.mem_append.1 hc with hc | hc
  · exact (Location.isDigit_or_colon h.start hc).imp_right .inl
  rcases List.mem_cons.1 hc with rfl | hc
  · exact .inr (.inr rfl)
  · exact (Location.isDigit_or_colon h.stop hc).imp_right .inl

theorem span_notMem (h : label.Legible) {c : Char} (hdigit : c.isDigit = false) (hcolon : c ≠ ':')
    (hdash : c ≠ '-') : c ∉ label.span.text := fun hc =>
  (h.span_char hc).elim (fun htrue => Bool.false_ne_true (hdigit.symm.trans htrue))
    fun hmark => hmark.elim hcolon hdash

/-- A line starts with a digit, so it is certain how far it is set in. -/
theorem head?_header (h : label.Legible) : label.header.head? ≠ some ' ' := by
  have hmem : ∀ c ∈ label.header.head?, c ∈ label.span.text := by
    intro c hc
    have hne : label.span.text ≠ [] := by simp [Span.text]
    rw [header_eq, List.head?_append, List.head?_eq_some_head hne, Option.some_or] at hc
    obtain rfl := Option.some.inj hc
    exact List.head_mem hne
  exact fun hblank => h.span_notMem (by decide) (by decide) (by decide) (hmem ' ' hblank)

theorem flat_info (h : label.Legible) : label.info.Flat := by
  have hunset : unset.Flat := by decide
  have hblank : Text.Flat [' '] := by decide
  have hoperator : (label.operator?.getD unset).Flat := by
    cases hset : label.operator? with
    | none => exact hunset
    | some operator => exact h.flat operator hset
  have hnumber : ((label.number?.map Number.text).getD unset).Flat := by
    cases label.number? with
    | none => exact hunset
    | some number => exact number.flat_text
  unfold info
  split
  · exact hnumber.append hblank
  · exact hoperator.append hblank
  · exact hoperator.append hblank
  · exact hoperator.append hblank
  · exact hoperator.append hblank
  · exact fun _ hc => absurd hc List.not_mem_nil
  · exact fun _ hc => absurd hc List.not_mem_nil

/-- A header is one line, whatever the text of the node is. -/
theorem notMem_header (h : label.Legible) : '\n' ∉ label.header := by
  have hspan := h.span_notMem (c := '\n') (by decide) (by decide) (by decide)
  have hword : '\n' ∉ label.kind.word := by cases label.kind <;> decide
  have hinfo : '\n' ∉ label.info := fun hmem => (h.flat_info _ hmem).2 rfl
  have hquoted := Text.notMem_quoted label.text
  simp [header_eq, hspan, hword, hinfo, hquoted]

/-- The operator is certain when the payload and the kind are. -/
theorem operator_injective (ha : a.Legible) (hb : b.Legible) (hkind : a.kind = b.kind)
    (hinfo : a.info = b.info) : a.operator? = b.operator? := by
  cases hshows : a.kind.showsOperator with
  | false =>
      have hnone : a.operator? = none := by simpa [hshows] using ha.operator
      have hnone' : b.operator? = none := by simpa [← hkind, hshows] using hb.operator
      rw [hnone, hnone']
  | true =>
      obtain ⟨x, hx⟩ := Option.isSome_iff_exists.1 (ha.operator.trans hshows)
      obtain ⟨y, hy⟩ := Option.isSome_iff_exists.1 (hb.operator.trans (hkind ▸ hshows))
      rw [info_of_operator hshows hx, info_of_operator (hkind ▸ hshows) hy] at hinfo
      rw [hx, hy, List.append_cancel_right hinfo]

/-- **All that a header shows can be read from it.** The blank behind the span and the one behind
    the word for the kind are the first ones, and the quotation starts at the first quotation
    mark. -/
theorem header_injective (ha : a.Legible) (hb : b.Legible) (h : a.header = b.header) :
    a.span.text = b.span.text ∧ a.kind = b.kind ∧ a.info = b.info ∧ a.text = b.text := by
  have hblank : ∀ {label : Label}, label.Legible → ' ' ∉ label.span.text := fun hlabel =>
    hlabel.span_notMem (by decide) (by decide) (by decide)
  have hword : ∀ kind : Node.Kind, ' ' ∉ kind.word := by
    intro kind
    cases kind <;> decide
  have hmark : ∀ {label : Label}, label.Legible → '"' ∉ label.info := fun hlabel hmem =>
    (hlabel.flat_info _ hmem).1 rfl
  rw [header_eq, header_eq] at h
  obtain ⟨hspan, h⟩ := Text.eq_of_split (hblank ha) (hblank hb) h
  obtain ⟨hkind, h⟩ := Text.eq_of_split (hword a.kind) (hword b.kind) h
  obtain ⟨hinfo, hbody⟩ := Text.eq_of_split (hmark ha) (hmark hb) h
  exact ⟨hspan, Node.Kind.word_injective hkind, hinfo,
    Text.quoted_injective (congrArg ('"' :: ·) hbody)⟩

/-- **All that a line shows can be read from it**, the depth of the node included. -/
theorem line_injective {s t : List Nat × Node} (hs : s.2.label.Legible) (ht : t.2.label.Legible)
    (h : Node.lineAt s = Node.lineAt t) : Node.entryAt s = Node.entryAt t := by
  obtain ⟨hdepth, hheader⟩ := Text.eq_of_replicate hs.head?_header ht.head?_header h
  obtain ⟨hspan, hkind, hinfo, htext⟩ := header_injective hs ht hheader
  have hdash : ∀ {here : Location}, here.Counted → '-' ∉ here.text := fun hcounted hmem =>
    (Location.isDigit_or_colon hcounted hmem).elim (by decide) (by decide)
  obtain ⟨hstart, hstop⟩ := Text.eq_of_split (hdash hs.start) (hdash ht.start) hspan
  obtain ⟨hstartLine, hstartColumn⟩ := Location.text_injective hs.start ht.start hstart
  obtain ⟨hstopLine, hstopColumn⟩ := Location.text_injective hs.stop ht.stop hstop
  have hoperator := operator_injective hs ht hkind hinfo
  have hlength : s.1.length = t.1.length := Nat.eq_of_mul_eq_mul_left (by decide) hdepth
  simp only [Node.entryAt, hlength, hkind, hstartLine, hstartColumn, hstopLine, hstopColumn,
    hoperator, htext]

end Label.Legible

/-! ## 3. The trees of texts -/

theorem Location.In.counted {here : Location} {source : Text} (h : here.In source) :
    here.Counted := by
  have hline := h.counts.line
  have hcolumn := h.counts.column
  exact ⟨by omega, by omega⟩

/-- Every operation has a name without quotation marks. -/
theorem Operator.flat_name {symbol name : Text} (h : names.lookup symbol = some name) :
    name.Flat := by
  have hall : ∀ entry ∈ names, Text.Flat entry.2 := by decide
  obtain ⟨before, behind, hnames, -⟩ := List.lookup_eq_some_iff.1 h
  exact hall (symbol, name) (hnames ▸ List.mem_append_right before List.mem_cons_self)

theorem Keyword.flat {name : Text} (h : name ∈ all) : name.Flat := by
  have hall : ∀ name ∈ all, Text.Flat name := by decide +kernel
  exact hall name h

theorem Node.Kind.flat_keyword {kind : Kind} {name : Text} (h : name ∈ kind.keywords) :
    name.Flat ∧ kind.showsOperator = true := by
  cases kind with
  | binaryFunction => exact ⟨Keyword.flat (List.mem_append_left _ h), rfl⟩
  | unaryFunction => exact ⟨Keyword.flat (List.mem_append_right _ h), rfl⟩
  | _ => exact absurd h List.not_mem_nil

/-- A well-formed node at locations of a text is legible. -/
theorem Node.WellFormed.legible {source : Text} {n : Node} (h : n.WellFormed)
    (hlocated : n.LocatedIn source) : n.label.Legible := by
  have hflat : ∀ {name : Text}, name.Flat → ∀ operator ∈ some name, operator.Flat := by
    rintro name hname operator hoperator
    exact Option.mem_some.1 hoperator ▸ hname
  have hunset : ∀ operator ∈ (none : Option Text), operator.Flat := fun _ hmem => by cases hmem
  refine ⟨hlocated.1.counted, hlocated.2.counted, ?_, ?_⟩
  · cases h with
    | number => rfl
    | signed => rfl
    | joined => rfl
    | applied _ hname => exact (Kind.flat_keyword hname).2.symm
    | list => rfl
    | empty => rfl
  · cases h with
    | number => exact hunset
    | signed _ _ hname => exact hflat (Operator.flat_name hname)
    | joined _ _ hname => exact hflat (Operator.flat_name hname)
    | applied _ hname => exact hflat (Kind.flat_keyword hname).1
    | list => exact hunset
    | empty => exact hunset

namespace Node

/-- What the lines of a tree show. -/
def entries (n : Node) : List Entry := n.sites.map entryAt

theorem forall_mem_sites {P : Node → Prop} {n : Node} (h : n.Throughout P) :
    ∀ site ∈ n.sites, P site.2 := by
  intro site hsite
  refine forall_mem_walk.2 h site.2 ?_
  rw [walk_eq_preorder, ← map_snd_sites]
  exact List.mem_map_of_mem hsite

/-- Equal lines of legible nodes show the same. -/
theorem map_entryAt {sites sites' : List (List Nat × Node)}
    (h : ∀ site ∈ sites, site.2.label.Legible) (h' : ∀ site ∈ sites', site.2.label.Legible)
    (hlines : sites.map lineAt = sites'.map lineAt) : sites.map entryAt = sites'.map entryAt := by
  induction sites generalizing sites' with
  | nil =>
      obtain rfl := List.map_eq_nil_iff.1 hlines.symm
      rfl
  | cons site sites ih =>
      cases sites' with
      | nil => cases hlines
      | cons site' sites' =>
          obtain ⟨hsite, hsites⟩ := List.forall_mem_cons.1 h
          obtain ⟨hsite', hsites'⟩ := List.forall_mem_cons.1 h'
          obtain ⟨hline, hlines⟩ := List.cons.inj hlines
          rw [List.map_cons, List.map_cons, hsite.line_injective hsite' hline,
            ih hsites hsites' hlines]

/-- **Legible trees with equal dumps show the same**, line by line. -/
theorem entries_of_dump {m n : Node} (hm : m.Throughout (·.label.Legible))
    (hn : n.Throughout (·.label.Legible)) (h : m.dump = n.dump) : m.entries = n.entries := by
  have hline : ∀ {n : Node}, n.Throughout (·.label.Legible) → n.dump.lines = n.sites.map lineAt :=
    fun hlegible => lines_dump_of_notMem fun site hsite =>
      (forall_mem_sites hlegible site hsite).notMem_header
  have hlines : m.sites.map lineAt = n.sites.map lineAt := by
    rw [← hline hm, ← hline hn, h]
  exact map_entryAt (forall_mem_sites hm) (forall_mem_sites hn) hlines

end Node

/-- **All that is read is legible.** -/
theorem exists_parse_legible (limit : NestingLimit) (source : Text) :
    ∃ p, parse ⟨limit, Dialect.standard⟩ source = .ok p ∧
      p.root.Throughout (·.label.Legible) := by
  obtain ⟨g, s', hreads, hparse⟩ := exists_parse limit source
  have hs := Session.inside_start source
  have hformed := Reading.item_wellFormed (fun _ _ _ => Reads.onward) (fun _ _ _ => Reads.covers)
    (Reads.forms limit.levels) hreads hs
  have hlocated : (g.node s'.source).Throughout (Node.LocatedIn source) :=
    Grouping.located_node (hreads.located hs (Session.located_start source))
  have hlegible : ∀ n ∈ (g.node s'.source).walk, n.label.Legible := fun n hn =>
    (Node.forall_mem_walk.2 hformed n hn).legible (Node.forall_mem_walk.2 hlocated n hn)
  exact ⟨_, hparse, Node.forall_mem_walk.1 hlegible⟩

/-- **A dump has one line for each node of a walk**, in the order of the walk: two blanks for each
    level of the depth of the node, which is the length of its place, and what is shown of it,
    whatever the texts of the nodes hold. A tree with the same dump, read from whatever text and
    with whatever limit, has the same depths, kinds, lines, columns, operators and texts, node by
    node. -/
theorem parse_dump (limit : NestingLimit) (source : Text) :
    ∃ p, parse ⟨limit, Dialect.standard⟩ source = .ok p ∧
      p.root.sites.map Prod.snd = p.root.walk ∧
      (∀ path node, (path, node) ∈ p.root.sites → p.root.nodeAt? path = some node) ∧
      p.root.dump.lines = p.root.sites.map (fun (path, node) =>
        List.replicate (2 * path.length) ' ' ++ node.label.header) ∧
      ∀ limit' source' p', parse ⟨limit', Dialect.standard⟩ source' = .ok p' →
        p'.root.dump = p.root.dump → p'.root.entries = p.root.entries := by
  obtain ⟨p, hparse, hlegible⟩ := exists_parse_legible limit source
  refine ⟨p, hparse, ?_, fun _ _ => Node.mem_sites.1, ?_, ?_⟩
  · rw [Node.walk_eq_preorder, Node.map_snd_sites]
  · exact Node.lines_dump_of_notMem fun site hsite =>
      (Node.forall_mem_sites hlegible site hsite).notMem_header
  · intro limit' source' p' hparse' hdump
    obtain ⟨q, hq, hlegible'⟩ := exists_parse_legible limit' source'
    obtain rfl : q = p' := Except.ok.inj (hq.symm.trans hparse')
    exact Node.entries_of_dump hlegible' hlegible hdump

end Reckoner
