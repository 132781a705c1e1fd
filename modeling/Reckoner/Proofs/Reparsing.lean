import Reckoner.Proofs.Cutoff
import Reckoner.Proofs.Excerpt
import Reckoner.Proofs.Operands
import Reckoner.Proofs.Spans

/-!
# Reading the text of a node again

* `Chain.Starts` -- a chain up to some operand; `Grouping.each_settle` -- what stands below a symbol
  that settles starts the chain in front of it, or stood there before;
* `Reading.Clips` -- an excerpt that ends with an operand is read as the chain up to that operand,
  `Reads.clips` -- which holds of all that is read;
* `Node.Reparses` -- the text of a node gives the node again;
* `Reads.reparses` -- so do all nodes that are read, `reparse_node` -- and all nodes of a tree.
-/

namespace Reckoner

/-! ## 1. Starts of chains -/

namespace Chain

variable {α β : Type}

/-- The last operand. -/
def last (c : Chain α) : α := (c.rest.getLast?.map (·.2)).getD c.first

/-- The first chain is the second one up to some operand. -/
def Starts (a c : Chain α) : Prop := a.first = c.first ∧ a.rest <+: c.rest

theorem last_append (a b : Chain α) (link : Link) : (a.append link b).last = b.last := by
  unfold last append
  rw [List.getLast?_append, List.getLast?_cons, Option.some_or]
  cases b.rest.getLast? <;> rfl

theorem last_cons (p : α) (link : Link) (c : Chain α) : (c.cons p link).last = c.last :=
  last_append (single p) c link

theorem map_cons (f : α → β) (p : α) (link : Link) (c : Chain α) :
    (c.cons p link).map f = (c.map f).cons (f p) link := rfl

theorem last_mem (c : Chain α) : c.last ∈ c.operands := by
  unfold last operands
  cases hlast : c.rest.getLast? with
  | none => exact List.mem_cons_self
  | some step => exact List.mem_cons_of_mem _ (List.mem_map_of_mem (List.mem_of_getLast? hlast))

theorem starts_refl (c : Chain α) : c.Starts c := ⟨rfl, List.prefix_rfl⟩

theorem Starts.trans {a b c : Chain α} (h : a.Starts b) (h' : b.Starts c) : a.Starts c :=
  ⟨h.1.trans h'.1, h.2.trans h'.2⟩

theorem starts_append (a b : Chain α) (link : Link) : a.Starts (a.append link b) :=
  ⟨rfl, List.prefix_append _ _⟩

theorem starts_single (c : Chain α) : (single c.first).Starts c := ⟨rfl, List.nil_prefix⟩

theorem Starts.operands_prefix {a c : Chain α} (h : a.Starts c) : a.operands <+: c.operands := by
  obtain ⟨hfirst, hrest⟩ := h
  unfold operands
  rw [hfirst]
  exact (List.prefix_cons_inj _).2 (hrest.map _)

/-- What starts a chain is its first operand, or goes on behind the first symbol. -/
theorem Starts.cases_cons {a c : Chain α} {p : α} {link : Link} (h : a.Starts (c.cons p link)) :
    a = single p ∨ ∃ b : Chain α, b.Starts c ∧ a = b.cons p link := by
  obtain ⟨first, rest⟩ := a
  obtain ⟨hfirst, hrest⟩ := h
  obtain rfl : first = p := hfirst
  cases rest with
  | nil => exact .inl rfl
  | cons step rest =>
      obtain ⟨hstep, hrest⟩ := List.cons_prefix_cons.1 hrest
      exact .inr ⟨⟨c.first, rest⟩, ⟨rfl, hrest⟩, by rw [hstep]; rfl⟩

end Chain

namespace Grouping

/-- The grouping and all that stands below it have a property. -/
def Each {α : Type} (P : Grouping α → Prop) : Grouping α → Prop
  | .operand p => P (.operand p)
  | .join link left right => P (.join link left right) ∧ left.Each P ∧ right.Each P

/-- Below a symbol that settles stands what starts the chain in front of it, or what stood there
    before. -/
theorem each_settle {α : Type} {P : Grouping α → Prop} {link : Link} {p : α} {g : Grouping α}
    (hg : g.Each P) (ho : g.Ordered)
    (h : ∀ g' : Grouping α, g'.Ordered → g'.chain.Starts (g.chain.cons p link) → P g') :
    (settle link (.operand p) g).Each P := by
  have hself : P (settle link (.operand p) g) :=
    h _ ho.settle (by rw [chain_settle]; exact Chain.starts_refl _)
  have hfirst : P (.operand p) := h _ trivial (Chain.starts_single (g.chain.cons p link))
  induction g with
  | operand q => exact ⟨hself, hfirst, hg⟩
  | join upper left right ihl _ =>
      unfold settle at hself ⊢
      split at hself
      · rename_i hrank
        rw [if_pos hrank]
        exact ⟨hself, hfirst, hg⟩
      · rename_i hrank
        rw [if_neg hrank]
        have hleft : ∀ g' : Grouping α, g'.Ordered → g'.chain.Starts (left.chain.cons p link) →
            P g' := fun g' ho' hstarts =>
          h g' ho' (hstarts.trans (Chain.starts_append (left.chain.cons p link) right.chain upper))
        refine ⟨hself, ihl hg.2.1 ho.2.2.1 hleft ?_, hg.2.2⟩
        exact hleft _ ho.2.2.1.settle (by rw [chain_settle]; exact Chain.starts_refl _)

/-- What holds of all trees in a grouping and below its operands holds throughout its tree. -/
theorem throughout_of_each {P : Node → Prop} {source : Text} {g : Grouping Node}
    (hg : g.Each fun g' => P (g'.node source))
    (hbelow : ∀ p ∈ g.chain.operands, ∀ child ∈ p.children, child.Throughout P) :
    (g.node source).Throughout P := by
  induction g with
  | operand p => exact .node hg (hbelow p List.mem_cons_self)
  | join link left right ihl ihr =>
      rw [chain, Chain.operands_append] at hbelow
      obtain ⟨hl, hr⟩ := List.forall_mem_append.1 hbelow
      refine .node hg.1 ?_
      simpa [node, Node.joined] using ⟨ihl hg.2.1 hl, ihr hg.2.2 hr⟩

/-- The tree of a grouping ends where its last operand does. -/
theorem stop_node (source : Text) (g : Grouping Node) :
    (g.node source).span.stop = g.chain.last.span.stop := by
  induction g with
  | operand p => rfl
  | join link left right _ ihr =>
      rw [chain, Chain.last_append, ← ihr]
      rfl

end Grouping

theorem Reads.ordered {levels : Nat} {s s' : Session} {g : Grouping Node}
    (h : Reads levels s g s') : g.Ordered := by
  induction levels generalizing s g s' with
  | zero =>
      obtain ⟨rfl, -⟩ := h
      trivial
  | succ levels ih =>
      obtain ⟨first, s₁, s₂, -, htail, -⟩ := h
      cases htail with
      | stop => trivial
      | link _ hright => exact (ih hright).settle

/-- Groupings that are ordered are the same if their chains are. -/
theorem Grouping.map_eq_of_chain {g h : Grouping Node} (hg : g.Ordered) (hh : h.Ordered)
    {f f' : Node → Node} (hchain : h.chain.map f = g.chain.map f') : h.map f = g.map f' := by
  refine (hh.map f).unique (hg.map f') ?_
  rw [chain_map, chain_map, hchain]

/-! ## 2. Excerpts that end with an operand -/

namespace Node

/-- No operand of an operator is left out. -/
def Supplied (n : Node) : Prop :=
  n.kind.IsOperator → ∀ child ∈ n.children, child.kind ≠ .expression

end Node

/-- Where no operand is left out no operand of a chain is either. -/
theorem Grouping.supplied_operands {source : Text} {g : Grouping Node}
    (hkind : (g.node source).kind ≠ .expression)
    (hsupplied : (g.node source).Throughout Node.Supplied) :
    ∀ p ∈ g.chain.operands, p.kind ≠ .expression ∧ p.Throughout Node.Supplied := by
  induction g with
  | operand p => exact List.forall_mem_singleton.2 ⟨hkind, hsupplied⟩
  | join link left right ihl ihr =>
      have hoperands := hsupplied.self (.inr rfl)
      have hbelow := hsupplied.children
      simp only [node, Node.joined, Node.children_mk, List.forall_mem_cons] at hoperands hbelow
      rw [chain, Chain.operands_append]
      exact List.forall_mem_append.2
        ⟨ihl hoperands.1 hbelow.1, ihr hoperands.2.1 hbelow.2.1⟩

/-- An operand ends behind the start of the reading. -/
theorem Session.Covers.start_le_stop {s s' : Session} {g : Grouping Node} (h : s.Covers g s')
    {p : Node} (hp : p ∈ g.chain.operands) : s.location.offset ≤ p.span.stop.offset :=
  Int.le_trans (h.laid.mem hp).1 (h.exact p hp).self.start_le_stop

namespace Reading

/-- An expression from its first character on. -/
def Whole (inner : Reading) : Reading := fun s g s' =>
  ∃ first s₁, inner.Primary s first s₁ ∧ inner.Tail s₁.pastBlanks first g s'

/-- The excerpt is read to its end, with the operands and symbols of a chain. Where no operand is
    left out it has no report if the whole text has none. -/
def Exhausts (inner : Reading) (before : Text) (t : Session) (c : Chain Node) (quiet : Prop) :
    Prop :=
  ∃ h t', inner t h t' ∧ t'.rest = [] ∧ t'.abandoned = false ∧
    h.chain.map (Node.relative 0) = c.map (Node.relative before.length) ∧
    (quiet → (∀ p ∈ c.operands, p.kind ≠ .expression ∧ p.Throughout Node.Supplied) →
      t'.reports = [])

theorem Exhausts.mono {inner : Reading} {before : Text} {t : Session} {c : Chain Node}
    {quiet quiet' : Prop} (h : inner.Exhausts before t c quiet') (hquiet : quiet → quiet') :
    inner.Exhausts before t c quiet := by
  obtain ⟨g, t', hreads, hrest, hnot, hchain, hreports⟩ := h
  exact ⟨g, t', hreads, hrest, hnot, hchain, fun hq => hreports (hquiet hq)⟩

/-- The same for an excerpt that is one operand. -/
def ExhaustsOperand (inner : Reading) (before : Text) (t : Session) (node : Node) (quiet : Prop) :
    Prop :=
  ∃ node' t', inner.Primary t node' t' ∧ t'.rest = [] ∧ t'.abandoned = false ∧
    node'.relative 0 = node.relative before.length ∧
    (quiet → node.kind ≠ .expression → node.Throughout Node.Supplied → t'.reports = [])

/-- An excerpt that ends with an operand is read as the chain up to that operand. -/
def Clips (inner : Reading) : Prop :=
  ∀ {before after : Text} {s t : Session} {g : Grouping Node} {s' : Session} {c : Chain Node},
    inner s g s' → s.Excerpt before after t → s'.abandoned = false → c.Starts g.chain →
      c.last.span.stop.offset = before.length + t.source.length →
        inner.Exhausts before t c (s'.reports = [])

section Clips

variable {levels : Nat} {before after : Text} {s s₁ s' t : Session}

/-- What ends where its reading does is read as it is in front of any other text. -/
theorem Primary.clipped_of_stop {node : Node} (h : (Reads levels).Primary s node s')
    (hx : s.Excerpt before after t) (hnot : s'.abandoned = false)
    (hend : node.span.stop.offset = before.length + t.source.length)
    (hstop : node.span.stop = s'.location) (hkind : node.kind ≠ .expression)
    (hsign : node.kind ≠ .prefixOp) :
    (Reads levels).ExhaustsOperand before t node (s'.reports = []) := by
  have hstretch : ∀ s g s', Reads levels s g s' → s.Stretch s' := fun _ _ _ => Reads.stretch
  have honward := Session.Stretch.onward (h.stretch hstretch) hx.inside
  rw [hstop] at hend
  obtain ⟨node', t', hprimary, hx', hnode⟩ := h.carried hstretch (Reads.carried levels) hx hnot
    (hx.suffix_of_le honward (Int.le_of_eq hend)) (by simp [hkind, hsign])
  have hsource := (Session.Stretch.onward (hprimary.stretch hstretch) hx.inside').source
  exact ⟨node', t', hprimary, hx'.rest_eq_nil_of_offset (hsource ▸ hend), hx'.abandoned', hnode,
    fun hquiet _ _ => hx'.silent hquiet⟩

/-- An operand at the end of an excerpt. One that is left out is left out there too, whatever stood
    behind it. -/
theorem Primary.clipped {node : Node} (h : (Reads levels).Primary s node s')
    (hclips : (Reads levels).Clips) (hx : s.Excerpt before after t) (hnot : s'.abandoned = false)
    (hend : node.span.stop.offset = before.length + t.source.length) :
    (Reads levels).ExhaustsOperand before t node (s'.reports = []) := by
  have hself := h.clipped_of_stop hx hnot hend
  cases h with
  | exhausted hrest =>
      exact ⟨_, _, .exhausted (hx.rest_eq_nil hrest), hx.rest_eq_nil hrest, hx.abandoned',
        (hx.note .invalidExpression).relative_closed (hx.relative_opened .expression) rfl,
        fun _ hkind => absurd rfl hkind⟩
  | invalid hrest hnone =>
      have hoffset : s.location.offset + 1 = before.length + t.source.length := hend
      have hlength := hx.inside'.offset_add_length
      have hstart := hx.offset
      obtain ⟨c, hc⟩ : ∃ c, t.rest = [c] := List.length_eq_one_iff.1 (by omega)
      have hword : t.rest ∉ Keyword.all := by
        have hall : ∀ k ∈ Keyword.all, 2 ≤ k.length := by decide
        intro hmem
        have hle := hall _ hmem
        simp [hc] at hle
      have hx' := (hx.note .invalidExpression).past (n := 1) (by simp [hc])
      refine ⟨_, _, .invalid (by simp [hc]) (fun kind hkind => ?_),
        Session.rest_past_one (s := t.note .invalidExpression) hx.inside' hc, hx.abandoned',
        hx'.relative_closed (hx.relative_opened .expression) rfl, fun _ hkind => absurd rfl hkind⟩
      exact Token.Kind.match?_eq_none_cut (hx.rest ▸ hnone kind hkind) fun hmem => absurd hmem hword
  | number =>
      exact hself rfl (show Node.Kind.number ≠ .expression by simp)
        (show Node.Kind.number ≠ .prefixOp by simp)
  | list hparen =>
      have hkind : node.kind = .paren := by
        cases hparen
        rfl
      exact hself hparen.stop (by simp [hkind]) (by simp [hkind])
  | placeholder =>
      have hrest := hx.rest_eq_nil_of_offset hend
      exact ⟨_, _, .exhausted hrest, hrest, hx.abandoned',
        hx.relative_closed (hx.relative_opened .expression) rfl, fun _ hkind => absurd rfl hkind⟩
  | @prefixed _ sign r g hrest hsign hoperand =>
      have h₁ := Session.onward_past_one hx.inside (by simp [hrest])
      have hlast : g.chain.last.span.stop.offset = before.length + t.source.length := by
        rw [← Grouping.stop_node]
        exact hend
      have hle := (hoperand.covers h₁.inside).start_le_stop g.chain.last_mem
      have hpast := Session.rest_past_one hx.inside hrest
      obtain ⟨u, hu, -, hx₁⟩ := hx.past_one hrest (hpast ▸ hx.suffix_of_le h₁ (hlast ▸ hle))
      obtain ⟨h, t', hoperand', hrest', hnot', hchain, hquiet⟩ :=
        hclips hoperand hx₁ hnot (Chain.starts_refl _) hlast
      have hg := Grouping.map_eq_of_chain hoperand.ordered hoperand'.ordered hchain
      refine ⟨_, t', .prefixed hu hsign hoperand', hrest', hnot',
        hx.relative_prefixed _ _ (relative_node_eq hg _ _),
        fun hreports _ hsupplied => hquiet hreports ?_⟩
      exact Grouping.supplied_operands (hsupplied.self (.inl rfl) _ List.mem_cons_self)
        (hsupplied.children _ List.mem_cons_self)
  | @call _ kind x _ _ _ hgiven =>
      have hkind := Rule.functionKind_ne ⟨kind, x, s.location⟩
      exact hself hgiven.stop hkind.1 hkind.2

/-- An operand with a symbol behind it, which keeps it apart from the cut. -/
theorem Primary.carried_linked {node : Node} (h : (Reads levels).Primary s node s₁)
    (hx : s.Excerpt before after t) (hnot : s₁.abandoned = false) {link : Link}
    (hnext : Link.next? s₁.pastBlanks.rest = some link)
    (hafter : after <:+ (s₁.pastBlanks.past link.symbol.length).rest) :
    ∃ node' t₁, (Reads levels).Primary t node' t₁ ∧ Link.next? t₁.pastBlanks.rest = some link ∧
      (s₁.pastBlanks.past link.symbol.length).Excerpt before after
        (t₁.pastBlanks.past link.symbol.length) ∧
      node'.relative 0 = node.relative before.length := by
  have hstretch : ∀ s g s', Reads levels s g s' → s.Stretch s' := fun _ _ _ => Reads.stretch
  have h₁ := Session.Stretch.onward (h.stretch hstretch) hx.inside
  have h₂ := h₁.pastBlanks
  obtain ⟨r, hr⟩ := Link.symbol_prefix_of_next? hnext
  rw [Session.rest_past_append h₂.inside hr.symm] at hafter
  have hsealed : Text.Sealed after s₁.pastBlanks.rest := by
    obtain ⟨c, x, hc⟩ := List.exists_cons_of_ne_nil link.solid.1
    have hbreak : c ∈ Text.breaks := link.breaks r c (by simp [hc])
    refine Text.sealed_of_cons hbreak ?_ (hafter.trans (List.suffix_append x r))
    rw [← hr, hc]
    exact List.suffix_rfl
  have hsealed₁ := hsealed.mono (Session.onward_pastBlanks h₁.inside).rest
  obtain ⟨node', t₁, hprimary, hx₁, hnode⟩ := h.carried hstretch (Reads.carried levels) hx hnot
    hsealed₁.suffix fun _ => hsealed₁
  have hx₂ := hx₁.pastBlanks hsealed.suffix
  obtain ⟨u, hu, -, hx₃⟩ := hx₂.past_lexeme hr.symm hafter
  have hnext' : Link.next? t₁.pastBlanks.rest = some link :=
    Link.next?_cut (hx₂.rest ▸ hnext) (by rw [hu, List.length_append]; omega)
  exact ⟨node', t₁, hprimary, hnext', hx₃, hnode⟩

/-- An operand at the end of an excerpt is all there is to be read. -/
theorem Primary.exhausts {node : Node} (h : (Reads levels).Primary s node s')
    (hclips : (Reads levels).Clips) (hx : s.Excerpt before after t) (hnot : s'.abandoned = false)
    (hend : node.span.stop.offset = before.length + t.source.length) :
    (Reads levels).Whole.Exhausts before t (.single node) (s'.reports = []) := by
  obtain ⟨node', t', hprimary, hrest, hnot', hnode, hquiet⟩ := h.clipped hclips hx hnot hend
  have hinside := (Session.Stretch.onward
    (hprimary.stretch fun _ _ _ => Reads.stretch) hx.inside').inside
  refine ⟨.operand node', t', ⟨node', t', hprimary, ?_⟩, hrest, hnot', ?_, fun hreports hall => ?_⟩
  · rw [Session.pastBlanks_eq_self hinside hrest]
    exact .stop (hrest ▸ rfl)
  · simp [Grouping.chain, Chain.single, Chain.map, hnode]
  · obtain ⟨hkind, hsupplied⟩ := hall node List.mem_cons_self
    exact hquiet hreports hkind hsupplied

theorem Whole.covers {g : Grouping Node} (h : (Reads levels).Whole s g s') (hs : s.Inside) :
    s.Covers g s' := by
  obtain ⟨first, s₁, hprimary, htail⟩ := h
  have honward : ∀ s g s', Reads levels s g s' → s.Inside → s.Onward s' :=
    fun _ _ _ => Reads.onward
  have hinner : ∀ s g s', Reads levels s g s' → s.Inside → s.Covers g s' :=
    fun _ _ _ => Reads.covers
  have h₁ := hprimary.onward honward hs
  exact htail.covers hinner ((hprimary.spans honward hinner hs).pastBlanks h₁) h₁.pastBlanks

theorem Whole.clips (hclips : (Reads levels).Clips) : (Reads levels).Whole.Clips := by
  rintro before after s t g s' c ⟨first, s₁, hprimary, htail⟩ hx hnot hstarts hend
  have hstretch : ∀ s g s', Reads levels s g s' → s.Stretch s' := fun _ _ _ => Reads.stretch
  have h₁ := Session.Stretch.onward (hprimary.stretch hstretch) hx.inside
  have h₂ := h₁.pastBlanks
  have hlater := htail.stretch hstretch
  have hnot₁ : s₁.pastBlanks.abandoned = false := Session.Stretch.abandoned hlater hnot
  have hreports := (Session.Stretch.onward hlater h₂.inside).reports
  have hquiet₁ : s'.reports = [] → s₁.reports = [] := fun hnone =>
    List.prefix_nil.1 (hnone ▸ hreports)
  have hfirst : c = .single first → (Reads levels).Whole.Exhausts before t c (s'.reports = []) := by
    rintro rfl
    exact (hprimary.exhausts hclips hx hnot₁ hend).mono hquiet₁
  cases htail with
  | stop =>
      refine hfirst ?_
      obtain ⟨hstart, hrest⟩ := hstarts
      exact Chain.ext hstart (List.prefix_nil.1 hrest)
  | @link _ _ link g₂ hnext hright =>
      rw [Grouping.chain_settle] at hstarts
      rcases hstarts.cases_cons with rfl | ⟨d, hd, rfl⟩
      · exact hfirst rfl
      · have h₃ := Session.onward_past_prefix h₂.inside (Link.symbol_prefix_of_next? hnext)
        rw [Chain.last_cons] at hend
        have hle := (hright.covers h₃.inside).start_le_stop (hd.operands_prefix.subset d.last_mem)
        obtain ⟨first', t₁, hprimary', hnext', hx₂, hnode⟩ := hprimary.carried_linked hx hnot₁ hnext
          (hx.suffix_of_le (h₂.trans h₃) (hend ▸ hle))
        have hsource : t₁.pastBlanks.source = t.source :=
          (Session.Stretch.onward (hprimary'.stretch hstretch) hx.inside').pastBlanks.source
        obtain ⟨h, t', hright', hrest', hnot', hchain, hquiet⟩ :=
          hclips hright hx₂ hnot hd (hsource ▸ hend)
        refine ⟨_, t', ⟨first', t₁, hprimary', .link hnext' hright'⟩, hrest', hnot', ?_,
          fun hnone hall => hquiet hnone fun p hp => hall p (List.mem_cons_of_mem _ hp)⟩
        rw [Grouping.chain_settle, Chain.map_cons, Chain.map_cons, hnode, hchain]

end Clips

end Reading

/-- **An excerpt that ends with an operand is read as the chain up to that operand**, at places
    counted from its start. -/
theorem Reads.clips (levels : Nat) : (Reads levels).Clips := by
  induction levels with
  | zero =>
      rintro before after s t g s' c ⟨-, rfl⟩ - hnot
      simp at hnot
  | succ levels ih =>
      rintro before after s t g s' c ⟨first, s₁, s₂, hprimary, htail, rfl⟩ hx hnot hstarts hend
      have hwhole : (Reads levels).Whole s.entered g s₂ := ⟨first, s₁, hprimary, htail⟩
      have h₁ := Session.onward_entered hx.inside
      have hlast := hstarts.operands_prefix.subset c.last_mem
      have hle := (hwhole.covers h₁.inside).start_le_stop hlast
      have hsource : t.entered.source = t.source := (Session.onward_entered hx.inside').source
      obtain ⟨h, t', ⟨first', t₁, hprimary', htail'⟩, hrest, hnot', hchain, hquiet⟩ :=
        Reading.Whole.clips ih hwhole (hx.entered (hx.suffix_of_le h₁ (hend ▸ hle))) hnot hstarts
          (hsource ▸ hend)
      exact ⟨h, t'.leave, ⟨first', t₁, t', hprimary', htail', rfl⟩, hrest, hnot', hchain, hquiet⟩

/-! ## 3. Nodes that are read again -/

/-- The text of the node is read as the node again, at places counted from its start, and is not
    given up. Where no operand is left out there is no report if the whole text has none. -/
def Node.Reparses (limit : NestingLimit) (quiet : Prop) (n : Node) : Prop :=
  n.kind ≠ .expression → ∃ q, parse ⟨limit, Dialect.standard⟩ n.text = .ok q ∧
    (∀ r ∈ q.reports, r.problem ≠ .nestedTooDeeply) ∧
    q.root.relative 0 = n.relative n.span.start.offset ∧
    (quiet → n.Throughout Node.Supplied → q.reports = [])

namespace Session

/-- The text of a node that starts here is an excerpt that starts here. -/
theorem exists_excerpt {s : Session} {n : Node} (hs : s.Inside) (hnot : s.abandoned = false)
    (hhead : ∀ c ∈ s.rest.head?, Cursor.isBlank c = false) (hexact : n.Exact s.source)
    (hstart : n.span.start = s.location) :
    ∃ before after : Text, (before.length : Int) = n.span.start.offset ∧
      s.Excerpt before after (start n.text).entered ∧
        n.span.stop.offset = before.length + n.text.length := by
  obtain ⟨a, ha⟩ := Int.eq_ofNat_of_zero_le hexact.start_nonneg
  obtain ⟨b, hb⟩ := Int.eq_ofNat_of_zero_le
    (Int.le_trans hexact.start_nonneg hexact.start_le_stop)
  have hle : a ≤ b := by
    have := hexact.start_le_stop
    omega
  have hlength : b ≤ s.source.length := by
    have := hexact.stop_le_length
    omega
  have htext : n.text = (s.source.drop a).take (b - a) := by
    rw [hexact.text, ha, hb]
    exact Text.slice_natCast s.source a b
  have hsource : s.source = s.source.take a ++ (n.text ++ s.source.drop b) := by
    have hbehind : s.source.drop b = (s.source.drop a).drop (b - a) := by
      rw [List.drop_drop, Nat.add_sub_cancel' hle]
    rw [htext, hbehind, List.take_append_drop, List.take_append_drop]
  have hbefore : (s.source.take a).length = a := List.length_take_of_le (Nat.le_trans hle hlength)
  have hx : s.Excerpt (s.source.take a) (s.source.drop b) (start n.text).begin.enter := by
    refine ⟨hs, inside_start n.text, hsource, ?_, hnot, rfl, fun _ => rfl⟩
    rw [← hstart, ha, hbefore]
    exact (Int.add_zero _).symm
  have hentered : (start n.text).entered = (start n.text).begin.enter := by
    refine pastBlanks_eq_self_of_head (inside_start n.text) fun c hc => hhead c ?_
    rw [hx.rest, List.head?_append, Option.mem_def.1 hc]
    rfl
  refine ⟨_, _, ?_, hentered ▸ hx, ?_⟩
  · rw [hbefore, ha]
  · rw [hbefore, hb, htext, List.length_take, List.length_drop]
    show (b : Int) = _
    omega

end Session

section Reparses

variable {levels : Nat} {limit : NestingLimit} {quiet : Prop} {s s₁ s' : Session}

/-- A grouping whose tree can be read off an excerpt that ends with its last operand. -/
theorem Grouping.reparses {g : Grouping Node} (hle : levels + 1 ≤ limit.levels) (ho : g.Ordered)
    (hs : s.Inside) (hnot : s.abandoned = false)
    (hhead : ∀ c ∈ s.rest.head?, Cursor.isBlank c = false)
    (hexact : (g.node s.source).Exact s.source) (hstart : g.chain.first.span.start = s.location)
    (hexhausts : ∀ {before after : Text} {t : Session}, s.Excerpt before after t →
      g.chain.last.span.stop.offset = before.length + t.source.length →
        (Reads levels).Whole.Exhausts before t g.chain quiet) :
    (g.node s.source).Reparses limit quiet := by
  intro hkind
  obtain ⟨before, after, hbefore, hx, hend⟩ :=
    Session.exists_excerpt hs hnot hhead hexact ((g.start_node s.source).trans hstart)
  have hstop : g.chain.last.span.stop.offset =
      before.length + (Session.start (g.node s.source).text).entered.source.length := by
    rw [← g.stop_node s.source, hend,
      (Session.onward_entered (Session.inside_start (g.node s.source).text)).source]
    rfl
  obtain ⟨h, t', ⟨first, t₁, hprimary, htail⟩, hrest, hnot', hchain, hquiet⟩ :=
    hexhausts hx hstop
  have hreads : Reads (levels + 1) (Session.start (g.node s.source).text) h t'.leave :=
    ⟨first, t₁, t', hprimary, htail, rfl⟩
  have hfinished : t'.leave.finished = t'.leave :=
    Session.finished_of_rest (hreads.onward (Session.inside_start _)).inside hrest
  refine ⟨_, hreads.parse_eq hnot' hle, ?_, ?_, fun hQ hsupplied => ?_⟩
  · show ∀ r ∈ t'.leave.finished.reports, _
    rw [hfinished]
    exact (hreads.untroubled hnot').reports
  · rw [← hbefore]
    exact Reading.relative_node_eq (Grouping.map_eq_of_chain ho hreads.ordered hchain) _ _
  · show t'.leave.finished.reports = []
    rw [hfinished]
    exact hquiet hQ (Grouping.supplied_operands hkind hsupplied)

/-- The text has not been given up, and has no report where none is expected. -/
structure Session.Sound (quiet : Prop) (s : Session) : Prop where
  abandoned : s.abandoned = false
  reports : quiet → s.reports = []

theorem Session.Sound.of_stretch (h : s'.Sound quiet) (hs : s.Inside) (h' : s.Stretch s') :
    s.Sound quiet :=
  ⟨Session.Stretch.abandoned h' h.abandoned, fun hquiet =>
    List.prefix_nil.1 (h.reports hquiet ▸ (Session.Stretch.onward h' hs).reports)⟩

namespace Reading

theorem Primary.start {inner : Reading} {node : Node} (h : inner.Primary s node s') :
    node.span.start = s.location := by
  cases h with
  | list hparen =>
      cases hparen
      rfl
  | _ => rfl

theorem Whole.start {inner : Reading} {g : Grouping Node} (h : inner.Whole s g s') :
    g.chain.first.span.start = s.location := by
  obtain ⟨first, s₁, hprimary, htail⟩ := h
  cases htail with
  | stop => exact hprimary.start
  | link => rw [Grouping.chain_settle]; exact hprimary.start

theorem Whole.stretch {inner : Reading} {g : Grouping Node} (h : inner.Whole s g s')
    (hstretch : ∀ s g s', inner s g s' → s.Stretch s') : s.Stretch s' := by
  obtain ⟨first, s₁, hprimary, htail⟩ := h
  exact ((hprimary.stretch hstretch).tail (.pastBlanks s₁)).trans (htail.stretch hstretch)

/-- An operand is read again from its text. -/
theorem Primary.reparses {node : Node} (h : (Reads levels).Primary s node s')
    (hle : levels + 1 ≤ limit.levels) (hs : s.Inside)
    (hhead : ∀ c ∈ s.rest.head?, Cursor.isBlank c = false) (hsound : s'.Sound quiet) :
    node.Reparses limit quiet := by
  have hnot := hsound.of_stretch hs (h.stretch fun _ _ _ => Reads.stretch)
  have hspans := h.spans (fun _ _ _ => Reads.onward)
    (fun _ _ _ hreads hs => hreads.covers hs) hs
  refine Grouping.reparses (g := .operand node) hle trivial hs hnot.abandoned hhead
    hspans.exact.self h.start fun hx hend => ?_
  exact (h.exhausts (Reads.clips levels) hx hsound.abandoned hend).mono hsound.reports

/-- What starts the chain of an expression is read again from the text of its tree. -/
theorem Whole.reparses_of_starts {g g' : Grouping Node} (h : (Reads levels).Whole s g s')
    (hle : levels + 1 ≤ limit.levels) (hs : s.Inside)
    (hhead : ∀ c ∈ s.rest.head?, Cursor.isBlank c = false) (hsound : s'.Sound quiet)
    (ho : g'.Ordered) (hstarts : g'.chain.Starts g.chain) :
    (g'.node s.source).Reparses limit quiet := by
  obtain ⟨hexact, hlaid, -, -⟩ := h.covers hs
  obtain ⟨others, hothers⟩ := hstarts.operands_prefix
  obtain ⟨mid, hlaid', -⟩ := (hothers ▸ hlaid).exists_append
  have hexact' := (Grouping.exact_node
    (fun p hp => hexact p (hstarts.operands_prefix.subset hp)) hlaid').1.self
  have hnot := hsound.of_stretch hs (h.stretch fun _ _ _ => Reads.stretch)
  refine Grouping.reparses hle ho hs hnot.abandoned hhead hexact' (hstarts.1 ▸ h.start)
    fun hx hend => ?_
  exact (Whole.clips (Reads.clips levels) h hx hsound.abandoned hstarts hend).mono hsound.reports

variable (hinner : ∀ s g s', Reads levels s g s' → s.Inside → s'.Sound quiet →
    (g.node s'.source).Throughout (Node.Reparses limit quiet))

include hinner

/-- An item and what follows it in a list. -/
theorem items_reparses_cons {g : Grouping Node} {s₂ : Session} {nodes : List Node}
    (hitem : Reads levels s g s₁) (hs : s.Inside) (h₂ : s₁.Stretch s₂) (h' : s₂.Stretch s')
    (hsound : s'.Sound quiet)
    (ih : s₂.Inside → ∀ n ∈ nodes, n.Throughout (Node.Reparses limit quiet)) :
    ∀ n ∈ g.node s₁.source :: nodes, n.Throughout (Node.Reparses limit quiet) := by
  have h₁ := hitem.onward hs
  have hnext := Session.Stretch.onward h₂ h₁.inside
  have hsound₁ := (hsound.of_stretch hnext.inside h').of_stretch h₁.inside h₂
  exact List.forall_mem_cons.2 ⟨hinner _ _ _ hitem hs hsound₁, ih hnext.inside⟩

theorem Items.reparses {nodes : List Node} (h : (Reads levels).Items s nodes s') (hs : s.Inside)
    (hsound : s'.Sound quiet) : ∀ n ∈ nodes, n.Throughout (Node.Reparses limit quiet) := by
  have hstretch : ∀ s g s', Reads levels s g s' → s.Stretch s' := fun _ _ _ => Reads.stretch
  induction h with
  | givenUp => exact List.forall_mem_nil _
  | unclosed => exact List.forall_mem_nil _
  | comma _ hitem hnext hitems ih =>
      exact items_reparses_cons hinner hitem hs
        (.head (.pastBlanks _) (.head (.past_one hnext) (.single (.pastBlanks _))))
        (hitems.stretch hstretch) hsound fun hin => ih hin hsound
  | closed _ hitem hnext =>
      exact items_reparses_cons hinner hitem hs
        (.head (.pastBlanks _) (.single (.past_one hnext))) .refl hsound
        fun _ => List.forall_mem_nil _
  | junk _ hitem hnext _ _ hitems ih =>
      exact items_reparses_cons hinner hitem hs
        (.head (.pastBlanks _) (.head (.misplaced hnext) (.single (.past_one hnext))))
        (hitems.stretch hstretch) hsound fun hin => ih hin hsound
  | ended _ hitem _ hitems ih =>
      exact items_reparses_cons hinner hitem hs (.single (.pastBlanks _))
        (hitems.stretch hstretch) hsound fun hin => ih hin hsound

theorem Paren.reparses {node : Node} (h : (Reads levels).Paren s node s') (hs : s.Inside)
    (hsound : s'.Sound quiet) :
    ∀ child ∈ node.children, child.Throughout (Node.Reparses limit quiet) := by
  obtain ⟨hrest, hitems⟩ := h
  have h₁ := (Session.onward_past_one hs (by simp [hrest])).pastBlanks
  exact hitems.reparses hinner h₁.inside hsound

/-- All that hangs below an operand is read again from its text. -/
theorem Primary.reparses_below {node : Node} (h : (Reads levels).Primary s node s')
    (hle : levels + 1 ≤ limit.levels) (hs : s.Inside) (hsound : s'.Sound quiet) :
    ∀ child ∈ node.children, child.Throughout (Node.Reparses limit quiet) := by
  cases h with
  | list hparen => exact hparen.reparses hinner hs hsound
  | prefixed hrest _ hoperand =>
      have h₁ := Session.onward_past_one hs (by simp [hrest])
      exact List.forall_mem_singleton.2 (hinner _ _ _ hoperand h₁.inside hsound)
  | call _ hmatch hgiven =>
      have h₁ := (Session.onward_past_prefix hs (Token.Kind.prefix_of_match? hmatch)).pastBlanks
      refine List.forall_mem_singleton.2 ?_
      cases hgiven with
      | given hparen =>
          have hparen' := hparen
          obtain ⟨hrest, -⟩ := hparen'
          refine .node ?_ (hparen.reparses hinner h₁.inside hsound)
          exact (Primary.list hparen).reparses hle h₁.inside (by simp [hrest]; decide) hsound
      | missing => exact .node (fun hkind => absurd rfl hkind) (List.forall_mem_nil _)
  | _ => exact List.forall_mem_nil _

end Reading

/-- **All that is read is read again from its text.** -/
theorem Reads.reparses {g : Grouping Node} (h : Reads levels s g s') (hle : levels ≤ limit.levels)
    (hs : s.Inside) (hsound : s'.Sound quiet) :
    (g.Each fun g' => (g'.node s.source).Reparses limit quiet) ∧
      ∀ p ∈ g.chain.operands, ∀ child ∈ p.children,
        child.Throughout (Node.Reparses limit quiet) := by
  induction levels generalizing s g s' with
  | zero =>
      obtain ⟨-, rfl⟩ := h
      exact absurd hsound.abandoned (by simp)
  | succ levels ih =>
      obtain ⟨first, s₁, s₂, hprimary, htail, rfl⟩ := h
      have hsound₂ : s₂.Sound quiet := ⟨hsound.abandoned, hsound.reports⟩
      have hstretch : ∀ s g s', Reads levels s g s' → s.Stretch s' := fun _ _ _ => Reads.stretch
      have hinner : ∀ s g s', Reads levels s g s' → s.Inside → s'.Sound quiet →
          (g.node s'.source).Throughout (Node.Reparses limit quiet) := by
        intro s g s' hreads hs hsound
        obtain ⟨heach, hbelow⟩ := ih hreads (Nat.le_of_succ_le hle) hs hsound
        rw [(hreads.onward hs).source]
        exact Grouping.throughout_of_each heach hbelow
      have h₁ := Session.onward_entered hs
      have hbehind := Session.Stretch.onward (hprimary.stretch hstretch) h₁.inside
      have h₂ := hbehind.pastBlanks
      have hlater : s₁.Stretch s₂ := .head (.pastBlanks s₁) (htail.stretch hstretch)
      have hsound₁ := hsound₂.of_stretch hbehind.inside hlater
      have hhead : ∀ c ∈ s.entered.rest.head?, Cursor.isBlank c = false := by
        rw [Session.rest_entered hs]
        exact s.rest.head?_behindBlanks
      have hwhole : (Reads levels).Whole s.entered g s₂ := ⟨first, s₁, hprimary, htail⟩
      have hstarting : ∀ g' : Grouping Node, g'.Ordered → g'.chain.Starts g.chain →
          (g'.node s.source).Reparses limit quiet := by
        intro g' ho hstarts
        rw [← h₁.source]
        exact hwhole.reparses_of_starts hle h₁.inside hhead hsound₂ ho hstarts
      have hbelow := hprimary.reparses_below hinner hle h₁.inside hsound₁
      cases htail with
      | stop =>
          exact ⟨hstarting _ trivial (Chain.starts_refl _), List.forall_mem_singleton.2 hbelow⟩
      | @link _ _ link g₂ hnext hright =>
          have h₃ := Session.onward_past_prefix h₂.inside (Link.symbol_prefix_of_next? hnext)
          obtain ⟨heach, hothers⟩ := ih hright (Nat.le_of_succ_le hle) h₃.inside hsound₂
          rw [h₃.source, h₂.source, h₁.source] at heach
          rw [Grouping.chain_settle] at hstarting ⊢
          exact ⟨Grouping.each_settle heach hright.ordered hstarting,
            List.forall_mem_cons.2 ⟨hbelow, hothers⟩⟩

end Reparses

/-- **Reading the text of a node again gives the node again.** In the tree of a text that is not
    nested too deeply, whatever other problems it has, every node that is not left empty has a text
    that is not nested too deeply either. With the same limit it gives a tree with the same kinds,
    operators, symbols, numbers and children at the same places, counted from the start of the node.
    If the whole text has no report and no operand in the node is left out, its text has no
    report. -/
theorem reparse_node (limit : NestingLimit) (source : Text) {p : Parse}
    (hparse : parse ⟨limit, Dialect.standard⟩ source = .ok p)
    (hdepth : ∀ r ∈ p.reports, r.problem ≠ .nestedTooDeeply) {n : Node} (hn : n ∈ p.root.walk)
    (hkind : n.kind ≠ .expression) :
    ∃ q, parse ⟨limit, Dialect.standard⟩ n.text = .ok q ∧
      (∀ r ∈ q.reports, r.problem ≠ .nestedTooDeeply) ∧
      q.root.relative 0 = n.relative n.span.start.offset ∧
      (p.hasErrors = false → (∀ m ∈ n.walk, m.Supplied) → q.hasErrors = false) := by
  obtain ⟨g, s', hreads, hresult⟩ := exists_parse limit source
  obtain rfl := Except.ok.inj (hresult.symm.trans hparse)
  have hs := Session.inside_start source
  have hreports : s'.reports <+: s'.finished.reports := Session.reports_finished s'
  have hsound : s'.Sound (s'.finished.reports = []) := by
    refine ⟨?_, fun hnone => List.prefix_nil.1 (hnone ▸ hreports)⟩
    cases hmark : s'.abandoned with
    | false => rfl
    | true =>
        obtain ⟨-, earlier, here, hlast, -⟩ := hreads.cutShort hmark (Nat.le_refl _) hresult
        have hmem : ⟨.nestedTooDeeply, here⟩ ∈ s'.reports := by simp [hlast]
        exact absurd rfl (hdepth _ (hreports.subset hmem))
  obtain ⟨heach, hbelow⟩ := hreads.reparses (Nat.le_refl _) hs hsound
  have hall : (g.node s'.source).Throughout (Node.Reparses limit (s'.finished.reports = [])) := by
    rw [(hreads.onward hs).source]
    exact Grouping.throughout_of_each heach hbelow
  obtain ⟨q, hq, hdepth', hshape, hquiet⟩ := Node.forall_mem_walk.2 hall n hn hkind
  refine ⟨q, hq, hdepth', hshape, fun hsilent hsupplied => ?_⟩
  have hnone : s'.finished.reports = [] := by
    simpa [Parse.hasErrors, Parse.reports] using hsilent
  simp [Parse.hasErrors, hquiet hnone (Node.forall_mem_walk.1 hsupplied)]

/-- The difference is no operand of the text, and the function in it has no list. -/
theorem reparse_node_sample : ∃ p n q,
    parse Settings.standard "1-2*sin+4".toList = .ok p ∧ n ∈ p.root.walk ∧
      n.text = "1-2*sin".toList ∧ parse Settings.standard n.text = .ok q ∧
        q.root.relative 0 = n.relative n.span.start.offset := by
  have hsample : (parse Settings.standard "1-2*sin+4".toList).toOption.map
      (fun p => (p.reports.all (·.problem ≠ .nestedTooDeeply),
        p.root.children.map fun n => (n.kind, n.text))) =
      some (true, [(.infixOp, "1-2*sin".toList), (.number, "4".toList)]) := by decide +kernel
  obtain ⟨g, s', -, hparse⟩ := exists_parse NestingLimit.standard "1-2*sin+4".toList
  generalize (⟨g.node s'.source, s'.finished⟩ : Parse) = p at hparse
  change parse Settings.standard _ = _ at hparse
  rw [hparse] at hsample
  simp only [Except.toOption, Option.map_some, Option.some.injEq, Prod.mk.injEq] at hsample
  obtain ⟨hdepth, hchildren⟩ := hsample
  obtain ⟨n, others, hroot, hn, -⟩ := List.map_eq_cons_iff.1 hchildren
  obtain ⟨hkind, htext⟩ := Prod.mk.inj hn
  have hwalk : n ∈ p.root.walk :=
    ((Node.forall_mem_walk.1 fun _ => id).children n (by simp [hroot])).self
  obtain ⟨q, hq, -, hshape, -⟩ := reparse_node NestingLimit.standard _ hparse
    (by simpa using hdepth) hwalk (by simp [hkind])
  exact ⟨p, n, q, hparse, hwalk, htext, hq, hshape⟩

end Reckoner
