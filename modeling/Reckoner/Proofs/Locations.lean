import Reckoner.Proofs.Stretch
import Reckoner.Proofs.Throughout

/-!
# Lines and columns

A cursor counts lines and columns while it moves. Wherever reading takes it, the counts are those of
the text in front of it, and so are the ones of every node and of every report.

* `Location.Counts` -- the line and the column of a location, told by the text in front of it;
* `Location.In` -- a location of a text: its offset lies in the text and its counts are right;
* `Step.located`, `Stretch.located` -- a session keeps to locations of its text;
* `Reads.located` -- so the nodes that are read start and end at locations of the text;
* `parse_located` -- and with them all nodes of a tree and all reports.
-/

namespace Reckoner

/-! ## 1. Counting -/

namespace Location

/-- The line counts the line feeds in front of a place, the column the characters behind the last of
    them. -/
structure Counts (before : Text) (here : Location) : Prop where
  line : here.line = 1 + before.count '\n'
  column : here.column = 1 + (before.reverse.takeWhile (· ≠ '\n')).length

theorem Counts.pass {before : Text} {here : Location} (h : here.Counts before) (c : Char) :
    (here.pass c).Counts (before ++ [c]) := by
  have hline := h.line
  have hcolumn := h.column
  unfold Location.pass
  split
  · rename_i hc
    subst hc
    refine ⟨?_, ?_⟩
    · rw [List.count_append, List.count_singleton_self]
      simp only [hline]
      omega
    · rw [List.reverse_append, List.reverse_singleton, List.singleton_append,
        List.takeWhile_cons_of_neg (by simp)]
      rfl
  · rename_i hc
    refine ⟨?_, ?_⟩
    · rw [List.count_append, List.count_singleton, if_neg (by simpa using hc)]
      exact hline
    · rw [List.reverse_append, List.reverse_singleton, List.singleton_append,
        List.takeWhile_cons_of_pos (by simpa using hc), List.length_cons]
      simp only [hcolumn]
      omega

/-- Passing some more characters keeps the counts right. -/
theorem Counts.foldl {before : Text} {here : Location} (h : here.Counts before) (passed : Text) :
    (passed.foldl Location.pass here).Counts (before ++ passed) := by
  induction passed generalizing before here with
  | nil => simpa using h
  | cons c passed ih =>
      rw [List.append_cons]
      exact ih (h.pass c)

/-- A location of a text. -/
structure In (here : Location) (source : Text) : Prop where
  nonneg : 0 ≤ here.offset
  le_length : here.offset ≤ source.length
  counts : here.Counts (source.take here.offset.toNat)

theorem origin_in (source : Text) : origin.In source :=
  ⟨Int.le_refl 0, Int.natCast_nonneg _, by simp [origin], by simp [origin]⟩

end Location

namespace Cursor

variable {c : Cursor}

/-- A cursor that moves inside its text comes to a location of the text. -/
theorem location_in_move (hc : c.Inside) (h : c.location.In c.source) {n : Nat}
    (hn : n ≤ c.remaining.length) : (c.move n).location.In c.source := by
  obtain ⟨k, hk, hle, hrest⟩ := hc.exists_offset
  rw [hrest, List.length_drop] at hn
  have hoffset : (c.move n).location.offset = ((k + n : Nat) : Int) := by
    rw [move_offset, hk, Int.natCast_add]
  have hcounts := h.counts
  rw [hk, Int.toNat_natCast] at hcounts
  have hpassed := hcounts.foldl (c.peek n)
  refine ⟨by omega, by omega, ?_⟩
  rw [hoffset, Int.toNat_natCast, List.take_add]
  rw [hc.peek_eq, hrest] at hpassed
  refine ⟨?_, ?_⟩
  · rw [← hpassed.line, ← hrest, ← hc.peek_eq]
    rfl
  · rw [← hpassed.column, ← hrest, ← hc.peek_eq]
    rfl

theorem location_in_skipAtMost (bound : Nat) (hc : c.Inside) (h : c.location.In c.source) :
    (skipAtMost bound c).location.In c.source := by
  induction bound generalizing c with
  | zero => exact h
  | succ bound ih =>
      unfold skipAtMost
      rw [hc.current?_eq]
      cases hrest : c.remaining with
      | nil => exact h
      | cons here rest =>
          have hone : 1 ≤ c.remaining.length := by simp [hrest]
          by_cases hblank : isBlank here = true
          · simp only [List.head?_cons, hblank, if_true]
            exact ih (c := c.move (1 : Nat)) (hc.move hone).1 (location_in_move hc h hone)
          · simp only [List.head?_cons, hblank]
            exact h

end Cursor

/-! ## 2. Sessions -/

namespace Session

/-- The session stands at a location of its text, and so does each of its reports. -/
structure Located (s : Session) : Prop where
  here : s.location.In s.source
  reports : ∀ r ∈ s.reports, r.location.In s.source

variable {s s₁ s' : Session}

theorem located_start (source : Text) : (start source).Located :=
  ⟨Location.origin_in source, by simp [start]⟩

theorem Located.note (h : s.Located) (problem : Problem) : (s.note problem).Located :=
  ⟨h.here, forall_mem_note h.reports h.here⟩

theorem Located.past (h : s.Located) (hs : s.Inside) {n : Nat} (hn : n ≤ s.rest.length) :
    (s.past n).Located :=
  ⟨Cursor.location_in_move hs h.here hn, h.reports⟩

theorem Located.pastBlanks (h : s.Located) (hs : s.Inside) : s.pastBlanks.Located := by
  have hsource : s.pastBlanks.source = s.source := (onward_pastBlanks hs).source
  refine ⟨?_, ?_⟩
  · rw [hsource]
    exact Cursor.location_in_skipAtMost _ hs h.here
  · rw [hsource]
    exact h.reports

/-- **A session keeps to locations of its text** in every step. -/
theorem Step.located (h : Step s s') (hs : s.Inside) (hlocated : s.Located) : s'.Located := by
  cases h with
  | past hn => exact hlocated.past hs hn
  | pastBlanks => exact hlocated.pastBlanks hs
  | invalidExpression => exact hlocated.note _
  | invalidInList => exact hlocated.note _
  | begin => exact ⟨hlocated.here, hlocated.reports⟩
  | enter => exact ⟨hlocated.here, hlocated.reports⟩
  | leave => exact ⟨hlocated.here, hlocated.reports⟩
  | abandon =>
      unfold Session.abandon
      split
      · exact Located.past (s := s.giveUp) ⟨hlocated.here, hlocated.reports⟩ hs (Nat.le_refl _)
      · have hnoted := hlocated.note .nestedTooDeeply
        exact Located.past (s := (s.note .nestedTooDeeply).giveUp)
          ⟨hnoted.here, hnoted.reports⟩ hs (Nat.le_refl _)

theorem Stretch.located (h : s.Stretch s') (hs : s.Inside) (hlocated : s.Located) :
    s'.Located := by
  induction h with
  | refl => exact hlocated
  | tail hstretch hstep ih => exact hstep.located (Stretch.onward hstretch hs).inside ih

end Session

/-! ## 3. Nodes -/

/-- The node starts and ends at locations of the text. -/
def Node.LocatedIn (source : Text) (n : Node) : Prop :=
  n.span.start.In source ∧ n.span.stop.In source

/-- An infix node starts and ends where operands do. -/
theorem Grouping.located_node {source text : Text} {g : Grouping Node}
    (h : ∀ p ∈ g.chain.operands, p.Throughout (Node.LocatedIn source)) :
    (g.node text).Throughout (Node.LocatedIn source) := by
  induction g with
  | operand p => exact h p List.mem_cons_self
  | join link left right ihl ihr =>
      simp only [chain, Chain.operands_append] at h
      obtain ⟨hl, hr⟩ := List.forall_mem_append.1 h
      have hleft := ihl hl
      have hright := ihr hr
      exact .node ⟨hleft.self.1, hright.self.2⟩ (by simp [node, Node.joined, hleft, hright])

namespace Session

variable {s s' : Session} {label : Label}

theorem located_closed {children : List Node} (h : s.Onward s') (hs : s.Located)
    (hs' : s'.Located) (hstart : label.span.start = s.location)
    (hchildren : ∀ child ∈ children, child.Throughout (Node.LocatedIn s.source)) :
    (s'.closed label children).Throughout (Node.LocatedIn s.source) := by
  refine .node ⟨?_, ?_⟩ hchildren
  · show label.span.start.In s.source
    rw [hstart]
    exact hs.here
  · show s'.location.In s.source
    rw [← h.source]
    exact hs'.here

theorem located_closedAlong {child : Node} (hs : s.Located)
    (hstart : label.span.start = s.location)
    (hchild : child.Throughout (Node.LocatedIn s.source)) :
    (s'.closedAlong label [child] child).Throughout (Node.LocatedIn s.source) := by
  refine .node ⟨?_, hchild.self.2⟩ (List.forall_mem_singleton.2 hchild)
  show label.span.start.In s.source
  rw [hstart]
  exact hs.here

end Session

namespace Reading

variable {inner : Reading} {s s' : Session}
  (hstretch : ∀ s g s', inner s g s' → s.Stretch s')
  (hinner : ∀ s g s', inner s g s' → s.Inside → s.Located →
    ∀ p ∈ g.chain.operands, p.Throughout (Node.LocatedIn s.source))

include hstretch hinner

/-- An item and what follows it in a list. -/
theorem items_located_cons {g : Grouping Node} {s₁ t : Session} {nodes : List Node}
    (hitem : inner s g s₁) (hs : s.Inside) (hlocated : s.Located) (h₁ : s₁.Stretch t)
    (ih : t.Inside → t.Located → ∀ n ∈ nodes, n.Throughout (Node.LocatedIn t.source)) :
    ∀ n ∈ g.node s₁.source :: nodes, n.Throughout (Node.LocatedIn s.source) := by
  have h := (hstretch _ _ _ hitem).trans h₁
  have ht := Session.Stretch.onward h hs
  have hothers := ih ht.inside (Session.Stretch.located h hs hlocated)
  rw [ht.source] at hothers
  exact List.forall_mem_cons.2 ⟨Grouping.located_node (hinner _ _ _ hitem hs hlocated), hothers⟩

theorem Items.located {nodes : List Node} (h : inner.Items s nodes s') (hs : s.Inside)
    (hlocated : s.Located) : ∀ n ∈ nodes, n.Throughout (Node.LocatedIn s.source) := by
  induction h with
  | givenUp => simp
  | unclosed => simp
  | comma _ hitem hnext _ ih =>
      refine items_located_cons hstretch hinner hitem hs hlocated ?_ ih
      exact .head (.pastBlanks _) (.head (.past_one hnext) (.single (.pastBlanks _)))
  | closed _ hitem hnext =>
      exact items_located_cons hstretch hinner hitem hs hlocated .refl (by simp)
  | junk _ hitem hnext _ _ _ ih =>
      refine items_located_cons hstretch hinner hitem hs hlocated ?_ ih
      exact .head (.pastBlanks _) (.head (.misplaced hnext) (.single (.past_one hnext)))
  | ended _ hitem _ _ ih =>
      exact items_located_cons hstretch hinner hitem hs hlocated (.single (.pastBlanks _)) ih

theorem Paren.located {node : Node} (h : inner.Paren s node s') (hs : s.Inside)
    (hlocated : s.Located) : node.Throughout (Node.LocatedIn s.source) := by
  have hall := h.stretch hstretch
  obtain ⟨hrest, hitems⟩ := h
  have hopened : s.Stretch (s.past 1).pastBlanks :=
    .head (.past_one hrest) (.single (.pastBlanks _))
  have h₁ := Session.Stretch.onward hopened hs
  have hchildren := hitems.located hstretch hinner h₁.inside
    (Session.Stretch.located hopened hs hlocated)
  rw [h₁.source] at hchildren
  exact Session.located_closed (Session.Stretch.onward hall hs) hlocated
    (Session.Stretch.located hall hs hlocated) rfl hchildren

theorem Arguments.located {node : Node} (h : inner.Arguments s node s') (hs : s.Inside)
    (hlocated : s.Located) : node.Throughout (Node.LocatedIn s.source) := by
  cases h with
  | given hparen => exact hparen.located hstretch hinner hs hlocated
  | missing =>
      exact Session.located_closed (Session.onward_note hs _) hlocated (hlocated.note _) rfl
        (by simp)

theorem Primary.located {node : Node} (h : inner.Primary s node s') (hs : s.Inside)
    (hlocated : s.Located) : node.Throughout (Node.LocatedIn s.source) := by
  have hall := h.stretch hstretch
  have honward := Session.Stretch.onward hall hs
  have hlocated' := Session.Stretch.located hall hs hlocated
  cases h with
  | exhausted => exact Session.located_closed honward hlocated hlocated' rfl (by simp)
  | invalid => exact Session.located_closed honward hlocated hlocated' rfl (by simp)
  | number => exact Session.located_closed honward hlocated hlocated' rfl (by simp)
  | list hparen => exact hparen.located hstretch hinner hs hlocated
  | placeholder => exact Session.located_closed honward hlocated hlocated' rfl (by simp)
  | prefixed hrest _ hoperand =>
      have h₁ := Session.onward_past_one hs (by simp [hrest])
      have hoperands := hinner _ _ _ hoperand h₁.inside (hlocated.past hs (by simp [hrest]))
      rw [h₁.source] at hoperands
      exact Session.located_closedAlong hlocated rfl (Grouping.located_node hoperands)
  | call _ hmatch hgiven =>
      have hpre := Token.Kind.prefix_of_match? hmatch
      have h₁ := Session.onward_past_prefix hs hpre
      have hnamed := (hlocated.past hs hpre.length_le).pastBlanks h₁.inside
      have hnode := hgiven.located hstretch hinner h₁.pastBlanks.inside hnamed
      rw [h₁.pastBlanks.source] at hnode
      exact Session.located_closedAlong hlocated rfl hnode

omit hstretch in
theorem Tail.located {first : Node} {g : Grouping Node} {s₁ : Session}
    (h : inner.Tail s₁ first g s') (hs₁ : s₁.Inside) (hlocated : s₁.Located)
    (hfirst : first.Throughout (Node.LocatedIn s₁.source)) :
    ∀ p ∈ g.chain.operands, p.Throughout (Node.LocatedIn s₁.source) := by
  cases h with
  | stop => exact List.forall_mem_singleton.2 hfirst
  | link hnext hright =>
      have hpre := Link.symbol_prefix_of_next? hnext
      have h₁ := Session.onward_past_prefix hs₁ hpre
      have hothers := hinner _ _ _ hright h₁.inside (hlocated.past hs₁ hpre.length_le)
      rw [h₁.source] at hothers
      rw [Grouping.chain_settle]
      exact List.forall_mem_cons.2 ⟨hfirst, hothers⟩

end Reading

/-- **What is read starts and ends at locations of the text**, and so does all that hangs below. -/
theorem Reads.located {levels : Nat} {s s' : Session} {g : Grouping Node}
    (h : Reads levels s g s') (hs : s.Inside) (hlocated : s.Located) :
    ∀ p ∈ g.chain.operands, p.Throughout (Node.LocatedIn s.source) := by
  induction levels generalizing s g s' with
  | zero =>
      obtain ⟨rfl, rfl⟩ := h
      have hbegin : s.begin.Located := ⟨hlocated.here, hlocated.reports⟩
      have habandon := (Session.Step.abandon s.begin).located hs hbegin
      have honward := (Session.onward_begin hs).trans (Session.onward_abandon (s := s.begin) hs)
      exact List.forall_mem_singleton.2
        (Session.located_closed honward hlocated habandon rfl (by simp))
  | succ levels ih =>
      obtain ⟨first, s₁, s₂, hprimary, htail, rfl⟩ := h
      have hstretch : ∀ s g s', Reads levels s g s' → s.Stretch s' := fun _ _ _ => Reads.stretch
      have hinner : ∀ s g s', Reads levels s g s' → s.Inside → s.Located →
          ∀ p ∈ g.chain.operands, p.Throughout (Node.LocatedIn s.source) := fun _ _ _ => ih
      have hentered : s.Stretch s.entered := Session.stretch_entered s
      have h₁ := Session.Stretch.onward hentered hs
      have hfirst := hprimary.located hstretch hinner h₁.inside
        (Session.Stretch.located hentered hs hlocated)
      have hbehind : s.Stretch s₁.pastBlanks :=
        (hentered.trans (hprimary.stretch hstretch)).tail (.pastBlanks _)
      have h₂ := Session.Stretch.onward hbehind hs
      rw [h₁.source, ← h₂.source] at hfirst
      rw [← h₂.source]
      exact htail.located hinner h₂.inside (Session.Stretch.located hbehind hs hlocated) hfirst

/-! ## 4. Texts -/

theorem Session.Located.finished {s : Session} (h : s.Located) (hs : s.Inside) :
    s.finished.Located := by
  have hblanks := h.pastBlanks hs
  unfold Session.finished
  split
  · exact hblanks
  · exact hblanks.note _

/-- **Every position that is told of a text is one of its locations**: the offset lies in the text,
    the line counts the line feeds in front of it and the column the characters since the last of
    them. So it is for both ends of every node, whatever was regrouped, and for every report. -/
theorem parse_located (limit : NestingLimit) (source : Text) :
    ∃ p, parse ⟨limit, Dialect.standard⟩ source = .ok p ∧
      (∀ node ∈ p.root.walk, node.span.start.In source ∧ node.span.stop.In source) ∧
      ∀ r ∈ p.reports, r.location.In source := by
  obtain ⟨g, s', hreads, hparse⟩ := exists_parse limit source
  have hs := Session.inside_start source
  have hstart := Session.located_start source
  have honward := hreads.onward hs
  have hlocated := hreads.stretch.located hs hstart
  have hfinished := hlocated.finished honward.inside
  have hsource : s'.finished.source = source := honward.finished.source
  refine ⟨_, hparse, ?_, ?_⟩
  · exact Node.forall_mem_walk.2 (Grouping.located_node (hreads.located hs hstart))
  · intro r hr
    rw [← hsource]
    exact hfinished.reports r hr

end Reckoner
