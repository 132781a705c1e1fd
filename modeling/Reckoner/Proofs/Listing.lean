import Reckoner.Proofs.Composition
import Reckoner.Proofs.Cutoff

/-!
# Lists and their separators

Inside a list anything may stand where a comma should, a closing parenthesis may be taken for a
malformed item, and the text may end anywhere. Every character of a list is accounted for all the
same, and so is every report on lists.

* `Text.following`, `Text.strays`, `Text.closes` -- what follows an item, where the characters stand
  that separate the items of a list but are no commas, and whether the list is closed;
* `Listing` -- how the text of a list is put together from those of its items;
* `Session.Tallied` -- the reports on lists that a stretch of reading adds: one for each of these
  characters, and one at the end of the text for each list that is not closed;
* `Session.Item` -- an item between two sessions; what may follow it leaves the rest of the list to
  be accounted for: `Item.cons`, `Item.closed`, `Item.ended`;
* `Reads.accounts` -- the lists of an expression are put together like that and add these reports;
* `parse_listing` -- so do those of every text.
-/

namespace Reckoner

/-! ## 1. The layout of a list -/

namespace Text

/-- What follows a node behind the blanks. -/
def following (source : Text) (n : Node) : Text :=
  Text.behindBlanks (source.drop n.span.stop.offset.toNat)

/-- Where the character behind an item stands if it separates without being a comma. -/
def stray? (source : Text) (n : Node) : Option Int :=
  match source.following n with
  | [] => none
  | c :: after =>
      if c = ',' ∨ c = ')' then none else some ((source.length : Int) - (c :: after).length)

/-- Where the characters stand that separate the items of a list without being commas. -/
def strays (source : Text) (items : List Node) : List Int := items.filterMap source.stray?

/-- A closing parenthesis follows the last item. -/
def closes (source : Text) : List Node → Bool
  | [] => false
  | [last] => (source.following last).head? = some ')'
  | _ :: rest => closes source rest

variable {source : Text} {n : Node} {items : List Node}

theorem closes_cons (h : (source.following n).head? ≠ some ')') :
    source.closes (n :: items) = source.closes items := by
  cases items with
  | nil => simp [closes, h]
  | cons next rest => rfl

theorem strays_cons (source : Text) (n : Node) (items : List Node) :
    source.strays (n :: items) = (source.stray? n).toList ++ source.strays items := by
  rw [strays, List.filterMap_cons]
  cases source.stray? n <;> rfl

end Text

/-- A stretch of the text from a place on holds a node and apart from it only blanks. -/
def Node.Alone (lo : Int) (n : Node) (t : Text) : Prop :=
  ∃ before behind, before.Blank ∧ behind.Blank ∧ t = before ++ n.text ++ behind ∧
    n.span.start.offset = lo + before.length

/-- The inside of a list from a place on: its items, where characters stand between them that are no
    commas, whether it is closed, and its text. -/
inductive Listing (source : Text) : Int → List Node → List Int → Bool → Text → Prop where
  /-- Only blanks are left of the whole text. -/
  | unclosed {lo : Int} {t : Text} (hblank : t.Blank) (hend : lo + t.length = source.length) :
      Listing source lo [] [] false t
  /-- The whole text ends behind an item. -/
  | ended {lo : Int} {n : Node} {t : Text} (hitem : n.Alone lo t)
      (hend : lo + t.length = source.length) : Listing source lo [n] [] false t
  /-- A closing parenthesis follows the last item. -/
  | closed {lo : Int} {n : Node} {t : Text} (hitem : n.Alone lo t) :
      Listing source lo [n] [] true (t ++ [')'])
  /-- A comma follows an item. -/
  | comma {lo : Int} {n : Node} {items : List Node} {strays : List Int} {closed : Bool}
      {t inside : Text} (hitem : n.Alone lo t)
      (h : Listing source (lo + t.length + 1) items strays closed inside) :
      Listing source lo (n :: items) strays closed (t ++ ',' :: inside)
  /-- Something else follows an item. -/
  | stray {lo : Int} {n : Node} {items : List Node} {strays : List Int} {closed : Bool}
      {t inside : Text} {c : Char} (hitem : n.Alone lo t) (hblank : Cursor.isBlank c = false)
      (hcomma : c ≠ ',') (hclose : c ≠ ')')
      (h : Listing source (lo + t.length + 1) items strays closed inside) :
      Listing source lo (n :: items) ((lo + t.length) :: strays) closed (t ++ c :: inside)

theorem Node.Alone.blank_append {n : Node} {lo hi : Int} {w t : Text} (h : n.Alone hi t)
    (hw : w.Blank) (hlo : lo + w.length = hi) : n.Alone lo (w ++ t) := by
  obtain ⟨before, behind, hbefore, hbehind, rfl, hstart⟩ := h
  refine ⟨w ++ before, behind, hw.append hbefore, hbehind, by simp, ?_⟩
  rw [hstart, ← hlo, List.length_append]
  omega

/-- Blanks in front of what stands in a list belong to it. -/
theorem Listing.blank_append {source w t : Text} {lo hi : Int} {items : List Node}
    {strays : List Int} {closed : Bool} (h : Listing source hi items strays closed t)
    (hw : w.Blank) (hlo : lo + w.length = hi) : Listing source lo items strays closed (w ++ t) := by
  have hlength : ∀ t : Text, lo + (w ++ t).length = hi + t.length := fun t => by
    rw [List.length_append]
    omega
  cases h with
  | unclosed hblank hend => exact .unclosed (hw.append hblank) ((hlength _).trans hend)
  | ended hitem hend => exact .ended (hitem.blank_append hw hlo) ((hlength _).trans hend)
  | closed hitem =>
      rw [← List.append_assoc]
      exact .closed (hitem.blank_append hw hlo)
  | comma hitem h =>
      rw [← List.append_assoc]
      exact .comma (hitem.blank_append hw hlo) (by rwa [hlength])
  | stray hitem hblank hcomma hclose h =>
      rw [← List.append_assoc, ← hlength]
      exact .stray (hitem.blank_append hw hlo) hblank hcomma hclose (by rwa [hlength])

/-- A list is put together from a parenthesis, its items and what stands between them. -/
def Node.Listed (source : Text) (n : Node) : Prop :=
  n.kind = .paren → ∃ inside, n.text = '(' :: inside ∧
    Listing source (n.span.start.offset + 1) n.children (source.strays n.children)
      (source.closes n.children) inside

/-- A stretch has as many characters as there are between its places. -/
theorem Text.length_slice {source : Text} {a b : Int} (ha : 0 ≤ a) (hab : a ≤ b)
    (hb : b ≤ source.length) : ((source.slice a b).length : Int) = b - a := by
  obtain ⟨m, rfl⟩ := Int.eq_ofNat_of_zero_le ha
  obtain ⟨n, rfl⟩ := Int.eq_ofNat_of_zero_le (Int.le_trans ha hab)
  rw [slice_natCast, List.length_take, List.length_drop]
  omega

theorem Text.slice_self (source : Text) {a : Int} (ha : 0 ≤ a) : source.slice a a = [] := by
  obtain ⟨m, rfl⟩ := Int.eq_ofNat_of_zero_le ha
  rw [slice_natCast, Nat.sub_self, List.take_zero]

/-! ## 2. The lists of a tree -/

namespace Node

/-- The lists in some trees. -/
def lists (nodes : List Node) : List Node := (drain nodes).filter (·.kind = .paren)

theorem lists_append (a b : List Node) : lists (a ++ b) = lists a ++ lists b := by
  rw [lists, drain_append, List.filter_append]
  rfl

theorem lists_cons (n : Node) (rest : List Node) : lists (n :: rest) = lists [n] ++ lists rest :=
  lists_append [n] rest

/-- A node that is no list has the lists of its children. -/
theorem lists_mk {label : Label} {children : List Node} (h : label.kind ≠ .paren) :
    lists [mk label children] = lists children := by
  have hlabel : (mk label children).kind ≠ .paren := h
  rw [lists, ← walk, walk_mk, List.filter_cons_of_neg (by simpa using hlabel)]
  rfl

theorem lists_mk_paren {label : Label} {children : List Node} (h : label.kind = .paren) :
    lists [mk label children] = mk label children :: lists children := by
  have hlabel : (mk label children).kind = .paren := h
  rw [lists, ← walk, walk_mk, List.filter_cons_of_pos (by simpa using hlabel)]
  rfl

theorem lists_nil : lists [] = [] := by
  rw [lists, drain]
  rfl

end Node

/-- Regrouping moves no list in front of another one. -/
theorem Grouping.lists_node (source : Text) (g : Grouping Node) :
    Node.lists [g.node source] = Node.lists g.chain.operands := by
  induction g with
  | operand p => rfl
  | join link left right ihl ihr =>
      have hjoined : (Label.joined source link (left.node source).span.start
          (right.node source).span.stop).kind ≠ .paren := by
        simp [Label.joined, Label.refresh, Label.plain]
      rw [node, Node.joined, Node.lists_mk hjoined, Node.lists_cons, ihl, ihr, chain,
        Chain.operands_append, Node.lists_append]

namespace Text

/-- Where characters that are no commas separate the items of the lists in some trees. -/
def strayed (source : Text) (nodes : List Node) : List Int :=
  (Node.lists nodes).flatMap fun n => source.strays n.children

/-- How many of the lists in some trees are not closed. -/
def unclosed (source : Text) (nodes : List Node) : Nat :=
  (Node.lists nodes).countP fun n => !source.closes n.children

variable {source : Text}

theorem strayed_append (source : Text) (a b : List Node) :
    source.strayed (a ++ b) = source.strayed a ++ source.strayed b := by
  rw [strayed, Node.lists_append, List.flatMap_append]
  rfl

theorem unclosed_append (source : Text) (a b : List Node) :
    source.unclosed (a ++ b) = source.unclosed a + source.unclosed b := by
  rw [unclosed, Node.lists_append, List.countP_append]
  rfl

theorem strayed_paren {label : Label} {children : List Node} (h : label.kind = .paren) :
    source.strayed [.mk label children] = source.strays children ++ source.strayed children := by
  rw [strayed, Node.lists_mk_paren h, List.flatMap_cons]
  rfl

theorem unclosed_paren {label : Label} {children : List Node} (h : label.kind = .paren) :
    source.unclosed [.mk label children] =
      (if source.closes children then 0 else 1) + source.unclosed children := by
  rw [unclosed, Node.lists_mk_paren h, List.countP_cons, Nat.add_comm, Node.children_mk]
  cases source.closes children <;> rfl

end Text

/-! ## 3. Reports on lists -/

namespace Session

/-- Where something was reported in a list so far. -/
def misplaced (s : Session) : List Int :=
  (s.reports.filter (·.problem = .invalidInList)).map (·.location.offset)

/-- The end of the text, once for each list that it leaves open, unless it was given up. -/
def ends (s : Session) (count : Nat) : List Int :=
  if s.abandoned then [] else List.replicate count (s.source.length : Int)

variable {s s₁ s' : Session}

theorem misplaced_note (s : Session) :
    (s.note .invalidInList).misplaced = s.misplaced ++ [s.location.offset] := by
  simp [misplaced, note]

theorem misplaced_note_of_ne (s : Session) {problem : Problem} (h : problem ≠ .invalidInList) :
    (s.note problem).misplaced = s.misplaced := by
  simp [misplaced, note, h]

theorem misplaced_abandon (s : Session) : s.abandon.misplaced = s.misplaced := by
  rw [misplaced, reports_abandon]
  split
  · rfl
  · exact s.misplaced_note_of_ne (by simp)

theorem misplaced_finished (s : Session) : s.finished.misplaced = s.misplaced := by
  unfold finished
  split
  · rfl
  · exact s.pastBlanks.misplaced_note_of_ne (by simp)

/-- Between two sessions a report was added for each character at some places, and one at the end of
    the text for each of some lists, which the text leaves open. -/
structure Tallied (s : Session) (places : List Int) (count : Nat) (s' : Session) : Prop where
  reports : s'.misplaced.Perm (s.misplaced ++ places ++ s'.ends count)
  rest : 0 < count → s'.rest = []

theorem ends_zero (s : Session) : s.ends 0 = [] := by
  unfold ends
  split <;> rfl

/-- Nothing is reported. -/
theorem tallied_of_eq (h : s'.misplaced = s.misplaced) : s.Tallied [] 0 s' :=
  ⟨by rw [h, ends_zero, List.append_nil, List.append_nil], fun hpos => absurd hpos (by simp)⟩

/-- Two stretches one behind the other: where the first one reaches the end of the text, the second
    one does not give it up. -/
theorem Tallied.trans {places places' : List Int} {count count' : Nat}
    (h : s.Tallied places count s₁) (h' : s₁.Tallied places' count' s')
    (hsource : s'.source = s₁.source)
    (hend : s₁.rest = [] → s'.rest = [] ∧ s'.abandoned = s₁.abandoned) :
    s.Tallied (places ++ places') (count + count') s' := by
  -- a list that is left open has the rest of the text in it, so the mark does not change behind it
  have hends : s₁.ends count ++ s'.ends count' = s'.ends (count + count') := by
    rcases Nat.eq_zero_or_pos count with rfl | hpos
    · rw [ends_zero, Nat.zero_add, List.nil_append]
    · rw [ends, ends, ends, (hend (h.rest hpos)).2, hsource]
      split
      · rfl
      · rw [List.replicate_append_replicate]
  refine ⟨?_, fun hpos => ?_⟩
  · calc List.Perm s'.misplaced (s₁.misplaced ++ places' ++ s'.ends count') := h'.reports
      List.Perm _ (s.misplaced ++ places ++ s₁.ends count ++ places' ++ s'.ends count') :=
        (h.reports.append_right _).append_right _
      List.Perm _ (s.misplaced ++ (places ++ places') ++ s'.ends (count + count')) := by
        rw [← hends]
        simp only [List.append_assoc]
        exact ((List.perm_append_comm_assoc _ _ _).append_left _).append_left _
  · rcases Nat.eq_zero_or_pos count with rfl | hpos'
    · exact h'.rest (by rwa [Nat.zero_add] at hpos)
    · exact (hend (h.rest hpos')).1

/-! ## 4. Items and what follows them -/

theorem Inside.offset_nonneg (hs : s.Inside) : 0 ≤ s.location.offset := hs.1

/-- As many characters are passed as stand between two sessions. -/
theorem Onward.length_slice (h : s.Onward s') (hs : s.Inside) :
    ((s.source.slice s.location.offset s'.location.offset).length : Int) =
      s'.location.offset - s.location.offset :=
  Text.length_slice hs.1 (h.offset_le hs) (h.source ▸ h.inside.2)

/-- What is passed by one stretch of reading after the other. -/
theorem Onward.slice_append (h : s.Onward s₁) (h' : s₁.Onward s') (hs : s.Inside) :
    s.source.slice s.location.offset s'.location.offset =
      s.source.slice s.location.offset s₁.location.offset ++
        s.source.slice s₁.location.offset s'.location.offset :=
  (Text.slice_append _ hs.1 (h.offset_le hs) (h'.offset_le h.inside)).symm

/-- What is passed from a character on starts with it. -/
theorem slice_past_one (hs : s.Inside) {c : Char} {after : Text} (hrest : s.rest = c :: after)
    (h : (s.past 1).Onward s') : s.source.slice s.location.offset s'.location.offset =
      c :: s.source.slice (s.past 1).location.offset s'.location.offset :=
  slice_lexeme (x := [c]) hs hrest
    (h.offset_le (onward_past_one hs (by simp [hrest])).inside)

/-- A node with blanks around it fills the place between two sessions. -/
theorem Spans.alone {n : Node} (h : s.Spans n s') (hs : s.Inside) (hs' : s.Onward s') :
    n.Alone s.location.offset (s.source.slice s.location.offset s'.location.offset) := by
  obtain ⟨hstart, hle, hstop⟩ := h.laid
  have hlo : 0 ≤ s.location.offset := hs.1
  have hnonneg := h.exact.self.start_nonneg
  have htext := h.exact.self.text
  refine ⟨_, _, h.before.slice hlo hnonneg, h.behind.slice (Int.le_trans hnonneg hle) hs'.inside.1,
    ?_, ?_⟩
  · rw [htext, Text.slice_append _ hlo hstart hle,
      Text.slice_append _ hlo (Int.le_trans hstart hle) hstop]
  · have hend := Int.le_trans hle h.exact.self.stop_le_length
    rw [Text.length_slice hlo hstart hend]
    omega

/-- Behind the blanks that follow a node reading goes on. -/
theorem Spans.following {n : Node} (h : s.Spans n s₁) (hs : s.Onward s₁) :
    s.source.following n = s₁.pastBlanks.rest := by
  obtain ⟨k, hk, -, hrest⟩ := Cursor.Inside.exists_offset hs.inside
  have hnonneg := Int.le_trans h.exact.self.start_nonneg h.exact.self.start_le_stop
  obtain ⟨m, hm⟩ := Int.eq_ofNat_of_zero_le hnonneg
  have hlocation : s₁.location.offset = k := hk
  have hle : n.span.stop.offset ≤ s₁.location.offset := h.laid.2.2
  have hblank := h.behind.slice hnonneg hs.inside.1
  rw [hm, hlocation, Text.slice_natCast] at hblank
  have hrest' : s₁.rest = s.source.drop k := by
    rw [← hs.source]
    exact hrest
  have hmk : m + (k - m) = k := by omega
  have hsplit : s.source.drop m = (s.source.drop m).take (k - m) ++ s₁.rest := by
    rw [hrest', ← hmk, ← List.drop_drop, hmk, List.take_append_drop]
  rw [rest_pastBlanks hs.inside, Text.following, hm, Int.toNat_natCast, hsplit,
    Text.behindBlanks_append hblank]

/-- The items of a list between two sessions, with the reports on what stands between them. -/
structure Enumerated (s : Session) (items : List Node) (s' : Session) : Prop where
  listed : ∀ n ∈ items, n.Throughout (Node.Listed s.source)
  listing : Listing s.source s.location.offset items (s.source.strays items)
    (s.source.closes items) (s.source.slice s.location.offset s'.location.offset)
  tallied : s.Tallied (s.source.strays items ++ s.source.strayed items)
    ((if s.source.closes items then 0 else 1) + s.source.unclosed items) s'

/-- The text ends where an item could begin. -/
theorem enumerated_nil (hs : s.Inside) (hrest : s.rest = [])
    (hlocation : s'.location = s.location)
    (hreports : s'.misplaced = s.misplaced ++ s'.ends 1) (hrest' : s'.rest = []) :
    s.Enumerated [] s' := by
  have hend := hs.offset_add_length
  rw [hrest, List.length_nil, Int.natCast_zero, Int.add_zero] at hend
  refine ⟨by simp, ?_, ?_⟩
  · rw [hlocation, Text.slice_self _ hs.offset_nonneg]
    exact .unclosed Text.blank_nil (by simpa using hend)
  · refine ⟨?_, fun _ => hrest'⟩
    rw [hreports]
    simp [Text.strays, Text.strayed, Text.unclosed, Node.lists_nil, Text.closes]

/-- An item, the reports in front of the next one, and the other items. -/
theorem Tallied.cons {n : Node} {items : List Node} (between : List Int) {count : Nat}
    (hn : s.Tallied (s.source.strayed [n]) (s.source.unclosed [n]) s₁)
    (h : s₁.Tallied (between ++ (s.source.strays items ++ s.source.strayed items))
      (count + s.source.unclosed items) s')
    (hsource : s'.source = s₁.source)
    (hend : s₁.rest = [] → s'.rest = [] ∧ s'.abandoned = s₁.abandoned) :
    s.Tallied (between ++ s.source.strays items ++ s.source.strayed (n :: items))
      (count + s.source.unclosed (n :: items)) s' := by
  have hstrayed : s.source.strayed (n :: items) = s.source.strayed [n] ++ s.source.strayed items :=
    s.source.strayed_append [n] items
  have hunclosed : s.source.unclosed (n :: items) =
      s.source.unclosed [n] + s.source.unclosed items := s.source.unclosed_append [n] items
  have hcount : count + s.source.unclosed (n :: items) =
      s.source.unclosed [n] + (count + s.source.unclosed items) := by
    rw [hunclosed]
    omega
  obtain ⟨hreports, hrest⟩ := hn.trans h hsource hend
  rw [hcount, hstrayed]
  refine ⟨hreports.trans ?_, hrest⟩
  refine List.Perm.append_right _ (List.Perm.append_left _ ?_)
  simp only [List.append_assoc]
  exact (List.perm_append_comm_assoc _ _ _).trans
    ((List.perm_append_comm_assoc _ _ _).append_left _)

/-- Some nodes that were read between two sessions, with the reports on the lists in them. -/
structure Accounted (s : Session) (nodes : List Node) (s' : Session) : Prop where
  listed : ∀ n ∈ nodes, n.Throughout (Node.Listed s.source)
  tallied : s.Tallied (s.source.strayed nodes) (s.source.unclosed nodes) s'

theorem accounted_nil (h : s'.misplaced = s.misplaced) : s.Accounted [] s' := by
  refine ⟨by simp, ?_⟩
  rw [Text.strayed, Text.unclosed, Node.lists_nil]
  exact tallied_of_eq h

/-- A node that is no list adds nothing to what hangs below it. -/
theorem Accounted.above {label : Label} {children : List Node} (h : s.Accounted children s')
    (hkind : label.kind ≠ .paren) : s.Accounted [.mk label children] s' := by
  refine ⟨List.forall_mem_singleton.2 (.node (fun hparen => absurd hparen hkind) h.listed), ?_⟩
  rw [Text.strayed, Text.unclosed, Node.lists_mk hkind]
  exact h.tallied

/-- A node with nothing below it. -/
theorem accounted_closed (t : Session) {label : Label} (h : s'.misplaced = s.misplaced)
    (hkind : label.kind ≠ .paren) : s.Accounted [t.closed label []] s' :=
  (accounted_nil h).above hkind

/-- A node in front of another one. -/
theorem Accounted.closedAlong (t : Session) {label : Label} {child : Node}
    (h : s.Accounted [child] s') (hkind : label.kind ≠ .paren) :
    s.Accounted [t.closedAlong label [child] child] s' :=
  h.above hkind

/-- What adds no report on lists may stand in front. -/
theorem Accounted.after {nodes : List Node} (h : s₁.Accounted nodes s')
    (hsource : s₁.source = s.source) (hreports : s₁.misplaced = s.misplaced) :
    s.Accounted nodes s' := by
  obtain ⟨hlisted, hall, hrest⟩ := h
  rw [hsource] at hlisted hall hrest
  rw [hreports] at hall
  exact ⟨hlisted, hall, hrest⟩

theorem Accounted.append {a b : List Node} (h : s.Accounted a s₁) (h' : s₁.Accounted b s')
    (hs : s₁.source = s.source) (hs' : s'.source = s₁.source)
    (hend : s₁.rest = [] → s'.rest = [] ∧ s'.abandoned = s₁.abandoned) :
    s.Accounted (a ++ b) s' := by
  obtain ⟨hlisted, htallied⟩ := h'
  rw [hs] at hlisted htallied
  refine ⟨List.forall_mem_append.2 ⟨h.listed, hlisted⟩, ?_⟩
  rw [Text.strayed_append, Text.unclosed_append]
  exact h.tallied.trans htallied hs' hend

/-- Blanks behind some nodes change nothing. -/
theorem Accounted.pastBlanks {nodes : List Node} (h : s.Accounted nodes s₁) (hs : s.Onward s₁) :
    s.Accounted nodes s₁.pastBlanks := by
  have hblanks := onward_pastBlanks hs.inside
  have hquiet : s₁.Accounted [] s₁.pastBlanks := accounted_nil rfl
  have hall := h.append hquiet hs.source hblanks.source fun hnil =>
    ⟨List.suffix_nil.1 (hnil ▸ hblanks.rest), rfl⟩
  rwa [List.append_nil] at hall

/-- An item that was read between two sessions. -/
structure Item (s : Session) (n : Node) (s₁ : Session) : Prop where
  onward : s.Onward s₁
  spans : s.Spans n s₁
  accounted : s.Accounted [n] s₁

section Item

variable {n : Node} {items : List Node} {c : Char} {after : Text} (h : s.Item n s₁)
  (hs : s.Inside)

include h

theorem Item.following : s.source.following n = s₁.pastBlanks.rest := h.spans.following h.onward

/-- Where a character follows an item the text does not end with the item. -/
theorem Item.rest_ne_nil (hnext : s₁.pastBlanks.rest = c :: after) : s₁.rest ≠ [] := by
  intro hnil
  rw [rest_pastBlanks h.onward.inside, hnil] at hnext
  cases hnext

theorem Item.stray?_of_comma (hnext : s₁.pastBlanks.rest = ',' :: after) :
    s.source.stray? n = none := by
  simp [Text.stray?, h.following, hnext]

theorem Item.stray?_of_ne (hnext : s₁.pastBlanks.rest = c :: after) (hcomma : c ≠ ',')
    (hclose : c ≠ ')') : s.source.stray? n = some s₁.pastBlanks.location.offset := by
  have ht := h.onward.pastBlanks
  have hlength := ht.inside.offset_add_length
  rw [hnext, ht.source] at hlength
  have hplace : (s.source.length : Int) - ((c :: after).length : Int) =
      s₁.pastBlanks.location.offset := by omega
  simp only [Text.stray?, h.following, hnext]
  rw [if_neg (by simp [hcomma, hclose]), hplace]

include hs

theorem Item.alone : n.Alone s.location.offset
    (s.source.slice s.location.offset s₁.pastBlanks.location.offset) :=
  (h.spans.pastBlanks h.onward).alone hs h.onward.pastBlanks

theorem Item.length_slice :
    s.location.offset + ((s.source.slice s.location.offset s₁.pastBlanks.location.offset).length) =
      s₁.pastBlanks.location.offset := by
  rw [h.onward.pastBlanks.length_slice hs]
  omega

/-- The text of a list from an item on: the item, the character behind it and the rest. -/
theorem Item.slice_cons (hnext : s₁.pastBlanks.rest = c :: after) {u : Session}
    (hu : (s₁.pastBlanks.past 1).Onward u) (hu' : u.Onward s') :
    s.source.slice s.location.offset s'.location.offset =
      s.source.slice s.location.offset s₁.pastBlanks.location.offset ++
        c :: (s.source.slice (s₁.pastBlanks.past 1).location.offset u.location.offset ++
          s.source.slice u.location.offset s'.location.offset) := by
  have ht := h.onward.pastBlanks
  have hone := onward_past_one ht.inside (by simp [hnext])
  have hstep := slice_past_one ht.inside hnext (hu.trans hu')
  have hrest := hu.slice_append hu' hone.inside
  rw [ht.source] at hstep
  rw [(ht.trans hone).source] at hrest
  rw [ht.slice_append (hone.trans (hu.trans hu')) hs, hstep, hrest]

/-- An item, a character behind it that does not end the list, and what follows in the list. -/
theorem Item.cons (hnext : s₁.pastBlanks.rest = c :: after) (hclose : c ≠ ')')
    (hjoin : ∀ {items : List Node} {strays : List Int} {closed : Bool} {t inside : Text},
      n.Alone s.location.offset t → s.location.offset + t.length = s₁.pastBlanks.location.offset →
        Listing s.source (s.location.offset + t.length + 1) items strays closed inside →
          Listing s.source s.location.offset (n :: items) ((s.source.stray? n).toList ++ strays)
            closed (t ++ c :: inside))
    {u : Session} (hu : (s₁.pastBlanks.past 1).Onward u)
    (hblank : s.source.BlankBetween (s₁.pastBlanks.past 1).location.offset u.location.offset)
    (hreports : u.misplaced = s₁.misplaced ++ (s.source.stray? n).toList)
    (hitems : u.Enumerated items s') (hu' : u.Onward s') : s.Enumerated (n :: items) s' := by
  have ht := h.onward.pastBlanks
  have hv := ht.past_one (by simp [hnext])
  have hsource : u.source = s.source := (hv.trans hu).source
  obtain ⟨hlisted, hlisting, htallied⟩ := hitems
  rw [hsource] at hlisted hlisting htallied
  have hcloses : s.source.closes (n :: items) = s.source.closes items :=
    Text.closes_cons (by rw [h.following, hnext]; simpa using hclose)
  refine ⟨List.forall_mem_append.2 ⟨h.accounted.listed, hlisted⟩, ?_, ?_⟩
  · have hgap := hu.length_slice hv.inside
    rw [hv.source] at hgap
    rw [hcloses, Text.strays_cons, h.slice_cons hs hnext hu hu']
    refine hjoin (h.alone hs) (h.length_slice hs) ?_
    rw [h.length_slice hs]
    have hone : (s₁.pastBlanks.past 1).location.offset = s₁.pastBlanks.location.offset + 1 := rfl
    exact hlisting.blank_append (hblank.slice hv.inside.1 hu.inside.1) (by omega)
  · rw [hcloses, Text.strays_cons]
    have hall := htallied.reports
    rw [hreports, List.append_assoc s₁.misplaced] at hall
    exact h.accounted.tallied.cons _ ⟨hall, htallied.rest⟩
      ((hu.trans hu').source.trans (onward_pastBlanks h.onward.inside).source)
      fun hnil => absurd hnil (h.rest_ne_nil hnext)

/-- An item and the end of its list. -/
theorem Item.closed (hnext : s₁.pastBlanks.rest = ')' :: after) :
    s.Enumerated [n] (s₁.pastBlanks.past 1) := by
  have ht := h.onward.pastBlanks
  have hv := onward_past_one ht.inside (by simp [hnext])
  have hcloses : s.source.closes [n] = true := by
    simp [Text.closes, h.following, hnext]
  have hstrays : s.source.strays [n] = [] := by
    simp [Text.strays, Text.stray?, h.following, hnext]
  refine ⟨h.accounted.listed, ?_, ?_⟩
  · have hstep := slice_past_one ht.inside hnext (onward_refl hv.inside)
    rw [Text.slice_self _ hv.inside.offset_nonneg, ht.source] at hstep
    rw [hcloses, hstrays, ht.slice_append hv hs, hstep]
    exact .closed (h.alone hs)
  · have hquiet : s₁.Tallied [] 0 (s₁.pastBlanks.past 1) := tallied_of_eq rfl
    have hall := h.accounted.tallied.trans hquiet (onward_pastBlanks h.onward.inside).source
      fun hnil => absurd hnil (h.rest_ne_nil hnext)
    rw [List.append_nil, Nat.add_zero] at hall
    rwa [hcloses, hstrays, if_pos rfl, Nat.zero_add, List.nil_append]

/-- An item and the end of the text. -/
theorem Item.ended (hnext : s₁.pastBlanks.rest = []) (hitems : s₁.pastBlanks.Enumerated [] s')
    (hlocation : s'.location = s₁.pastBlanks.location) (hmark : s'.abandoned = s₁.abandoned)
    (hu : s₁.pastBlanks.Onward s') : s.Enumerated [n] s' := by
  have ht := h.onward.pastBlanks
  have hend := ht.inside.offset_add_length
  rw [hnext, List.length_nil, Int.natCast_zero, Int.add_zero, ht.source] at hend
  have hcloses : s.source.closes [n] = s.source.closes [] :=
    Text.closes_cons (by rw [h.following, hnext]; simp)
  have hstrays : s.source.strays [n] = [] := by
    simp [Text.strays, Text.stray?, h.following, hnext]
  have htallied := hitems.tallied
  rw [ht.source] at htallied
  refine ⟨h.accounted.listed, ?_, ?_⟩
  · rw [hcloses, hstrays, hlocation]
    exact .ended (h.alone hs) ((h.length_slice hs).trans hend)
  · rw [hcloses, hstrays]
    exact h.accounted.tallied.cons [] ⟨htallied.reports, htallied.rest⟩
      (hu.source.trans (onward_pastBlanks h.onward.inside).source)
      fun _ => ⟨List.suffix_nil.1 (hnext ▸ hu.rest), hmark⟩

end Item

end Session

/-! ## 5. What is read -/

namespace Reading

/-- The lists in an expression are put together from their items, and the reports on them are
    added. -/
def Accounts (inner : Reading) : Prop :=
  ∀ s g s', inner s g s' → s.Inside → s.Accounted g.chain.operands s'

variable {inner : Reading} {s s' : Session}
  (honward : ∀ s g s', inner s g s' → s.Inside → s.Onward s')
  (hcovers : ∀ s g s', inner s g s' → s.Inside → s.Covers g s') (hinner : inner.Accounts)

include honward hcovers hinner

theorem item_accounted {g : Grouping Node} {s₁ : Session} (hitem : inner s g s₁)
    (hs : s.Inside) : s.Item (g.node s₁.source) s₁ := by
  obtain ⟨hlisted, htallied⟩ := hinner _ _ _ hitem hs
  refine ⟨honward _ _ _ hitem hs, item_spans honward hcovers hitem hs,
    List.forall_mem_singleton.2 (Grouping.throughout_node (fun n hkind hparen => ?_) hlisted), ?_⟩
  · rw [hkind] at hparen
    cases hparen
  · rw [Text.strayed, Text.unclosed, Grouping.lists_node]
    exact htallied

theorem Items.enumerated {items : List Node} (h : inner.Items s items s') (hs : s.Inside) :
    s.Enumerated items s' := by
  induction h with
  | @givenUp s hrest habandoned =>
      exact Session.enumerated_nil hs hrest rfl (by simp [Session.ends, habandoned]) hrest
  | @unclosed s hrest habandoned =>
      have hend := hs.offset_add_length
      rw [hrest, List.length_nil, Int.natCast_zero, Int.add_zero] at hend
      refine Session.enumerated_nil hs hrest rfl ?_ hrest
      rw [Session.misplaced_note, hend]
      simp [Session.ends, habandoned, Session.note, Session.source]
  | comma _ hitem hnext hitems ih =>
      have h := item_accounted honward hcovers hinner hitem hs
      have hv := h.onward.pastBlanks.past_one (by simp [hnext])
      have hu := Session.onward_pastBlanks hv.inside
      have hnone := h.stray?_of_comma hnext
      have hblank := Session.blankBetween_pastBlanks hv.inside
      rw [hv.source] at hblank
      refine h.cons hs hnext (by decide) (fun halone _ hrest => ?_) hu hblank ?_ (ih hu.inside)
        (hitems.onward honward hu.inside)
      · rw [hnone]
        exact .comma halone hrest
      · rw [hnone]
        exact (List.append_nil _).symm
  | closed _ hitem hnext =>
      exact (item_accounted honward hcovers hinner hitem hs).closed hs hnext
  | @junk s s₁ s' g c after items _ hitem hnext hcomma hclose hitems ih =>
      have h := item_accounted honward hcovers hinner hitem hs
      have ht := h.onward.pastBlanks
      have hv := ht.past_one (by simp [hnext])
      have hu : (s₁.pastBlanks.past 1).Onward ((s₁.pastBlanks.note .invalidInList).past 1) :=
        ⟨rfl, hv.inside, List.suffix_rfl, List.prefix_append _ _⟩
      have hsome := h.stray?_of_ne hnext hcomma hclose
      have hnonblank : Cursor.isBlank c = false := by
        have hhead : s₁.rest.behindBlanks.head? = some c := by
          rw [← Session.rest_pastBlanks h.onward.inside, hnext]
          rfl
        exact Text.head?_behindBlanks _ c hhead
      refine h.cons hs hnext hclose (fun halone hlength hrest => ?_) hu
        (Text.blankBetween_refl _ _) ?_ (ih hu.inside) (hitems.onward honward hu.inside)
      · rw [hsome, ← hlength]
        exact .stray halone hnonblank hcomma hclose hrest
      · rw [hsome]
        exact s₁.pastBlanks.misplaced_note
  | @ended _ s₁ s' _ _ _ hitem hnext hitems ih =>
      have h := item_accounted honward hcovers hinner hitem hs
      have ht := Session.onward_pastBlanks h.onward.inside
      obtain ⟨rfl, hend⟩ := hitems.eq_nil_of_rest_nil hnext
      have hstay : s'.location = s₁.pastBlanks.location ∧
          s'.abandoned = s₁.pastBlanks.abandoned := by
        rw [hend]
        split
        · exact ⟨rfl, rfl⟩
        · exact ⟨rfl, rfl⟩
      exact h.ended hs hnext (ih ht.inside) hstay.1 hstay.2 (hitems.onward honward ht.inside)

theorem Paren.accounted {node : Node} (h : inner.Paren s node s') (hs : s.Inside) :
    s.Accounted [node] s' := by
  cases h with
  | @list _ after children hopen hitems =>
      have hv := Session.onward_past_one hs (by simp [hopen])
      have hu := Session.onward_pastBlanks hv.inside
      have hrest := hitems.onward honward hu.inside
      have hsource : s'.source = s.source := (hv.trans (hu.trans hrest)).source
      obtain ⟨hlisted, hlisting, htallied⟩ := hitems.enumerated honward hcovers hinner hu.inside
      rw [(hv.trans hu).source] at hlisted hlisting htallied
      have hblank := Session.blankBetween_pastBlanks hv.inside
      have hgap := hu.length_slice hv.inside
      have htext : s.source.slice s.location.offset s'.location.offset = '(' ::
          (s.source.slice (s.past 1).location.offset (s.past 1).pastBlanks.location.offset ++
            s.source.slice (s.past 1).pastBlanks.location.offset s'.location.offset) := by
        rw [Session.slice_past_one hs hopen (hu.trans hrest)]
        exact congrArg _ (hu.slice_append hrest hv.inside)
      have hnode : s'.closed (s.opened .paren) children =
          .mk ⟨.paren, ⟨s.location, s'.location⟩,
            s'.source.slice s.location.offset s'.location.offset, none, none, none⟩ children := rfl
      rw [hnode, hsource, htext]
      refine ⟨List.forall_mem_singleton.2 (.node (fun _ => ⟨_, rfl, ?_⟩) hlisted), ?_⟩
      · rw [hv.source] at hblank hgap
        refine hlisting.blank_append (hblank.slice hv.inside.1 hu.inside.1) ?_
        show (s.past 1).location.offset + _ = _
        omega
      · rw [Text.strayed_paren rfl, Text.unclosed_paren rfl]
        exact ⟨htallied.reports, htallied.rest⟩

theorem Arguments.accounted {node : Node} (h : inner.Arguments s node s') (hs : s.Inside) :
    s.Accounted [node] s' := by
  cases h with
  | given hparen => exact hparen.accounted honward hcovers hinner hs
  | missing =>
      exact Session.accounted_closed _ (s.misplaced_note_of_ne (by simp))
        (by simp [Session.opened, Label.plain])

theorem Primary.accounted {node : Node} (h : inner.Primary s node s') (hs : s.Inside) :
    s.Accounted [node] s' := by
  have hnote : (s.note .invalidExpression).misplaced = s.misplaced :=
    s.misplaced_note_of_ne (by simp)
  have hkind : ∀ kind : Node.Kind, kind ≠ .paren → (s.opened kind).kind ≠ .paren := fun _ h => h
  cases h with
  | exhausted => exact Session.accounted_closed _ hnote (hkind _ (by simp))
  | invalid => exact Session.accounted_closed _ hnote (hkind _ (by simp))
  | number => exact Session.accounted_closed _ rfl (hkind .number (by simp))
  | list hparen => exact hparen.accounted honward hcovers hinner hs
  | placeholder => exact Session.accounted_closed _ rfl (hkind _ (by simp))
  | prefixed hrest _ hoperand =>
      have h₁ := Session.onward_past_one hs (by simp [hrest])
      have hbelow := (item_accounted honward hcovers hinner hoperand h₁.inside).accounted
      exact (hbelow.after h₁.source rfl).closedAlong _ (hkind .prefixOp (by simp))
  | @call _ kind x given _ hmatch hgiven =>
      have h₁ := (Session.onward_past_prefix hs (Token.Kind.prefix_of_match? hmatch)).pastBlanks
      have hbelow := hgiven.accounted honward hcovers hinner h₁.inside
      have hfunction : Rule.functionKind ⟨kind, x, s.location⟩ ≠ .paren := by
        unfold Rule.functionKind
        split <;> simp
      exact (hbelow.after h₁.source rfl).closedAlong _ (hkind _ hfunction)

omit honward hcovers in
/-- An operand and what follows it. -/
theorem Tail.accounted {first : Node} {g : Grouping Node} {s₁ : Session}
    (h : inner.Tail s₁ first g s') (hfirst : s.Accounted [first] s₁) (hs : s.Onward s₁)
    (hs' : s₁.Onward s') : s.Accounted g.chain.operands s' := by
  cases h with
  | stop => exact hfirst
  | link hnext hright =>
      have h₁ := Session.onward_past_prefix hs.inside (Link.symbol_prefix_of_next? hnext)
      have hothers := (hinner _ _ _ hright h₁.inside).after h₁.source rfl
      rw [Grouping.chain_settle]
      refine hfirst.append hothers hs.source hs'.source fun hnil => ?_
      rw [hnil] at hnext
      cases hnext

end Reading

/-- **The lists in an expression are put together from their items, and the reports on them are
    added.** -/
theorem Reads.accounts (levels : Nat) : (Reads levels).Accounts := by
  induction levels with
  | zero =>
      rintro s g s' ⟨rfl, rfl⟩ hs
      exact Session.accounted_closed _ s.begin.misplaced_abandon
        (by simp [Session.opened, Label.plain])
  | succ levels ih =>
      rintro s g s' ⟨first, s₁, s₂, hprimary, htail, rfl⟩ hs
      have honward : ∀ s g s', Reads levels s g s' → s.Inside → s.Onward s' :=
        fun _ _ _ => Reads.onward
      have hcovers : ∀ s g s', Reads levels s g s' → s.Inside → s.Covers g s' :=
        fun _ _ _ => Reads.covers
      have h₁ := Session.onward_entered hs
      have h₂ := hprimary.onward honward h₁.inside
      have h₃ := Session.onward_pastBlanks h₂.inside
      have hfirst := (hprimary.accounted honward hcovers ih h₁.inside).pastBlanks h₂
      have hall := htail.accounted ih hfirst (h₂.trans h₃) (htail.onward honward h₃.inside)
      obtain ⟨hlisted, htallied⟩ := hall.after h₁.source rfl
      exact ⟨hlisted, htallied.reports, htallied.rest⟩

/-! ## 6. Whole texts -/

/-- A text is given up exactly if a report says so. -/
theorem Reads.abandoned_iff {limit : NestingLimit} {source : Text} {g : Grouping Node}
    {s' : Session} (h : Reads limit.levels (Session.start source) g s') :
    (∃ r ∈ s'.finished.reports, r.problem = .nestedTooDeeply) ↔ s'.abandoned = true := by
  constructor
  · rintro ⟨r, hr, hproblem⟩
    cases hmark : s'.abandoned with
    | true => rfl
    | false =>
        rcases Session.mem_reports_finished hr with hr | ⟨-, rfl⟩
        · exact absurd hproblem ((h.untroubled hmark).reports r hr)
        · cases hproblem
  · intro hgiven
    obtain ⟨-, earlier, here, hreports, -⟩ :=
      h.cutShort hgiven (Nat.le_refl _) (Reckoner.parse_eq h)
    refine ⟨⟨.nestedTooDeeply, here⟩, s'.reports_finished.subset ?_, rfl⟩
    rw [hreports]
    exact List.mem_append_right _ List.mem_cons_self

/-- **Every character of a list is accounted for, and every report on lists.** The text of a list
    is a parenthesis, its items with blanks around them and a character behind each of them except
    perhaps the last one, and a closing parenthesis or the end of the whole text. Each of these
    characters that is no comma is reported, and so is the end of the text for each list that it
    leaves open, unless it was given up. Nothing else is reported as misplaced in a list. -/
theorem parse_listing (limit : NestingLimit) (source : Text) :
    ∃ p, parse ⟨limit, Dialect.standard⟩ source = .ok p ∧
      (∀ n ∈ p.root.walk, n.kind = .paren → ∃ inside, n.text = '(' :: inside ∧
        Listing source (n.span.start.offset + 1) n.children (source.strays n.children)
          (source.closes n.children) inside) ∧
      (∀ n ∈ p.root.walk, n.kind = .paren → ∀ place ∈ source.strays n.children,
        ∃ r ∈ p.reports, r.problem = .invalidInList ∧ r.location.offset = place) ∧
      ((p.reports.filter (·.problem = .invalidInList)).map (·.location.offset)).Perm
        ((p.root.walk.filter (·.kind = .paren)).flatMap (fun n => source.strays n.children) ++
          if ∃ r ∈ p.reports, r.problem = .nestedTooDeeply then []
          else List.replicate
            ((p.root.walk.filter (·.kind = .paren)).countP fun n => !source.closes n.children)
            (source.length : Int)) := by
  obtain ⟨g, s', hreads, hparse⟩ := exists_parse limit source
  have hs := Session.inside_start source
  have hitem := Reading.item_accounted (fun _ _ _ => Reads.onward) (fun _ _ _ => Reads.covers)
    (Reads.accounts limit.levels) hreads hs
  obtain ⟨hlisted, hreports, -⟩ := hitem.accounted
  have hends : s'.ends (source.unclosed [g.node s'.source]) =
      if ∃ r ∈ s'.finished.reports, r.problem = .nestedTooDeeply then []
      else List.replicate (source.unclosed [g.node s'.source]) (source.length : Int) := by
    have hsource : s'.source = source := hitem.onward.source
    rw [Session.ends, if_congr hreads.abandoned_iff rfl rfl, hsource]
  have hperm : s'.finished.misplaced.Perm (source.strayed [g.node s'.source] ++
      s'.ends (source.unclosed [g.node s'.source])) := by
    rw [s'.misplaced_finished]
    exact hreports
  rw [hends] at hperm
  refine ⟨_, hparse, Node.forall_mem_walk.2 (List.forall_mem_singleton.1 hlisted), ?_, hperm⟩
  intro n hn hparen place hplace
  have hlist : n ∈ Node.lists [g.node s'.source] := List.mem_filter.2 ⟨hn, by simpa using hparen⟩
  have hstrayed : place ∈ source.strayed [g.node s'.source] :=
    List.mem_flatMap.2 ⟨n, hlist, hplace⟩
  obtain ⟨r, hr, hlocation⟩ := List.mem_map.1 (hperm.symm.subset (List.mem_append_left _ hstrayed))
  obtain ⟨hr, hproblem⟩ := List.mem_filter.1 hr
  exact ⟨r, hr, by simpa using hproblem, hlocation⟩

end Reckoner
