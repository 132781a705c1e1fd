import Reckoner.Proofs.Silent
import Reckoner.Proofs.Stretch

/-!
# The work is linear in the text

An expression may consume nothing, and there is no measure in the rules that says why reading ends.
It ends since every expression inside another one, and every further turn of a list, begins behind a
character that the one before it did not begin behind.

* `Session.Costs` -- what is begun between two sessions, and how many nodes the characters passed
  pay for: two for each of them, and one;
* `Session.Costs.call`, `Session.Costs.trans` -- an expression begun further on, and one stretch
  behind another;
* `Reads.costs` -- what an expression costs;
* `Reads.rest_eq_iff` -- where an expression consumes nothing;
* `Rule.EndsList`, `Rule.GoesOn` -- the turns of a list, `items_turn` -- a turn ends the list or the
  next one has less of the text in front of it;
* `parse_linear` -- expressions and nodes are counted by the length of the text.
-/

namespace Reckoner

/-! ## 1. Nodes and places -/

namespace Node

theorem count_mk (label : Label) (children : List Node) :
    (mk label children).count = countAll children + 1 := by
  simp [count]

theorem countAll_singleton (node : Node) : countAll [node] = node.count := by
  simp [countAll]

end Node

/-- A symbol that settles adds its node to those of its operand and of what it settles in. -/
theorem Grouping.count_settle (source : Text) (link : Link) (p : Node) (g : Grouping Node) :
    ((settle link (.operand p) g).node source).count =
      p.count + ((g.node source).count + 1) := by
  have hjoined : ∀ (link : Link) (a b : Node),
      (Node.joined source link a b).count = a.count + (b.count + 1) := by
    intro link a b
    simp [Node.joined, Node.count, Node.countAll, Nat.add_assoc]
  induction g with
  | operand q => exact hjoined link p q
  | join upper left right ihl _ =>
      unfold settle
      split
      · exact hjoined ..
      · rw [node, node, hjoined, hjoined, ihl]
        omega

theorem Token.Kind.ne_nil_of_match? {kind : Token.Kind} {t x : Text}
    (h : kind.match? t = some x) : x ≠ [] := by
  have hone : ∀ set : Text, Token.oneOf set t = some x → x ≠ [] := by
    intro set hset
    obtain ⟨c, -, -, -, rfl⟩ := Token.oneOf_eq_some.1 hset
    exact List.cons_ne_nil c []
  have hname : kind.isFunction = true → x ≠ [] := fun hkind =>
    (Keyword.Name.solid ⟨x, mem_keyword_of_match? hkind h⟩).1
  cases kind with
  | number => exact (Numeral.isNumeral_of_lexeme? h).1.solid.1
  | infixOp => exact (Link.solid ⟨x, Token.mem_of_infixSymbol? h⟩).1
  | binaryFunction => exact hname rfl
  | unaryFunction => exact hname rfl
  | _ => exact hone _ h

/-- Between the start of a text and a bound there are as many places one behind the other as the
    bound says. -/
theorem length_le_of_descending {places : List Int} (h : places.Pairwise (· > ·)) {bound : Int}
    (hbound : ∀ i ∈ places, 0 ≤ i ∧ i < bound) : places.length ≤ bound.toNat := by
  induction places generalizing bound with
  | nil => exact Nat.zero_le _
  | cons i places ih =>
      obtain ⟨hfirst, hlater⟩ := List.pairwise_cons.1 h
      obtain ⟨⟨hnonneg, hlt⟩, hrest⟩ := List.forall_mem_cons.1 hbound
      have hle := ih hlater fun j hj => ⟨(hrest j hj).1, hfirst j hj⟩
      simp only [List.length_cons]
      omega

/-! ## 2. What is begun, and what is paid for -/

namespace Session

/-- Between two sessions expressions are begun at these places, the latest first, each further on
    than the one before and all of them behind the first session. The characters between the
    sessions pay for the nodes: two for each of them, and one. -/
structure Costs (s : Session) (calls : List Int) (nodes : Nat) (s' : Session) : Prop where
  onward : s.Onward s'
  begun : s'.begun = calls ++ s.begun
  later : calls.Pairwise (· > ·)
  within : ∀ i ∈ calls, s.location.offset < i ∧ i ≤ s'.location.offset
  paid : nodes + 2 * s'.rest.length ≤ 2 * s.rest.length + 1

theorem length_rest_past_prefix_lt {s : Session} (hs : s.Inside) {x : Text} (hx : x <+: s.rest)
    (hne : x ≠ []) : (s.past x.length).rest.length < s.rest.length := by
  have hpos := List.length_pos_iff.2 hne
  have hle := hx.length_le
  rw [rest_past hs hle, List.length_drop]
  omega

theorem Onward.offset_lt {s s₁ : Session} (h : s.Onward s₁) (hs : s.Inside)
    (hless : s₁.rest.length < s.rest.length) : s.location.offset < s₁.location.offset := by
  have hstart := hs.offset_add_length
  have hstop := Inside.offset_add_length h.inside
  rw [h.source] at hstop
  omega

theorem begun_abandon (s : Session) : s.abandon.begun = s.begun := by
  unfold abandon
  split <;> rfl

namespace Costs

variable {p s s₁ s' : Session} {calls calls' : List Int} {nodes nodes' : Nat}

theorem mono (h : s.Costs calls nodes s') (hle : nodes' ≤ nodes) : s.Costs calls nodes' s' :=
  ⟨h.onward, h.begun, h.later, h.within, Nat.le_trans (Nat.add_le_add_right hle _) h.paid⟩

/-- Nothing is begun, and one node is free. -/
theorem leaf (h : s.Onward s') (hbegun : s'.begun = s.begun) : s.Costs [] 1 s' := by
  refine ⟨h, hbegun, .nil, List.forall_mem_nil _, ?_⟩
  have hle := h.length_rest_le
  omega

/-- What is passed at the end costs nothing. -/
theorem after (h : s.Costs calls nodes s₁) (h₁ : s₁.Onward s')
    (hbegun : s'.begun = s₁.begun) : s.Costs calls nodes s' := by
  refine ⟨h.onward.trans h₁, hbegun.trans h.begun, h.later, fun i hi => ?_, ?_⟩
  · have hoffset := h₁.offset_le h.onward.inside
    have hi := h.within i hi
    omega
  · have hle := h₁.length_rest_le
    have hpaid := h.paid
    omega

/-- **One stretch behind another.** The node that is free is free only once. -/
theorem trans (h : s.Costs calls nodes s₁) (h₁ : s₁.Costs calls' (nodes' + 1) s')
    (hs : s.Inside) : s.Costs (calls' ++ calls) (nodes + nodes') s' := by
  have hoffset := h.onward.offset_le hs
  have hoffset₁ := h₁.onward.offset_le h.onward.inside
  refine ⟨h.onward.trans h₁.onward, ?_, ?_, fun i hi => ?_, ?_⟩
  · rw [h₁.begun, h.begun, List.append_assoc]
  · refine List.pairwise_append.2 ⟨h₁.later, h.later, fun i hi j hj => ?_⟩
    have hi := h₁.within i hi
    have hj := h.within j hj
    omega
  · rcases List.mem_append.1 hi with hi | hi
    · have hi := h₁.within i hi
      omega
    · have hi := h.within i hi
      omega
  · have hpaid := h.paid
    have hpaid₁ := h₁.paid
    omega

/-- What is passed in front costs nothing either. -/
theorem before (h₁ : s.Costs calls nodes s') (h : p.Onward s) (hp : p.Inside)
    (hbegun : s.begun = p.begun) : p.Costs calls nodes s' := by
  refine ⟨h.trans h₁.onward, by rw [h₁.begun, hbegun], h₁.later, fun i hi => ?_, ?_⟩
  · have hoffset := h.offset_le hp
    have hi := h₁.within i hi
    omega
  · have hle := h.length_rest_le
    have hpaid := h₁.paid
    omega

/-- What is passed in front pays for two nodes more, as soon as it is a character. -/
theorem behind (h₁ : s.Costs calls nodes s') (h : p.Onward s) (hp : p.Inside)
    (hbegun : s.begun = p.begun) (hless : s.rest.length < p.rest.length) :
    p.Costs calls (nodes + 2) s' := by
  have hoffset := h.offset_lt hp hless
  refine ⟨h.trans h₁.onward, by rw [h₁.begun, hbegun], h₁.later, fun i hi => ?_, ?_⟩
  · have hi := h₁.within i hi
    omega
  · have hpaid := h₁.paid
    omega

/-- **An expression begun further on** is one more that is begun. -/
theorem call (h₁ : s.begin.Costs calls nodes s') (h : p.Onward s) (hp : p.Inside)
    (hbegun : s.begun = p.begun) (hless : s.rest.length < p.rest.length) :
    p.Costs (calls ++ [s.location.offset]) (nodes + 2) s' := by
  have hoffset := h.offset_lt hp hless
  have hbehind : ∀ i ∈ calls, s.location.offset < i ∧ i ≤ s'.location.offset := h₁.within
  have hstop : s.location.offset ≤ s'.location.offset := h₁.onward.offset_le h.inside
  refine ⟨(h.trans (onward_begin h.inside)).trans h₁.onward, ?_, ?_, fun i hi => ?_, ?_⟩
  · rw [h₁.begun, begin, hbegun, List.append_assoc]
    rfl
  · refine List.pairwise_append.2 ⟨h₁.later, List.pairwise_singleton _ _, fun i hi j hj => ?_⟩
    obtain rfl := List.mem_singleton.1 hj
    exact (hbehind i hi).1
  · rcases List.mem_append.1 hi with hi | hi
    · have hi := hbehind i hi
      omega
    · obtain rfl := List.mem_singleton.1 hi
      omega
  · have hpaid : nodes + 2 * s'.rest.length ≤ 2 * s.rest.length + 1 := h₁.paid
    omega

end Costs

end Session

/-! ## 3. What the parts of an expression cost -/

namespace Reading

/-- An expression that is begun pays for its nodes, and what is begun in it is begun further on. -/
def Charges (inner : Reading) : Prop :=
  ∀ s g s', inner s g s' → s.Inside → ∃ calls, s.begin.Costs calls (g.node s'.source).count s'

variable {inner : Reading} {s s' : Session}

/-- An item of a list, and the items behind it. -/
theorem item_costs_cons (hcharges : inner.Charges) {p s₁ : Session} {g : Grouping Node}
    {items : List Node} (hitem : inner s g s₁) (hs : s.Inside) (hp : p.Inside)
    (hpast : p.Onward s) (hbegun : s.begun = p.begun) (hless : s.rest.length < p.rest.length)
    (hitems : ∃ calls, s₁.Costs calls (Node.countAll items + 2) s') :
    ∃ calls, p.Costs calls (Node.countAll (g.node s₁.source :: items) + 2) s' := by
  obtain ⟨calls, hcalls⟩ := hcharges _ _ _ hitem hs
  obtain ⟨calls', hcalls'⟩ := hitems
  have hfirst := hcalls.call hpast hp hbegun hless
  refine ⟨_, (hfirst.trans hcalls' hp).mono ?_⟩
  rw [Node.countAll]
  omega

/-- What follows an operand pays for its symbol and its right operand. -/
theorem Tail.costs (hcharges : inner.Charges) {first : Node} {g : Grouping Node}
    (h : inner.Tail s first g s') (hs : s.Inside) :
    ∃ calls added, s.Costs calls (added + 1) s' ∧
      (g.node s'.source).count = first.count + added := by
  cases h with
  | stop => exact ⟨[], 0, Session.Costs.leaf (Session.onward_refl hs) rfl, rfl⟩
  | link hnext hright =>
      have hprefix := Link.symbol_prefix_of_next? hnext
      have h₁ := Session.onward_past_prefix hs hprefix
      obtain ⟨calls, hcalls⟩ := hcharges _ _ _ hright h₁.inside
      have hless := Session.length_rest_past_prefix_lt hs hprefix (Link.solid _).1
      exact ⟨_, _, hcalls.call h₁ hs rfl hless, Grouping.count_settle ..⟩

variable (honward : ∀ s g s', inner s g s' → s.Inside → s.Onward s') (hcharges : inner.Charges)

include honward hcharges

/-- The items of a list, once a character in front of them is passed. -/
theorem Items.costs {items : List Node} (h : inner.Items s items s') {p : Session} (hp : p.Inside)
    (hpast : p.Onward s) (hbegun : s.begun = p.begun) (hless : s.rest.length < p.rest.length) :
    ∃ calls, p.Costs calls (Node.countAll items + 2) s' := by
  have hs := hpast.inside
  induction h generalizing p with
  | givenUp =>
      have hleaf := Session.Costs.leaf (Session.onward_refl hs) rfl
      exact ⟨[], (hleaf.behind hpast hp hbegun hless).mono (Nat.le_succ 2)⟩
  | @unclosed s =>
      have hleaf := Session.Costs.leaf (Session.onward_note hs .invalidInList) rfl
      exact ⟨[], (hleaf.behind hpast hp hbegun hless).mono (Nat.le_succ 2)⟩
  | @comma s s₁ s' g after items _ hitem hnext _ ih =>
      have h₁ := Session.onward_pastBlanks (honward _ _ _ hitem hs).inside
      have hne : s₁.pastBlanks.rest ≠ [] := by simp [hnext]
      have h₂ := (h₁.past_one hne).pastBlanks
      have hless' : (s₁.pastBlanks.past 1).pastBlanks.rest.length < s₁.rest.length :=
        Nat.lt_of_le_of_lt (Session.onward_pastBlanks (h₁.past_one hne).inside).length_rest_le
          (h₁.length_rest_past_lt hne)
      exact item_costs_cons hcharges hitem hs hp hpast hbegun hless
        (ih (honward _ _ _ hitem hs).inside h₂ rfl hless' h₂.inside)
  | @closed s s₁ g after _ hitem hnext =>
      obtain ⟨calls, hcalls⟩ := hcharges _ _ _ hitem hs
      have h₁ := Session.onward_pastBlanks (honward _ _ _ hitem hs).inside
      have h₂ := h₁.past_one (by simp [hnext])
      rw [Node.countAll_singleton]
      exact ⟨_, (hcalls.call hpast hp hbegun hless).after h₂ rfl⟩
  | @junk s s₁ s' g c after items _ hitem hnext _ _ _ ih =>
      have h₁ := Session.onward_pastBlanks (honward _ _ _ hitem hs).inside
      have h₂ := h₁.note .invalidInList
      have hne : (s₁.pastBlanks.note .invalidInList).rest ≠ [] := by simp [hnext]
      exact item_costs_cons hcharges hitem hs hp hpast hbegun hless
        (ih (honward _ _ _ hitem hs).inside (h₂.past_one hne) rfl (h₂.length_rest_past_lt hne)
          (h₂.past_one hne).inside)
  | @ended s s₁ s' g items _ hitem hnext hitems _ =>
      -- no character is passed behind the item, but no expression is begun there either
      obtain ⟨calls, hcalls⟩ := hcharges _ _ _ hitem hs
      have h₁ := Session.onward_pastBlanks (honward _ _ _ hitem hs).inside
      have h₂ := h₁.trans (hitems.onward honward h₁.inside)
      obtain ⟨rfl, hend⟩ := hitems.eq_nil_of_rest_nil hnext
      have hbegun' : s'.begun = s₁.begun := by
        rw [hend]
        split <;> rfl
      rw [Node.countAll_singleton]
      exact ⟨_, (hcalls.call hpast hp hbegun hless).after h₂ hbegun'⟩

theorem Paren.costs {node : Node} (h : inner.Paren s node s') (hs : s.Inside) :
    ∃ calls, s.Costs calls node.count s' := by
  cases h with
  | list hrest hitems =>
      have hne : s.rest ≠ [] := by simp [hrest]
      have h₁ := Session.onward_past_one hs hne
      have hless := (Session.onward_refl hs).length_rest_past_lt hne
      have hle := (Session.onward_pastBlanks h₁.inside).length_rest_le
      obtain ⟨calls, hcalls⟩ := hitems.costs honward hcharges hs h₁.pastBlanks rfl
        (Nat.lt_of_le_of_lt hle hless)
      refine ⟨calls, hcalls.mono ?_⟩
      rw [Session.closed, Node.count_mk]
      exact Nat.le_succ _

theorem Arguments.costs {node : Node} (h : inner.Arguments s node s') (hs : s.Inside) :
    ∃ calls, s.Costs calls node.count s' := by
  cases h with
  | given hparen => exact hparen.costs honward hcharges hs
  | missing => exact ⟨[], Session.Costs.leaf (Session.onward_note hs _) rfl⟩

theorem Primary.costs {node : Node} (h : inner.Primary s node s') (hs : s.Inside) :
    ∃ calls, s.Costs calls node.count s' := by
  have hall := h.onward honward hs
  cases h with
  | exhausted => exact ⟨[], Session.Costs.leaf hall rfl⟩
  | invalid => exact ⟨[], Session.Costs.leaf hall rfl⟩
  | number => exact ⟨[], Session.Costs.leaf hall rfl⟩
  | list hparen => exact hparen.costs honward hcharges hs
  | placeholder => exact ⟨[], Session.Costs.leaf hall rfl⟩
  | prefixed hrest _ hoperand =>
      have hne : s.rest ≠ [] := by simp [hrest]
      have h₁ := Session.onward_past_one hs hne
      obtain ⟨calls, hcalls⟩ := hcharges _ _ _ hoperand h₁.inside
      have hless := (Session.onward_refl hs).length_rest_past_lt hne
      refine ⟨_, (hcalls.call h₁ hs rfl hless).mono ?_⟩
      rw [Session.closedAlong, Node.count_mk, Node.countAll_singleton]
      exact Nat.le_succ _
  | @call _ kind x _ hkind hmatch hgiven =>
      have hprefix := Token.Kind.prefix_of_match? hmatch
      have h₁ := (Session.onward_past_prefix hs hprefix).pastBlanks
      obtain ⟨calls, hcalls⟩ := hgiven.costs honward hcharges h₁.inside
      have hle := (Session.onward_pastBlanks
        (Session.onward_past_prefix hs hprefix).inside).length_rest_le
      have hless : (s.past x.length).pastBlanks.rest.length < s.rest.length :=
        Nat.lt_of_le_of_lt hle
          (Session.length_rest_past_prefix_lt hs hprefix (Token.Kind.ne_nil_of_match? hmatch))
      refine ⟨_, (hcalls.behind h₁ hs rfl hless).mono ?_⟩
      rw [Session.closedAlong, Node.count_mk, Node.countAll_singleton]
      exact Nat.le_succ _

end Reading

/-- **An expression begins what is inside it further on**, and its characters pay for its nodes. -/
theorem Reads.costs (levels : Nat) : (Reads levels).Charges := by
  induction levels with
  | zero =>
      intro s g s' h hs
      obtain ⟨rfl, rfl⟩ := h
      exact ⟨[], Session.Costs.leaf (Session.onward_abandon (s := s.begin) hs)
        s.begin.begun_abandon⟩
  | succ levels ih =>
      intro s g s' h hs
      obtain ⟨first, s₁, s₂, hprimary, htail, rfl⟩ := h
      have honward : ∀ s g s', Reads levels s g s' → s.Inside → s.Onward s' :=
        fun _ _ _ => Reads.onward
      have h₁ := (Session.onward_enter (s := s.begin) hs).pastBlanks
      obtain ⟨calls, hcalls⟩ := hprimary.costs honward ih h₁.inside
      have h₂ := Session.onward_pastBlanks hcalls.onward.inside
      obtain ⟨calls', added, hcalls', hcount⟩ := htail.costs ih h₂.inside
      have hall := (hcalls.after h₂ rfl).trans hcalls' h₁.inside
      have hleave := hall.after (Session.onward_leave hall.onward.inside) rfl
      have hnodes : (g.node s₂.leave.source).count = first.count + added := hcount
      rw [hnodes]
      exact ⟨_, hleave.before h₁ hs rfl⟩

/-! ## 4. Where nothing is consumed -/

/-- An operand consumes nothing only at the end of the text and in front of a comma. -/
theorem Reading.Primary.halts {inner : Reading} {s s' : Session} {node : Node}
    (honward : ∀ s g s', inner s g s' → s.Inside → s.Onward s') (h : inner.Primary s node s')
    (hs : s.Inside) (hstay : s'.rest = s.rest) : s.rest = [] ∨ s.rest.head? = some ',' := by
  have hstuck : ∀ t : Session, t.Onward s' → ¬ t.rest.length < s.rest.length := by
    intro t ht hless
    have hle := ht.length_rest_le
    rw [hstay] at hle
    omega
  cases h with
  | exhausted hrest => exact .inl hrest
  | invalid hrest =>
      have hnoted := Session.onward_note hs .invalidExpression
      have hless := (Session.onward_refl hnoted.inside).length_rest_past_lt hrest
      exact absurd hless (hstuck _ (Session.onward_refl (hnoted.past_one hrest).inside))
  | @number x hmatch =>
      obtain ⟨hnumeral, hprefix⟩ := Numeral.isNumeral_of_lexeme? hmatch
      have hless := Session.length_rest_past_prefix_lt hs hprefix hnumeral.solid.1
      exact absurd hless (hstuck _ (Session.onward_refl
        (Session.onward_past_prefix hs hprefix).inside))
  | list hparen =>
      obtain ⟨hrest, hitems⟩ := hparen
      have hne : s.rest ≠ [] := by simp [hrest]
      have h₁ := Session.onward_pastBlanks (Session.onward_past_one hs hne).inside
      have hless := (Session.onward_refl hs).length_rest_past_lt hne
      exact absurd hless (hstuck _ (h₁.trans (hitems.onward honward h₁.inside)))
  | placeholder hrest => exact .inr (by simp [hrest])
  | prefixed hrest _ hoperand =>
      have hne : s.rest ≠ [] := by simp [hrest]
      have h₁ := Session.onward_past_one hs hne
      have hless := (Session.onward_refl hs).length_rest_past_lt hne
      exact absurd hless (hstuck _ (honward _ _ _ hoperand h₁.inside))
  | call hkind hmatch hgiven =>
      have hprefix := Token.Kind.prefix_of_match? hmatch
      have h₁ := Session.onward_pastBlanks (Session.onward_past_prefix hs hprefix).inside
      have hless :=
        Session.length_rest_past_prefix_lt hs hprefix (Token.Kind.ne_nil_of_match? hmatch)
      exact absurd hless (hstuck _ (h₁.trans (hgiven.onward honward h₁.inside)))

/-- **An expression consumes nothing exactly at the end of the text, and in front of a comma** as
    long as levels are left. -/
theorem Reads.rest_eq_iff {levels : Nat} {s s' : Session} {g : Grouping Node}
    (h : Reads levels s g s') (hs : s.Inside) :
    s'.rest = s.rest ↔ s.rest = [] ∨ 0 < levels ∧ s.rest.head? = some ',' := by
  constructor
  · intro hstay
    cases levels with
    | zero =>
        obtain ⟨-, rfl⟩ := h
        exact .inl (hstay.symm.trans (Session.rest_abandon (s := s.begin) hs))
    | succ levels =>
        obtain ⟨first, s₁, s₂, hprimary, htail, rfl⟩ := h
        have honward : ∀ s g s', Reads levels s g s' → s.Inside → s.Onward s' :=
          fun _ _ _ => Reads.onward
        have h₁ := Session.onward_entered hs
        have h₂ := hprimary.onward honward h₁.inside
        have h₃ := h₂.pastBlanks
        have h₄ := htail.onward honward h₃.inside
        have hend : s₂.rest.length = s.rest.length := congrArg List.length hstay
        have hle₁ := h₁.length_rest_le
        have hle₂ := h₂.length_rest_le
        have hle₃ := (h₃.trans h₄).length_rest_le
        have hle₄ := ((Session.onward_pastBlanks h₂.inside).trans h₄).length_rest_le
        have hentered : s.entered.rest = s.rest := h₁.rest.eq_of_length (by omega)
        have hfirst : s₁.rest = s.entered.rest := h₂.rest.eq_of_length (by omega)
        have hwhere := hprimary.halts honward h₁.inside hfirst
        rw [hentered] at hwhere
        exact hwhere.imp_right fun hcomma => ⟨Nat.succ_pos levels, hcomma⟩
  · intro hwhere
    rcases hwhere with hnil | ⟨hpos, hcomma⟩
    · have hsuffix := (Reads.onward h hs).rest
      rw [hnil] at hsuffix ⊢
      exact List.suffix_nil.1 hsuffix
    · obtain ⟨levels, rfl⟩ := Nat.exists_eq_succ_of_ne_zero (Nat.ne_of_gt hpos)
      have hhead : ∀ c ∈ s.rest.head?, Cursor.isBlank c = false := by
        intro c hc
        obtain rfl : ',' = c := by simpa [hcomma] using hc
        decide
      have hentered : s.entered.rest = s.rest := by
        rw [Session.rest_entered hs, Text.behindBlanks_eq_self hhead]
      have hbehind : s.entered.pastBlanks.rest = s.rest := by
        rw [Session.rest_pastBlanks (Session.onward_entered hs).inside, hentered,
          Text.behindBlanks_eq_self hhead]
      obtain ⟨after, hafter⟩ := List.head?_eq_some_iff.1 hcomma
      have hread : Reads (levels + 1) s _ s.entered.pastBlanks.leave :=
        ⟨_, s.entered, _, .placeholder (hentered.trans hafter),
          .stop (noLink_of_comma (hbehind ▸ hcomma)), rfl⟩
      -- reading is a run of the rule, so there is only one way to read
      have hrun := (expression_follows (levels + 1)).run _ _ _ h hs
      rw [(expression_follows (levels + 1)).run _ _ _ hread hs] at hrun
      rw [← (Prod.mk.inj hrun).2]
      exact hbehind

/-! ## 5. The turns of a list -/

namespace Rule

/-- A turn that ends the items of a list, whatever the bound. -/
def EndsList (rule : Rule Node) (s : Session) (found : List Node) (s' : Session) : Prop :=
  ∀ bound, (items rule (bound + 1)).runOn s = (.ok found, s')

/-- A turn that finds an item of a list; the next turn begins in another session. -/
def GoesOn (rule : Rule Node) (s : Session) (item : Node) (t : Session) : Prop :=
  ∀ bound, (items rule (bound + 1)).runOn s = ((item :: ·) <$> items rule bound).runOn t

/-- **Each turn of a list ends it or leaves less of the text for the next one**, although the item
    in it may have consumed nothing. -/
theorem items_turn {rule : Rule Node} {inner : Reading} (hrule : rule.Follows inner) {s : Session}
    (hs : s.Inside) :
    (∃ found s', rule.EndsList s found s') ∨
      ∃ item t, rule.GoesOn s item t ∧ t.Inside ∧ t.rest.length < s.rest.length := by
  by_cases hrest : s.rest = []
  · exact .inl ⟨_, _, fun bound => runOn_items_nil rule hs hrest _⟩
  obtain ⟨g, s₁, hitem⟩ := hrule.total s hs
  have h₁ := (hrule.onward _ _ _ hitem hs).pastBlanks
  have hfound := hrule.run _ _ _ hitem hs
  cases hnext : s₁.pastBlanks.rest with
  | nil =>
      refine .inr ⟨g.node s₁.source, _, fun bound => ?_, h₁.inside, ?_⟩
      · simp [items, runOn_bind, runOn_atEnd hs, hrest, hfound, runOn_peek h₁.inside, hnext]
      · rw [hnext]
        exact List.length_pos_iff.2 hrest
  | cons c after =>
      have hne : s₁.pastBlanks.rest ≠ [] := by simp [hnext]
      have h₂ := h₁.past_one hne
      have hpass := runOn_pass_one h₁.inside hne
      have hless := h₁.length_rest_past_lt hne
      by_cases hcomma : c = ','
      · subst hcomma
        have h₃ := Session.onward_pastBlanks h₂.inside
        refine .inr ⟨g.node s₁.source, _, fun bound => ?_, h₃.inside,
          Nat.lt_of_le_of_lt h₃.length_rest_le hless⟩
        simp [items, runOn_bind, runOn_atEnd hs, hrest, hfound, runOn_peek h₁.inside, hnext, hpass]
      by_cases hclose : c = ')'
      · subst hclose
        refine .inl ⟨[g.node s₁.source], s₁.pastBlanks.past 1, fun bound => ?_⟩
        simp [items, runOn_bind, runOn_atEnd hs, hrest, hfound, runOn_peek h₁.inside, hnext, hpass,
          Except.map]
      have h₃ := h₁.note .invalidInList
      have hpass' := runOn_pass_one h₃.inside hne
      refine .inr ⟨g.node s₁.source, _, fun bound => ?_, (h₃.past_one hne).inside, hless⟩
      simp [items, runOn_bind, runOn_atEnd hs, hrest, hfound, runOn_peek h₁.inside, hnext, hpass',
        hcomma, hclose]

end Rule

/-! ## 6. Whole texts -/

theorem Session.begun_finished (s : Session) : s.finished.begun = s.begun := by
  unfold finished
  split <;> rfl

/-- In a text at most one expression more is begun than it has characters, each further on than the
    one before, and the tree has at most two nodes for each character and one. -/
theorem exists_parse_linear (limit : NestingLimit) (source : Text) :
    ∃ p, parse ⟨limit, Dialect.standard⟩ source = .ok p ∧
      p.session.begun.Pairwise (· > ·) ∧
      (∀ i ∈ p.session.begun, 0 ≤ i ∧ i ≤ source.length) ∧
      p.session.begun.length ≤ source.length + 1 ∧
      p.root.walk.length ≤ 2 * source.length + 1 := by
  obtain ⟨g, s', hreads, hparse⟩ := exists_parse limit source
  have hs := Session.inside_start source
  obtain ⟨calls, hcalls⟩ := Reads.costs limit.levels _ _ _ hreads hs
  have hbegun : s'.finished.begun = calls ++ [0] := s'.begun_finished.trans hcalls.begun
  have hend : s'.location.offset + s'.rest.length = source.length := by
    have hstop := Session.Inside.offset_add_length hcalls.onward.inside
    rwa [hcalls.onward.source] at hstop
  have hwithin : ∀ i ∈ calls, 0 < i ∧ i ≤ s'.location.offset := hcalls.within
  have hlater : (calls ++ [0]).Pairwise (· > ·) := by
    refine List.pairwise_append.2 ⟨hcalls.later, List.pairwise_singleton _ _, fun i hi j hj => ?_⟩
    obtain rfl := List.mem_singleton.1 hj
    exact (hwithin i hi).1
  have hplaces : ∀ i ∈ calls ++ [(0 : Int)], 0 ≤ i ∧ i ≤ source.length := by
    intro i hi
    rcases List.mem_append.1 hi with hi | hi
    · have hi := hwithin i hi
      omega
    · obtain rfl := List.mem_singleton.1 hi
      omega
  refine ⟨_, hparse, hbegun ▸ hlater, hbegun ▸ hplaces, ?_, ?_⟩
  · have hlength : (calls ++ [(0 : Int)]).length ≤ ((source.length : Int) + 1).toNat :=
      length_le_of_descending hlater fun i hi => by
        have hi := hplaces i hi
        omega
    show s'.finished.begun.length ≤ _
    rw [hbegun]
    omega
  · rw [Node.length_walk]
    have hpaid : (g.node s'.source).count + 2 * s'.rest.length ≤ 2 * source.length + 1 :=
      hcalls.paid
    exact Nat.le_trans (Nat.le_add_right _ _) hpaid

/-- **Parsing ends, and the work is linear in the text.** For every text and limit there is a tree;
    the expressions begun on the way are begun each further on than the one before, so they are at
    most one more than the characters, and a walk meets at most two nodes for each character and one
    more. And wherever a rule is called in a text: what an expression begins inside it is begun
    further on, each behind the one before; it consumes nothing exactly at the end of the text and,
    while levels are left, in front of a comma; a turn of a list ends the list or leaves less of the
    text to the next turn, so the list ends by itself under every bound that is large enough. -/
theorem parse_linear :
    (∀ (limit : NestingLimit) (source : Text), ∃ p,
      parse ⟨limit, Dialect.standard⟩ source = .ok p ∧
        p.session.begun.Pairwise (· > ·) ∧
        (∀ i ∈ p.session.begun, 0 ≤ i ∧ i ≤ source.length) ∧
        p.session.begun.length ≤ source.length + 1 ∧
        p.root.walk.length ≤ 2 * source.length + 1) ∧
      ∀ (levels : Nat) (s : Session), s.Inside →
        (∃ node calls s', (Rule.expression Dialect.standard levels).runOn s = (.ok node, s') ∧
          s'.begun = calls ++ s.location.offset :: s.begun ∧
          calls.Pairwise (· > ·) ∧
          (∀ i ∈ calls, s.location.offset < i ∧ i ≤ s'.location.offset) ∧
          (s'.rest = s.rest ↔ s.rest = [] ∨ 0 < levels ∧ s.rest.head? = some ',')) ∧
        ((∃ found s', (Rule.expression Dialect.standard levels).EndsList s found s') ∨
          ∃ item t, (Rule.expression Dialect.standard levels).GoesOn s item t ∧ t.Inside ∧
            t.rest.length < s.rest.length) ∧
        ∃ found s', ∀ bound, s.rest.length ≤ bound →
          (Rule.items (Rule.expression Dialect.standard levels) bound).runOn s =
            (.ok found, s') := by
  refine ⟨exists_parse_linear, fun levels s hs => ⟨?_, ?_, ?_⟩⟩
  · obtain ⟨g, s', hreads⟩ := (expression_follows levels).total s hs
    obtain ⟨calls, hcalls⟩ := Reads.costs levels _ _ _ hreads hs
    exact ⟨_, calls, s', (expression_follows levels).run _ _ _ hreads hs, hcalls.begun,
      hcalls.later, hcalls.within, hreads.rest_eq_iff hs⟩
  · exact Rule.items_turn (expression_follows levels) hs
  · obtain ⟨found, s', hitems⟩ := Reading.exists_items (expression_follows levels) hs
    exact ⟨found, s', Rule.runOn_items (expression_follows levels) hitems hs⟩

/-- In front of a comma an expression consumes nothing. -/
theorem parse_linear_comma :
    ((Rule.expression Dialect.standard 3).runOn (Session.start ",1".toList)).2.rest =
      ",1".toList := by
  obtain ⟨-, hcalls⟩ := parse_linear
  obtain ⟨⟨node, calls, s', hrun, -, -, -, hstay⟩, -⟩ :=
    hcalls 3 _ (Session.inside_start ",1".toList)
  rw [hrun]
  exact hstay.2 (.inr ⟨by decide, rfl⟩)

end Reckoner
