import Mathlib.Tactic.Ring
import Reckoner.Proofs.Stretch

/-!
# The height of trees

The nesting limit counts expressions that are open at a time, not the nodes above one another:
regrouping puts the first operand of a chain below all its symbols, and that operand may be nested
as deeply as the chain is long. What the limit leaves is a bound on the height all the same.

* `Node.Path`, `Node.Low`, `Node.Reaches` -- the paths from a node down to its leaves, a bound on
  their nodes, and that there is one of so many nodes;
* `Text.height` -- the height that a number of levels allows while the text is not given up; where
  it is given up one node is added;
* `Reads.low`, `Reads.low_of_not_abandoned` -- no tree is higher than that;
* `Text.tower`, `Text.sums` -- a text that reaches the bound: at each level a chain as long as the
  levels allow behind a function over a list;
* `parse_height` -- so the bound holds of every text and cannot be lowered.
-/

namespace Reckoner

/-! ## 1. Paths -/

namespace Node

/-- The nodes from a node down to a leaf. -/
inductive Path : Node → List Node → Prop where
  | leaf {n : Node} (hleaf : n.children = []) : Path n [n]
  | step {n child : Node} {path : List Node} (hchild : child ∈ n.children) (h : Path child path) :
      Path n (n :: path)

/-- No path down from the node has more nodes than the bound. -/
def Low (bound : Nat) (n : Node) : Prop := ∀ path, n.Path path → path.length ≤ bound

/-- A path down from the node has so many nodes. -/
def Reaches (length : Nat) (n : Node) : Prop := ∃ path, n.Path path ∧ path.length = length

variable {n child : Node} {bound bound' length : Nat}

theorem Low.mono (h : n.Low bound) (hle : bound ≤ bound') : n.Low bound' :=
  fun path hpath => Nat.le_trans (h path hpath) hle

/-- A node is one higher than what hangs below it. -/
theorem low_succ (h : ∀ child ∈ n.children, child.Low bound) : n.Low (bound + 1) := by
  intro path hpath
  cases hpath with
  | leaf => exact Nat.le_add_left 1 bound
  | step hchild hbelow => exact Nat.succ_le_succ (h _ hchild _ hbelow)

theorem low_of_leaf (h : n.children = []) : n.Low (bound + 1) :=
  low_succ (by simp [h])

theorem reaches_leaf (h : n.children = []) : n.Reaches 1 := ⟨_, .leaf h, rfl⟩

theorem Reaches.step (h : child.Reaches length) (hchild : child ∈ n.children) :
    n.Reaches (length + 1) := by
  obtain ⟨path, hpath, rfl⟩ := h
  exact ⟨_, .step hchild hpath, rfl⟩

end Node

/-! ## 2. Groupings -/

namespace Grouping

/-- The height of the operands and the number of the symbols stay within a bound together. -/
def Low (bound : Nat) (g : Grouping Node) : Prop :=
  ∃ each, (∀ p ∈ g.chain.operands, p.Low each) ∧ each + g.chain.rest.length ≤ bound

/-- Every symbol adds one node at most, wherever it stands in the tree. -/
theorem Low.node {bound : Nat} {g : Grouping Node} (h : g.Low bound) (source : Text) :
    (g.node source).Low bound := by
  obtain ⟨each, hoperands, hle⟩ := h
  suffices hall : (g.node source).Low (each + g.chain.rest.length) from hall.mono hle
  clear hle
  induction g with
  | operand p => exact hoperands p List.mem_cons_self
  | join link left right ihl ihr =>
      simp only [chain, Chain.operands_append] at hoperands
      obtain ⟨hl, hr⟩ := List.forall_mem_append.1 hoperands
      have hlength : (join link left right).chain.rest.length =
          left.chain.rest.length + right.chain.rest.length + 1 := by
        simp only [chain, Chain.append, List.length_append, List.length_cons]
        omega
      have hboth : ∀ child ∈ (Node.joined source link (left.node source)
          (right.node source)).children,
          child.Low (each + (left.chain.rest.length + right.chain.rest.length)) := by
        simp only [Node.joined, Node.children_mk, List.forall_mem_cons]
        exact ⟨(ihl hl).mono (by omega), (ihr hr).mono (by omega), by simp⟩
      rw [hlength]
      exact Node.low_succ hboth

theorem Low.mono {bound bound' : Nat} {g : Grouping Node} (h : g.Low bound)
    (hle : bound ≤ bound') : g.Low bound' := by
  obtain ⟨each, hoperands, hsum⟩ := h
  exact ⟨each, hoperands, Nat.le_trans hsum hle⟩

theorem low_operand {bound : Nat} {p : Node} (h : p.Low bound) : (operand p).Low bound :=
  ⟨bound, by simpa [chain, Chain.single, Chain.operands] using h, Nat.le_refl _⟩

theorem length_settle (link : Link) (p : Node) (g : Grouping Node) :
    (settle link (.operand p) g).chain.rest.length = g.chain.rest.length + 1 := by
  rw [chain_settle]
  rfl

/-- With one more operand in front of it a grouping is higher by its symbols. -/
theorem Low.settle {bound : Nat} {p : Node} {g : Grouping Node} (hg : g.Low bound)
    (hp : p.Low bound) (link : Link) :
    (settle link (.operand p) g).Low (bound + (g.chain.rest.length + 1)) := by
  obtain ⟨each, hoperands, hsum⟩ := hg
  refine ⟨bound, ?_, by rw [length_settle]⟩
  rw [chain_settle]
  exact List.forall_mem_cons.2
    ⟨hp, fun q hq => (hoperands q hq).mono (Nat.le_trans (Nat.le_add_right _ _) hsum)⟩

end Grouping

/-! ## 3. What is read stays low -/

theorem Link.ne_nil_of_next? {t : Text} {link : Link} (h : next? t = some link) : t ≠ [] := by
  rintro rfl
  cases h

/-- The height that a number of levels allows as long as a text is not given up: the levels below,
    the symbols of a chain, and a function over a list. -/
def Text.height : Nat → Nat
  | 0 => 0
  | levels + 1 => height levels + levels + 2

/-- In closed form, one node more than is allowed without giving up. -/
theorem Text.height_succ_eq (levels : Nat) :
    Text.height levels + 1 = (levels + 1) * (levels + 2) / 2 := by
  have htwice : 2 * (Text.height levels + 1) = (levels + 1) * (levels + 2) := by
    induction levels with
    | zero => rfl
    | succ levels ih =>
        have hsplit : (levels + 1 + 1) * (levels + 1 + 2) =
            (levels + 1) * (levels + 2) + 2 * (levels + 2) := by ring
        rw [height, hsplit, ← ih]
        omega
  omega

namespace Reading

section Low

-- `kept` tells which readings are looked at: a part of such a reading is looked at as well
variable {inner : Reading} {s s' : Session} {bound : Nat} (kept : Session → Prop)
  (hkept : ∀ s s', s.Stretch s' → kept s' → kept s)
  (hstretch : ∀ s g s', inner s g s' → s.Stretch s')
  (hinner : ∀ s g s', inner s g s' → s.Inside → s.Spent → kept s' →
    ∀ source, (g.node source).Low bound)

include hkept hstretch hinner

/-- An item and what follows it in a list. -/
theorem items_low_cons {g : Grouping Node} {s₁ t : Session} {nodes : List Node}
    (hitem : inner s g s₁) (hs : s.Inside) (hspent : s.Spent) (h₁ : s₁.Stretch t)
    (h' : t.Stretch s') (hend : kept s')
    (ih : t.Inside → t.Spent → ∀ n ∈ nodes, n.Low bound) :
    ∀ n ∈ g.node s₁.source :: nodes, n.Low bound := by
  have ht := (hstretch _ _ _ hitem).trans h₁
  have hfirst := hinner _ _ _ hitem hs hspent (hkept _ _ (h₁.trans h') hend) s₁.source
  exact List.forall_mem_cons.2
    ⟨hfirst, ih (Session.Stretch.onward ht hs).inside (Session.Stretch.spent ht hs hspent)⟩

theorem Items.low {nodes : List Node} (h : inner.Items s nodes s') (hs : s.Inside)
    (hspent : s.Spent) (hend : kept s') : ∀ n ∈ nodes, n.Low bound := by
  induction h with
  | givenUp => simp
  | unclosed => simp
  | comma _ hitem hnext hitems ih =>
      refine items_low_cons kept hkept hstretch hinner hitem hs hspent ?_
        (hitems.stretch hstretch) hend fun ht hspent' => ih ht hspent' hend
      exact .head (.pastBlanks _) (.head (.past_one hnext) (.single (.pastBlanks _)))
  | closed _ hitem hnext =>
      refine items_low_cons kept hkept hstretch hinner hitem hs hspent ?_ .refl hend (by simp)
      exact .head (.pastBlanks _) (.single (.past_one hnext))
  | junk _ hitem hnext _ _ hitems ih =>
      refine items_low_cons kept hkept hstretch hinner hitem hs hspent ?_
        (hitems.stretch hstretch) hend fun ht hspent' => ih ht hspent' hend
      exact .head (.pastBlanks _) (.head (.misplaced hnext) (.single (.past_one hnext)))
  | ended _ hitem _ hitems ih =>
      exact items_low_cons kept hkept hstretch hinner hitem hs hspent (.single (.pastBlanks _))
        (hitems.stretch hstretch) hend fun ht hspent' => ih ht hspent' hend

theorem Paren.low {node : Node} (h : inner.Paren s node s') (hs : s.Inside) (hspent : s.Spent)
    (hend : kept s') : node.Low (bound + 1) := by
  obtain ⟨hrest, hitems⟩ := h
  have h₁ : s.Stretch (s.past 1).pastBlanks := .head (.past_one hrest) (.single (.pastBlanks _))
  exact Node.low_succ (hitems.low kept hkept hstretch hinner (Session.Stretch.onward h₁ hs).inside
    (Session.Stretch.spent h₁ hs hspent) hend)

theorem Arguments.low {node : Node} (h : inner.Arguments s node s') (hs : s.Inside)
    (hspent : s.Spent) (hend : kept s') : node.Low (bound + 1) := by
  cases h with
  | given hparen => exact hparen.low kept hkept hstretch hinner hs hspent hend
  | missing => exact Node.low_of_leaf rfl

/-- An operand is at most two nodes higher than the expressions inside it: a function and a list. -/
theorem Primary.low {node : Node} (h : inner.Primary s node s') (hs : s.Inside)
    (hspent : s.Spent) (hend : kept s') : node.Low (bound + 2) := by
  cases h with
  | list hparen =>
      exact (hparen.low kept hkept hstretch hinner hs hspent hend).mono (Nat.le_succ _)
  | @prefixed _ _ _ g hrest _ hoperand =>
      have h₁ : s.Stretch (s.past 1) := .single (.past_one hrest)
      have hbelow := hinner _ _ _ hoperand (Session.Stretch.onward h₁ hs).inside
        (Session.Stretch.spent h₁ hs hspent) hend s'.source
      refine Node.Low.mono ?_ (Nat.le_succ _)
      exact Node.low_succ (List.forall_mem_singleton.2 hbelow)
  | @call _ _ x _ _ hmatch hgiven =>
      have h₁ : s.Stretch (s.past x.length).pastBlanks :=
        .head (.past_lexeme (Token.Kind.prefix_of_match? hmatch)) (.single (.pastBlanks _))
      exact Node.low_succ (List.forall_mem_singleton.2 (hgiven.low kept hkept hstretch hinner
        (Session.Stretch.onward h₁ hs).inside (Session.Stretch.spent h₁ hs hspent) hend))
  | _ => exact Node.low_of_leaf rfl

end Low

end Reading

/-- A chain has no more symbols than there are levels. -/
theorem Reads.length_le {levels : Nat} {s s' : Session} {g : Grouping Node}
    (h : Reads levels s g s') : g.chain.rest.length ≤ levels := by
  induction levels generalizing s g s' with
  | zero =>
      obtain ⟨rfl, -⟩ := h
      exact Nat.le_refl 0
  | succ levels ih =>
      obtain ⟨first, s₁, s₂, -, htail, rfl⟩ := h
      cases htail with
      | stop => exact Nat.zero_le _
      | link _ hright =>
          rw [Grouping.length_settle]
          exact Nat.succ_le_succ (ih hright)

/-- While a text is not given up no chain uses the last level: an operand stands behind its last
    symbol. -/
theorem Reads.length_lt {levels : Nat} {s s' : Session} {g : Grouping Node}
    (h : Reads levels s g s') (hnot : s'.abandoned = false) : g.chain.rest.length < levels := by
  induction levels generalizing s g s' with
  | zero =>
      obtain ⟨-, rfl⟩ := h
      cases hnot
  | succ levels ih =>
      obtain ⟨first, s₁, s₂, -, htail, rfl⟩ := h
      cases htail with
      | stop => exact Nat.succ_pos levels
      | link _ hright =>
          rw [Grouping.length_settle]
          exact Nat.succ_le_succ (ih hright hnot)

/-- **A text that is not given up is no higher than its levels allow.** -/
theorem Reads.low_of_not_abandoned {levels : Nat} {s s' : Session} {g : Grouping Node}
    (h : Reads levels s g s') (hs : s.Inside) (hspent : s.Spent) (hnot : s'.abandoned = false) :
    g.Low (Text.height levels) := by
  induction levels generalizing s g s' with
  | zero =>
      obtain ⟨-, rfl⟩ := h
      cases hnot
  | succ levels ih =>
      obtain ⟨first, s₁, s₂, hprimary, htail, rfl⟩ := h
      have hstretch : ∀ s g s', Reads levels s g s' → s.Stretch s' := fun _ _ _ => Reads.stretch
      have hentered : s.Stretch s.entered := Session.stretch_entered s
      have hnot₁ : s₁.abandoned = false := (htail.stretch hstretch).abandoned hnot
      have hfirst : first.Low (Text.height levels + 2) :=
        hprimary.low (·.abandoned = false) (fun _ _ => Session.Stretch.abandoned) hstretch
          (fun _ _ _ hin hs hspent hnot source => (ih hin hs hspent hnot).node source)
          (Session.onward_entered hs).inside (hentered.spent hs hspent) hnot₁
      cases htail with
      | stop => exact (Grouping.low_operand hfirst).mono (by rw [Text.height]; omega)
      | link hnext hright =>
          have h₁ := (hentered.trans (hprimary.stretch hstretch)).trans
            (.head (.pastBlanks s₁) (.single (.past_lexeme (Link.symbol_prefix_of_next? hnext))))
          have hg := ih hright (Session.Stretch.onward h₁ hs).inside
            (Session.Stretch.spent h₁ hs hspent) hnot
          have hlength := Reads.length_lt hright hnot
          exact ((hg.mono (Nat.le_add_right _ 2)).settle hfirst _).mono (by rw [Text.height]; omega)

/-- **Giving up makes a tree one node higher at most.** -/
theorem Reads.low {levels : Nat} {s s' : Session} {g : Grouping Node}
    (h : Reads levels s g s') (hs : s.Inside) (hspent : s.Spent) :
    g.Low (Text.height levels + 1) := by
  induction levels generalizing s g s' with
  | zero =>
      obtain ⟨rfl, -⟩ := h
      exact Grouping.low_operand (Node.low_of_leaf rfl)
  | succ levels ih =>
      obtain ⟨first, s₁, s₂, hprimary, htail, rfl⟩ := h
      have hstretch : ∀ s g s', Reads levels s g s' → s.Stretch s' := fun _ _ _ => Reads.stretch
      have hentered : s.Stretch s.entered := Session.stretch_entered s
      have h₁ := (Session.onward_entered hs).inside
      have hspent₁ := hentered.spent hs hspent
      cases htail with
      | stop =>
          have hfirst : first.Low (Text.height levels + 1 + 2) :=
            hprimary.low (fun _ => True) (fun _ _ _ _ => trivial) hstretch
              (fun _ _ _ hin hs hspent _ source => (ih hin hs hspent).node source)
              h₁ hspent₁ trivial
          exact (Grouping.low_operand hfirst).mono (by rw [Text.height]; omega)
      | link hnext hright =>
          -- a symbol follows the first operand, so the text was not given up inside that one
          have hnot : s₁.pastBlanks.abandoned = false :=
            (Session.Stretch.spent ((hprimary.stretch hstretch).tail (.pastBlanks _)) h₁
              hspent₁).not_abandoned (Link.ne_nil_of_next? hnext)
          have hfirst : first.Low (Text.height levels + 2) :=
            hprimary.low (·.abandoned = false) (fun _ _ => Session.Stretch.abandoned) hstretch
              (fun _ _ _ hin hs hspent hnot source =>
                (hin.low_of_not_abandoned hs hspent hnot).node source)
              h₁ hspent₁ hnot
          have h₂ := (hentered.trans (hprimary.stretch hstretch)).trans
            (.head (.pastBlanks s₁) (.single (.past_lexeme (Link.symbol_prefix_of_next? hnext))))
          have hg := ih hright (Session.Stretch.onward h₂ hs).inside
            (Session.Stretch.spent h₂ hs hspent)
          have hlength := Reads.length_le hright
          exact ((hg.mono (Nat.le_succ _)).settle hfirst _).mono (by rw [Text.height]; omega)

/-! ## 4. Texts that reach the bound -/

/-- The symbol of a sum. -/
def Link.plus : Link := ⟨['+'], by decide⟩

namespace Grouping

/-- The operand that comes first stands below so many sums. -/
inductive Under (p : Node) : Nat → Grouping Node → Prop where
  | operand : Under p 0 (.operand p)
  | sum {sums : Nat} {left right : Grouping Node} (h : Under p sums left) :
      Under p (sums + 1) (.join .plus left right)

/-- Sums take their operands from the left, so one more of them moves the first operand down. -/
theorem Under.settle {p q : Node} {sums : Nat} {g : Grouping Node} (h : Under q sums g) :
    Under p (sums + 1) (settle .plus (.operand p) g) := by
  induction h with
  | operand => exact .sum .operand
  | sum _ ih =>
      rw [Grouping.settle, if_neg (Nat.lt_irrefl _)]
      exact ih.sum

theorem Under.reaches {p : Node} {sums length : Nat} {g : Grouping Node} (h : Under p sums g)
    (hp : p.Reaches length) (source : Text) : (g.node source).Reaches (length + sums) := by
  induction h with
  | operand => exact hp
  | sum _ ih => exact ih.step List.mem_cons_self

end Grouping

namespace Text

/-- So many ones to be added to what stands in front of the text. -/
def sums : Nat → Text → Text
  | 0, after => after
  | count + 1, after => '+' :: '1' :: sums count after

/-- A function, and as long as levels are left a list behind it with a tower and sums inside. -/
def tower : Nat → Text → Text
  | 0, after => "abs".toList ++ after
  | levels + 1, after => "abs".toList ++ '(' :: tower levels (sums levels (')' :: after))

/-- A sum goes on, or a list ends. -/
def Halts (t : Text) : Prop := t.head? = some '+' ∨ t.head? = some ')'

variable {after : Text} {levels : Nat}

theorem Halts.sums (h : after.Halts) : ∀ count, (after.sums count).Halts
  | 0 => h
  | _ + 1 => .inl rfl

theorem Halts.forall_head {P : Char → Prop} (h : after.Halts) (hplus : P '+') (hclose : P ')') :
    ∀ c ∈ after.head?, P c := by
  intro c hc
  rcases h with h | h
  · obtain rfl := Option.mem_unique hc h
    exact hplus
  · obtain rfl := Option.mem_unique hc h
    exact hclose

/-- Nothing is skipped in front of it. -/
theorem Halts.behindBlanks (h : after.Halts) : after.behindBlanks = after :=
  behindBlanks_eq_self (h.forall_head (by decide) (by decide))

theorem Halts.breaks (h : after.Halts) : after.Breaks :=
  h.forall_head (by decide) (by decide)

theorem tower_ne_nil : after.tower levels ≠ [] := by
  cases levels <;> simp [tower]

theorem behindBlanks_tower : (after.tower levels).behindBlanks = after.tower levels := by
  cases levels with
  | zero => rfl
  | succ levels => rfl

end Text

section Exact

variable {last : Nat} {after left : Text}

/-- Behind an operand there are so many sums, and then perhaps a last one. -/
theorem exists_sums (hafter : after.Halts)
    (hlast : ∀ (s : Session) (first : Node), s.Inside → s.rest = after →
      ∃ g s', (Reads 0).Tail s first g s' ∧ s'.rest = left ∧ g.Under first last) :
    ∀ (levels : Nat) (s : Session) (first : Node), s.Inside → s.rest = after.sums levels →
      ∃ g s', (Reads levels).Tail s first g s' ∧ s'.rest = left ∧
        g.Under first (last + levels) := by
  intro levels
  induction levels with
  | zero => exact hlast
  | succ levels ih =>
      intro s first hs hrest
      have hnext : Link.next? s.rest = some .plus := by
        rw [hrest]
        exact Link.plus.next?_append (t := '1' :: after.sums levels) (by simp)
      have hs₁ : (s.past 1).Inside :=
        (Session.onward_past_one hs (by simp [hrest, Text.sums])).inside
      have hs₂ := (Session.onward_entered hs₁).inside
      have hentered : (s.past 1).entered.rest = '1' :: after.sums levels := by
        rw [Session.rest_entered hs₁, Session.rest_past_one hs hrest]
        rfl
      have hnumber : Numeral.lexeme? (s.past 1).entered.rest = some ['1'] := by
        rw [hentered]
        exact Numeral.lexeme?_append (x := ['1'])
          (Numeral.isNumeral_of_lexeme? (t := ['1']) (by decide)).1 (hafter.sums levels).breaks
      have hs₃ := Session.onward_past_one hs₂ (by simp [hentered])
      have hbehind : ((s.past 1).entered.past 1).rest = after.sums levels :=
        Session.rest_past_one hs₂ hentered
      have hself : ((s.past 1).entered.past 1).pastBlanks.rest = after.sums levels := by
        rw [Session.rest_pastBlanks hs₃.inside, hbehind]
        exact (hafter.sums levels).behindBlanks
      obtain ⟨g, s', htail, hleft, hunder⟩ := ih _ _ hs₃.pastBlanks.inside hself
      exact ⟨_, _, .link hnext ⟨_, _, _, .number hnumber, htail, rfl⟩, hleft, hunder.settle⟩

/-- What stands in a tower at a level, read if the tower below is. -/
theorem exists_level {levels : Nat}
    (htower : ∀ (s : Session) (after : Text), s.Inside → s.rest = after.tower levels → after.Halts →
      ∃ node s', (Reads levels).Primary s node s' ∧ s'.rest = after ∧
        node.Reaches (Text.height levels + 2))
    (hafter : after.Halts)
    (hlast : ∀ (s : Session) (first : Node), s.Inside → s.rest = after →
      ∃ g s', (Reads 0).Tail s first g s' ∧ s'.rest = left ∧ g.Under first last)
    {s : Session} (hs : s.Inside) (hrest : s.rest = (after.sums levels).tower levels) :
    ∃ g s', Reads (levels + 1) s g s' ∧ s'.rest = left ∧
      ∀ source, (g.node source).Reaches (Text.height (levels + 1) + last) := by
  have h₁ := Session.onward_entered hs
  have hentered : s.entered.rest = (after.sums levels).tower levels := by
    rw [Session.rest_entered hs, hrest, Text.behindBlanks_tower]
  obtain ⟨first, s₁, hprimary, hbehind, hreaches⟩ :=
    htower _ _ h₁.inside hentered (hafter.sums levels)
  have h₂ := hprimary.onward (fun _ _ _ => Reads.onward) h₁.inside
  have hself : s₁.pastBlanks.rest = after.sums levels := by
    rw [Session.rest_pastBlanks h₂.inside, hbehind]
    exact (hafter.sums levels).behindBlanks
  obtain ⟨g, s', htail, hleft, hunder⟩ :=
    exists_sums hafter hlast levels _ first h₂.pastBlanks.inside hself
  refine ⟨g, _, ⟨first, s₁, s', hprimary, htail, rfl⟩, hleft, fun source => ?_⟩
  have hsum : Text.height (levels + 1) + last = Text.height levels + 2 + (last + levels) := by
    rw [Text.height]
    omega
  rw [hsum]
  exact hunder.reaches hreaches source

/-- In front of the end of a list no sum goes on. -/
theorem exists_no_sum (s : Session) (first : Node) (_ : s.Inside) (hrest : s.rest = ')' :: after) :
    ∃ g s', (Reads 0).Tail s first g s' ∧ s'.rest = ')' :: after ∧ g.Under first 0 :=
  ⟨_, s, .stop (by rw [hrest]; rfl), hrest, .operand⟩

/-- A last symbol with nothing behind it, for which no level is left. -/
theorem exists_last_sum (s : Session) (first : Node) (hs : s.Inside) (hrest : s.rest = ['+']) :
    ∃ g s', (Reads 0).Tail s first g s' ∧ s'.rest = [] ∧ g.Under first 1 := by
  have hnext : Link.next? s.rest = some .plus := by
    rw [hrest]
    exact Link.plus.next?_append (t := []) (by simp)
  have h₁ := Session.onward_past_prefix hs (Link.symbol_prefix_of_next? hnext)
  exact ⟨_, _, .link hnext ⟨rfl, rfl⟩, Session.rest_abandon (Session.onward_begin h₁.inside).inside,
    .sum .operand⟩

theorem exists_tower (levels : Nat) : ∀ (s : Session) (after : Text), s.Inside →
    s.rest = after.tower levels → after.Halts →
      ∃ node s', (Reads levels).Primary s node s' ∧ s'.rest = after ∧
        node.Reaches (Text.height levels + 2) := by
  have hname : "abs".toList ∈ Keyword.unary := by decide
  induction levels with
  | zero =>
      intro s after hs hrest hafter
      have hmatch : Token.Kind.unaryFunction.match? s.rest = some "abs".toList := by
        rw [hrest]
        exact Keyword.match?_append (fun _ => List.mem_append_right _) hname hafter.breaks
      have h₁ := Session.onward_past_prefix hs (Token.Kind.prefix_of_match? hmatch)
      have hself : (s.past "abs".toList.length).pastBlanks.rest = after := by
        rw [Session.rest_pastBlanks h₁.inside, Session.rest_past_append hs hrest]
        exact hafter.behindBlanks
      have hmissing : (s.past "abs".toList.length).pastBlanks.rest.head? ≠ some '(' := by
        rw [hself]
        exact fun hopen => hafter.forall_head (P := (· ≠ '(')) (by decide) (by decide) _ hopen rfl
      exact ⟨_, _, .call rfl hmatch (.missing hmissing), hself,
        (Node.reaches_leaf rfl).step List.mem_cons_self⟩
  | succ levels ih =>
      intro s after hs hrest hafter
      have hmatch : Token.Kind.unaryFunction.match? s.rest = some "abs".toList := by
        rw [hrest]
        exact Keyword.match?_append (fun _ => List.mem_append_right _) hname
          fun c hc => by obtain rfl := Option.mem_unique hc rfl; decide
      have h₁ := Session.onward_past_prefix hs (Token.Kind.prefix_of_match? hmatch)
      have hopen : (s.past "abs".toList.length).pastBlanks.rest =
          '(' :: (Text.sums levels (')' :: after)).tower levels := by
        rw [Session.rest_pastBlanks h₁.inside, Session.rest_past_append hs hrest]
        rfl
      have h₂ := h₁.pastBlanks.past_one (hopen ▸ List.cons_ne_nil _ _)
      have hitems : ((s.past "abs".toList.length).pastBlanks.past 1).pastBlanks.rest =
          (Text.sums levels (')' :: after)).tower levels := by
        rw [Session.rest_pastBlanks h₂.inside, Session.rest_past_one h₁.pastBlanks.inside hopen,
          Text.behindBlanks_tower]
      obtain ⟨g, s₁, hitem, hclose, hreaches⟩ :=
        exists_level ih (.inr rfl) exists_no_sum h₂.pastBlanks.inside hitems
      have h₃ := Reads.onward hitem h₂.pastBlanks.inside
      have hlast : s₁.pastBlanks.rest = ')' :: after := by
        rw [Session.rest_pastBlanks h₃.inside, hclose]
        rfl
      have hparen := Reading.Paren.list hopen
        (.closed (by rw [hitems]; exact Text.tower_ne_nil) hitem hlast)
      refine ⟨_, _, .call rfl hmatch (.given hparen),
        Session.rest_past_one h₃.pastBlanks.inside hlast, ?_⟩
      exact ((hreaches s₁.source).step List.mem_cons_self).step List.mem_cons_self

end Exact

/-- **The nesting limit alone bounds the height of a tree, and the bound is reached**: no path down
    a tree has more nodes than the numbers up to one more than the limit add up to, and for every
    limit some text has a path of just so many. -/
theorem parse_height (limit : NestingLimit) :
    (∀ source, ∃ p, parse ⟨limit, Dialect.standard⟩ source = .ok p ∧
      ∀ path, p.root.Path path → path.length ≤ (limit.levels + 1) * (limit.levels + 2) / 2) ∧
    ∃ source p, parse ⟨limit, Dialect.standard⟩ source = .ok p ∧
      ∃ path, p.root.Path path ∧ path.length = (limit.levels + 1) * (limit.levels + 2) / 2 := by
  rw [← Text.height_succ_eq]
  constructor
  · intro source
    obtain ⟨g, s', h, hparse⟩ := exists_parse limit source
    have hlow := h.low (Session.inside_start source) (Session.untroubled_start source).spent
    exact ⟨_, hparse, hlow.node s'.source⟩
  · obtain ⟨levels, hlevels⟩ := Nat.exists_eq_succ_of_ne_zero (Nat.ne_of_gt limit.levels_pos)
    have hs := Session.inside_start ((Text.sums levels ['+']).tower levels)
    obtain ⟨g, s', h, -, hreaches⟩ :=
      exists_level (exists_tower levels) (.inl rfl) exists_last_sum hs rfl
    rw [show levels + 1 = limit.levels from hlevels.symm] at h hreaches
    exact ⟨_, _, parse_eq h, hreaches s'.source⟩

end Reckoner
