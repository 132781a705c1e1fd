import Reckoner.Proofs.Joined
import Reckoner.Proofs.Position
import Reckoner.Proofs.Throughout

/-!
# The operators of a tree in the order of the text

A walk meets a node before its children, and regrouping changes which operator stands above which.
The symbols of the operators stand in the text in one order all the same.

* `Node.operators` -- the operator nodes of a tree, an infix node behind its first operand;
  `Node.mem_operators` -- they are those of a walk;
* `Node.operatorToken` -- the symbol of such a node and the place where it stands;
* `Grouping.operatorTokens_settle` -- regrouping keeps these tokens and their order;
* `Token.Lined` -- tokens stand in a text one behind the other between two places;
  `Node.exists_first_operator` -- so the first of the operators is the one in front of the others.
-/

namespace Reckoner

/-! ## 1. Operator nodes -/

namespace Node

/-- A node that stands for a symbol in the text. -/
def IsOperator (n : Node) : Prop := n.kind = .infixOp ∨ n.kind = .prefixOp

instance : DecidablePred IsOperator := fun _ => inferInstanceAs (Decidable (_ ∨ _))

/-- An operator node among what hangs below each of its children: a sign in front of it, an infix
    operator behind what hangs below the first one. Any other node is left out. -/
def arrange (n : Node) (below : List (List Node)) : List Node :=
  if n.kind = .infixOp then (below.take 1).flatten ++ n :: (below.drop 1).flatten
  else if n.kind = .prefixOp then n :: below.flatten
  else below.flatten

mutual

/-- The operator nodes of a tree in the order of their symbols. -/
def operators : Node → List Node
  | .mk label children => arrange (.mk label children) (operatorsEach children)

/-- The same for each of some trees. -/
def operatorsEach : List Node → List (List Node)
  | [] => []
  | node :: rest => node.operators :: operatorsEach rest

end

theorem operatorsEach_eq_map (nodes : List Node) : operatorsEach nodes = nodes.map operators := by
  induction nodes with
  | nil => rfl
  | cons node rest ih => rw [operatorsEach, ih, List.map_cons]

variable {n m : Node} {label : Label} {children : List Node}

theorem mem_arrange {below : List (List Node)} :
    m ∈ arrange n below ↔ m = n ∧ n.IsOperator ∨ m ∈ below.flatten := by
  have hparts : below.flatten = (below.take 1).flatten ++ (below.drop 1).flatten := by
    rw [← List.flatten_append, List.take_append_drop]
  unfold arrange IsOperator
  by_cases hbinary : n.kind = .infixOp
  · rw [if_pos hbinary, hparts]
    simp only [List.mem_append, List.mem_cons, hbinary, true_or, and_true]
    exact or_left_comm
  · rw [if_neg hbinary]
    by_cases hsign : n.kind = .prefixOp
    · rw [if_pos hsign]
      simp [hsign]
    · rw [if_neg hsign]
      simp [hbinary, hsign]

mutual

/-- **The operators of a tree are those that a walk meets.** -/
theorem mem_operators : ∀ n : Node, m ∈ n.operators ↔ m ∈ n.walk ∧ m.IsOperator
  | .mk label children => by
      rw [operators, mem_arrange, mem_operatorsEach children, walk_mk, List.mem_cons, or_and_right]
      exact or_congr_left (and_congr_right fun h => by rw [h])

theorem mem_operatorsEach :
    ∀ nodes : List Node, m ∈ (operatorsEach nodes).flatten ↔ m ∈ drain nodes ∧ m.IsOperator
  | [] => by simp [operatorsEach, drain]
  | node :: rest => by
      rw [operatorsEach, List.flatten_cons, List.mem_append, mem_operators node,
        mem_operatorsEach rest, drain_cons, List.mem_append, or_and_right]

end

/-! ## 2. Their symbols -/

/-- The symbol of an operator. -/
def symbol (n : Node) : Text := n.label.symbol?.getD []

/-- Where the symbol stands: a sign where its node starts, an infix symbol behind the blanks that
    follow its first operand. -/
def symbolLocation (source : Text) (n : Node) : Location :=
  match n.kind, n.children with
  | .infixOp, first :: _ => (Cursor.mk source first.span.stop).skipBlanks.location
  | _, _ => n.span.start

/-- The token that an operator node was made from. -/
def operatorToken (source : Text) (n : Node) : Token where
  kind := if n.kind = .infixOp then .infixOp else .prefixOp
  lexeme := n.symbol
  location := n.symbolLocation source

/-- The tokens of the operators of a tree in the order of the text. -/
def operatorTokens (source : Text) (n : Node) : List Token :=
  n.operators.map (operatorToken source)

variable {source : Text}

theorem operatorTokens_of_not (hnot : ¬ (mk label children).IsOperator) :
    (mk label children).operatorTokens source = children.flatMap (operatorTokens source) := by
  obtain ⟨hbinary, hsign⟩ := not_or.1 hnot
  rw [operatorTokens, operators, arrange, if_neg hbinary, if_neg hsign, operatorsEach_eq_map,
    List.map_flatten, List.map_map]
  rfl

theorem operatorTokens_sign {child : Node} (hkind : label.kind = .prefixOp) :
    (mk label [child]).operatorTokens source =
      ⟨.prefixOp, label.symbol?.getD [], label.span.start⟩ :: child.operatorTokens source := by
  have hsign : (mk label [child]).kind = .prefixOp := hkind
  have htoken : (mk label [child]).operatorToken source =
      ⟨.prefixOp, label.symbol?.getD [], label.span.start⟩ := by
    unfold operatorToken symbolLocation
    rw [hsign]
    rfl
  rw [operatorTokens, operators, arrange, if_neg (by rw [hsign]; decide), if_pos hsign,
    List.map_cons, htoken, operatorsEach, operatorsEach, List.flatten_singleton]
  rfl

theorem operatorTokens_joined (source : Text) (link : Link) (first second : Node) :
    (joined source link first second).operatorTokens source = first.operatorTokens source ++
      ⟨.infixOp, link.symbol, (Cursor.mk source first.span.stop).skipBlanks.location⟩ ::
        second.operatorTokens source := by
  have hkind : (joined source link first second).kind = .infixOp := rfl
  have htoken : (joined source link first second).operatorToken source =
      ⟨.infixOp, link.symbol, (Cursor.mk source first.span.stop).skipBlanks.location⟩ := rfl
  rw [joined] at hkind htoken ⊢
  rw [operatorTokens, operators, arrange, if_pos hkind, List.map_append, List.map_cons, htoken]
  simp [operatorsEach, operatorTokens]

end Node

/-- **Regrouping keeps the operators in the order of the text**, each with its place. -/
theorem Grouping.operatorTokens_settle (source : Text) (link : Link) (p : Node)
    (g : Grouping Node) :
    ((settle link (.operand p) g).node source).operatorTokens source =
      p.operatorTokens source ++
        ⟨.infixOp, link.symbol, (Cursor.mk source p.span.stop).skipBlanks.location⟩ ::
          (g.node source).operatorTokens source := by
  induction g with
  | operand q => exact Node.operatorTokens_joined source link p q
  | join upper left right ihl _ =>
      unfold settle
      split
      · exact Node.operatorTokens_joined source link p _
      · -- the lowered operator ends where the left operand did, so the upper one stays in its place
        rw [node, Node.operatorTokens_joined, ihl, stop_settle, node, Node.operatorTokens_joined,
          List.append_assoc, List.cons_append]

/-- The symbols of a grouping are among the operators of its tree. -/
theorem Grouping.exists_operatorToken (source : Text) (g : Grouping Node) :
    ∀ step ∈ g.chain.rest, ∃ token ∈ (g.node source).operatorTokens source,
      token.kind = .infixOp ∧ token.lexeme = step.1.symbol := by
  induction g with
  | operand p => simp [chain, Chain.single]
  | join link left right ihl ihr =>
      intro step hstep
      rw [node, Node.operatorTokens_joined]
      rcases List.mem_append.1 hstep with hleft | hstep
      · obtain ⟨token, htoken, h⟩ := ihl step hleft
        exact ⟨token, List.mem_append_left _ htoken, h⟩
      rcases List.mem_cons.1 hstep with rfl | hright
      · exact ⟨_, List.mem_append_right _ List.mem_cons_self, rfl, rfl⟩
      · obtain ⟨token, htoken, h⟩ := ihr step hright
        exact ⟨token, List.mem_append_right _ (List.mem_cons_of_mem _ htoken), h⟩

/-! ## 3. Tokens one behind the other -/

namespace Token

/-- The lexeme of the token stands at its place. -/
def Stands (source : Text) (token : Token) : Prop :=
  token.lexeme ≠ [] ∧ source.slice token.location.offset
    (token.location.offset + token.lexeme.length) = token.lexeme

/-- The tokens stand in the text one behind the other between two places. -/
def Lined (source : Text) : Int → List Token → Int → Prop
  | lo, [], hi => lo ≤ hi
  | lo, token :: rest, hi => lo ≤ token.location.offset ∧ token.Stands source ∧
      Lined source (token.location.offset + token.lexeme.length) rest hi

namespace Lined

variable {source : Text} {lo mid hi : Int} {first second tokens : List Token}

theorem mono (h : Lined source lo tokens hi) {lo' : Int} (hlo : lo' ≤ lo) :
    Lined source lo' tokens hi := by
  cases tokens with
  | nil => exact Int.le_trans hlo h
  | cons token rest => exact ⟨Int.le_trans hlo h.1, h.2⟩

theorem append (h : Lined source lo first mid) (h' : Lined source mid second hi) :
    Lined source lo (first ++ second) hi := by
  induction first generalizing lo with
  | nil => exact h'.mono h
  | cons token rest ih => exact ⟨h.1, h.2.1, ih h.2.2⟩

theorem mem (h : Lined source lo tokens hi) {token : Token} (htoken : token ∈ tokens) :
    lo ≤ token.location.offset ∧ token.Stands source := by
  induction tokens generalizing lo with
  | nil => cases htoken
  | cons head rest ih =>
      obtain ⟨hlo, hstands, hrest⟩ := h
      rcases List.mem_cons.1 htoken with rfl | htoken
      · exact ⟨hlo, hstands⟩
      · obtain ⟨hle, hthere⟩ := ih hrest htoken
        exact ⟨by omega, hthere⟩

theorem pairwise (h : Lined source lo tokens hi) :
    tokens.Pairwise fun a b => a.location.offset < b.location.offset := by
  induction tokens generalizing lo with
  | nil => exact .nil
  | cons token rest ih =>
      obtain ⟨-, ⟨hne, -⟩, hrest⟩ := h
      refine .cons (fun other hother => ?_) (ih hrest)
      have hle := (hrest.mem hother).1
      have hpos := List.length_pos_iff.2 hne
      omega

end Lined

end Token

/-- The first operator that fits stands in front of all the others that do. -/
theorem Node.exists_first_operator {source : Text} {lo hi : Int} {root : Node}
    (hlined : Token.Lined source lo (root.operatorTokens source) hi) {fits : Token → Bool}
    {token : Token} (hfirst : (root.operatorTokens source).find? fits = some token) :
    ∃ n ∈ root.operators, n.operatorToken source = token ∧
      ∀ m ∈ root.operators, fits (m.operatorToken source) = true →
        m = n ∨ (n.symbolLocation source).offset < (m.symbolLocation source).offset := by
  have hpairs := hlined.pairwise
  rw [operatorTokens, List.pairwise_map] at hpairs
  rw [operatorTokens, List.find?_map] at hfirst
  obtain ⟨n, hfind, htoken⟩ := Option.map_eq_some_iff.1 hfirst
  obtain ⟨-, before, after, hsplit, hbefore⟩ := List.find?_eq_some_iff_append.1 hfind
  rw [hsplit] at hpairs ⊢
  refine ⟨n, List.mem_append_right _ List.mem_cons_self, htoken, fun m hm hfits => ?_⟩
  rcases List.mem_append.1 hm with hearlier | hm
  · have hpassed := hbefore m hearlier
    simp [hfits] at hpassed
  rcases List.mem_cons.1 hm with rfl | hlater
  · exact .inl rfl
  · exact .inr ((List.pairwise_cons.1 (List.pairwise_append.1 hpairs).2.1).1 m hlater)

end Reckoner
