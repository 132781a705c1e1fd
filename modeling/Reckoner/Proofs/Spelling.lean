import Reckoner.Proofs.Phrase
import Reckoner.Proofs.Throughout

/-!
# Two spellings of one operation

Multiplication and division can be spelled in two ways each. Spellings of one operation have one
name, but each has a rank of its own, so writing all of them in the same way may group a chain
differently.

* `Text.respell` -- a text with one spelling of each operation; its tokens are respelled one by one,
  where that makes no two stars of two symbols: `Numeral.lexeme?_respell`,
  `Token.Kind.match?_respell`, `Link.next?_respell`;
* `Link.Mixes` -- an operator and the tighter spelling of the same operation;
  `Ordered.relink` -- where no operator has that to its right, respelling keeps a grouping ordered;
* `Node.unspelled` -- a tree without the spellings, `Node.Mixed` -- an operator that has the tighter
  spelling of its operation to its right;
* `Grouping.agrees_node` -- a chain and the respelled chain have the same tree without spellings
  exactly where nothing is mixed.
-/

namespace Reckoner

/-! ## 1. Respelled texts -/

namespace Text

/-- The slash for the division sign and the star for the multiplication sign. -/
def respellChar (c : Char) : Char := if c = '÷' then '/' else if c = '×' then '*' else c

/-- The text with one spelling of each operation. -/
def respell (t : Text) : Text := t.map respellChar

/-- What does not tell the spellings apart is the same of a respelled character. -/
theorem respellChar_congr {α : Type} (f : Char → α) (hdiv : f '/' = f '÷') (hmul : f '*' = f '×')
    (c : Char) : f (respellChar c) = f c := by
  unfold respellChar
  split
  · rename_i hc
    rw [hc, hdiv]
  · split
    · rename_i hc
      rw [hc, hmul]
    · rfl

theorem respellChar_eq_self {c : Char} (hdiv : c ≠ '÷') (hmul : c ≠ '×') : respellChar c = c := by
  rw [respellChar, if_neg hdiv, if_neg hmul]

theorem respell_cons (c : Char) (t : Text) : respell (c :: t) = respellChar c :: respell t := rfl

theorem respell_append (t u : Text) : respell (t ++ u) = respell t ++ respell u := List.map_append

theorem length_respell (t : Text) : (respell t).length = t.length := List.length_map _

theorem respell_eq_nil {t : Text} : respell t = [] ↔ t = [] := List.map_eq_nil_iff

theorem respell_eq_self {t : Text} (h : ∀ c ∈ t, c ≠ '÷' ∧ c ≠ '×') : respell t = t := by
  refine (List.map_congr_left fun c hc => ?_).trans (List.map_id' t)
  exact respellChar_eq_self (h c hc).1 (h c hc).2

theorem takeWhile_respell {p : Char → Bool} (hdiv : p '/' = p '÷') (hmul : p '*' = p '×')
    (t : Text) : (respell t).takeWhile p = respell (t.takeWhile p) := by
  have hp : p ∘ respellChar = p := funext (respellChar_congr p hdiv hmul)
  rw [respell, List.takeWhile_map, hp]
  rfl

theorem head?_respell (t : Text) : (respell t).head? = t.head?.map respellChar := List.head?_map

end Text

open Text (respell respellChar)

namespace Numeral

theorem markedPart_respell {isMark : Char → Bool} (hdiv : isMark '/' = isMark '÷')
    (hmul : isMark '*' = isMark '×') (t : Text) :
    markedPart isMark (respell t) = respell (markedPart isMark t) := by
  cases t with
  | nil => rfl
  | cons c t =>
      rw [Text.respell_cons, markedPart, markedPart, Text.respellChar_congr isMark hdiv hmul,
        Text.takeWhile_respell (by decide) (by decide)]
      split
      · cases t.takeWhile isDigitOrGroup with
        | nil => rfl
        | cons d run => rfl
      · rfl

/-- A number is spelled in one way only. -/
theorem lexeme?_respell {t x : Text} (h : lexeme? t = some x) : lexeme? (respell t) = some x := by
  have hself : respell x = x := by
    refine Text.respell_eq_self ((isNumeral_of_lexeme? h).1.forall_mem (fun c hc => ?_) (by decide)
      (by decide) (by decide))
    constructor
    · rintro rfl
      exact absurd hc (by decide)
    · rintro rfl
      exact absurd hc (by decide)
  have hmap : lexeme? (respell t) = (lexeme? t).map respell := by
    unfold lexeme?
    rw [Text.takeWhile_respell (by decide) (by decide)]
    cases hwhole : t.takeWhile isDigitOrGroup with
    | nil => rfl
    | cons c run =>
        have hdrop : ∀ u v : Text,
            (respell u).drop (respell v).length = respell (u.drop v.length) :=
          fun u v => by rw [Text.length_respell, respell, respell, List.map_drop]
        have hfraction : ∀ u, markedPart isPoint (respell u) = respell (markedPart isPoint u) :=
          markedPart_respell (by decide) (by decide)
        have hexponent : ∀ u, markedPart isExponentMark (respell u) =
            respell (markedPart isExponentMark u) := markedPart_respell (by decide) (by decide)
        rw [Text.respell_cons]
        simp only [← Text.respell_cons, hdrop, hfraction, hexponent, ← Text.respell_append,
          Option.map_some]
  rw [hmap, h, Option.map_some, hself]

end Numeral

/-- The name of a function is spelled in one way only. -/
theorem Token.Kind.match?_respell {kind : Token.Kind} (hkind : kind.isFunction = true) {t x : Text}
    (h : kind.match? t = some x) : kind.match? (respell t) = some x := by
  have hends : ∀ r : Text, Keyword.endsAt r = true → Keyword.endsAt (respell r) = true := by
    intro r hr
    cases r with
    | nil => rfl
    | cons c r =>
        have hc := Text.respellChar_congr Text.isWord (by decide +kernel) (by decide +kernel) c
        rwa [Text.respell_cons, Keyword.endsAt, hc]
  have hstands : ∀ {table : List Text}, (∀ k ∈ table, k ∈ Keyword.all) →
      Keyword.match? table t = some x → Keyword.match? table (respell t) = some x := by
    intro table htable hmatch
    have hself : ∀ k ∈ Keyword.all, respell k = k := by decide +kernel
    obtain ⟨hx, ⟨r, rfl⟩, hstands⟩ := Keyword.mem_of_match? hmatch
    obtain ⟨-, hend⟩ := Bool.and_eq_true_iff.1 hstands
    rw [List.drop_left] at hend
    refine (Keyword.match?_eq_some_iff htable).2 ⟨hx, ?_⟩
    rw [Text.respell_append, hself x (htable x hx)]
    exact Bool.and_eq_true_iff.2 ⟨by simp, by rw [List.drop_left]; exact hends r hend⟩
  cases kind with
  | binaryFunction => exact hstands (fun _ => List.mem_append_left _) h
  | unaryFunction => exact hstands (fun _ => List.mem_append_right _) h
  | _ => simp [Token.Kind.isFunction] at hkind

/-! ## 2. Respelled chains -/

namespace Link

variable {link link' : Link}

/-- The link with the one spelling of its operation. -/
def respelled (link : Link) : Link where
  symbol := respell link.symbol
  isInfix := by
    have hall : ∀ o ∈ Token.infixSymbols, respell o ∈ Token.infixSymbols := by decide
    exact hall link.symbol link.isInfix

/-- The second link is the tighter spelling of the operation of the first one. -/
def Mixes (link link' : Link) : Prop :=
  (link.symbol, link'.symbol) ∈ [("*".toList, "×".toList), ("/".toList, "÷".toList)]

instance (link link' : Link) : Decidable (link.Mixes link') :=
  inferInstanceAs (Decidable (_ ∈ _))

theorem name_respelled (link : Link) : link.respelled.name = link.name := by
  have hall : ∀ o ∈ Token.infixSymbols,
      (Operator.names.lookup (respell o)).getD [] = (Operator.names.lookup o).getD [] := by decide
  exact hall link.symbol link.isInfix

theorem respelled_respelled (link : Link) : link.respelled.respelled = link.respelled := by
  have hall : ∀ o ∈ Token.infixSymbols, respell (respell o) = respell o := by decide
  obtain ⟨o, ho⟩ := link
  simp only [respelled, hall o ho]

/-- An infix symbol is respelled unless that makes two stars of two symbols. -/
theorem next?_respell (link : Link) {r : Text} (hstar : (respell r).head? ≠ some '*') :
    next? (respell (link.symbol ++ r)) = some link.respelled := by
  rw [Text.respell_append]
  exact link.respelled.next?_append hstar

theorem next?_respell_eq_none {t : Text} (h : next? t = none) : next? (respell t) = none := by
  have hsymbol : Token.infixSymbol? t = none := by rw [← map_symbol_next?, h, Option.map_none]
  refine next?_eq_none fun c hc => ?_
  rw [Text.head?_respell] at hc
  obtain ⟨d, hd, rfl⟩ := Option.map_eq_some_iff.1 hc
  have hsame := Text.respellChar_congr (fun c => decide (c ∈ Token.shortInfixSymbols)) (by decide)
    (by decide) d
  have hnot := Token.infixSymbol?_eq_none.1 hsymbol d hd
  simpa [hnot] using hsame

/-- Respelling never turns the order of two ranks around. -/
theorem rank_respelled_le (h : link.rank ≤ link'.rank) :
    link.respelled.rank ≤ link'.respelled.rank := by
  have hall : ∀ o ∈ Token.infixSymbols, ∀ o' ∈ Token.infixSymbols,
      (Operator.ranks.lookup o).getD 0 ≤ (Operator.ranks.lookup o').getD 0 →
        (Operator.ranks.lookup (respell o)).getD 0 ≤
          (Operator.ranks.lookup (respell o')).getD 0 := by decide
  exact hall link.symbol link.isInfix link'.symbol link'.isInfix h

/-- Only two spellings of one operation lose their order. -/
theorem rank_respelled_lt (h : link.rank < link'.rank) (hmix : ¬ link.Mixes link') :
    link.respelled.rank < link'.respelled.rank := by
  have hall : ∀ o ∈ Token.infixSymbols, ∀ o' ∈ Token.infixSymbols,
      (Operator.ranks.lookup o).getD 0 < (Operator.ranks.lookup o').getD 0 →
        (o, o') ∉ [("*".toList, "×".toList), ("/".toList, "÷".toList)] →
          (Operator.ranks.lookup (respell o)).getD 0 <
            (Operator.ranks.lookup (respell o')).getD 0 := by decide
  exact hall link.symbol link.isInfix link'.symbol link'.isInfix h hmix

/-- Where two spellings of one operation met, respelled links with the same names have one rank. -/
theorem Mixes.rank_eq (hmix : link.Mixes link') {m m' : Link} (hm : m.respelled = m)
    (hm' : m'.respelled = m') (hname : m.name = link.name) (hname' : m'.name = link'.name) :
    m.rank = m'.rank := by
  have hall : ∀ o ∈ Token.infixSymbols, ∀ o' ∈ Token.infixSymbols,
      respell o = o → respell o' = o' →
      (Operator.names.lookup o).getD [] = (Operator.names.lookup o').getD [] →
      (Operator.names.lookup o).getD [] ∈ ["mul".toList, "div".toList] →
        (Operator.ranks.lookup o).getD 0 = (Operator.ranks.lookup o').getD 0 := by decide
  have hboth : link.name = link'.name ∧ link.name ∈ ["mul".toList, "div".toList] := by
    have hpairs : ∀ pair ∈ [("*".toList, "×".toList), ("/".toList, "÷".toList)],
        (Operator.names.lookup pair.1).getD [] = (Operator.names.lookup pair.2).getD [] ∧
          (Operator.names.lookup pair.1).getD [] ∈ ["mul".toList, "div".toList] := by decide
    exact hpairs _ hmix
  exact hall m.symbol m.isInfix m'.symbol m'.isInfix (congrArg symbol hm) (congrArg symbol hm')
    (hname.trans (hboth.1.trans hname'.symm)) (show m.name ∈ _ from hname ▸ hboth.2)

end Link

namespace Chain

variable {α β : Type}

/-- The symbols alone. -/
def links (c : Chain α) : List Link := c.rest.map (·.1)

theorem links_append (a b : Chain α) (link : Link) :
    (a.append link b).links = a.links ++ link :: b.links := by
  simp [links, append]

theorem operands_map (f : α → β) (c : Chain α) : (c.map f).operands = c.operands.map f := by
  simp [operands, map]

theorem links_map (f : α → β) (c : Chain α) : (c.map f).links = c.links := by
  simp [links, map]

/-- A chain is its operands and its symbols. -/
theorem eq_of_operands_links {a b : Chain α} (hoperands : a.operands = b.operands)
    (hlinks : a.links = b.links) : a = b := by
  obtain ⟨hfirst, hrest⟩ := List.cons.inj hoperands
  refine Chain.ext hfirst ?_
  have hzip : ∀ steps : List (Link × α), steps = (steps.map (·.1)).zip (steps.map (·.2)) :=
    fun steps => by rw [← List.unzip_fst, ← List.unzip_snd, List.zip_unzip]
  rw [hzip a.rest, hzip b.rest]
  exact congrArg₂ List.zip hlinks hrest

end Chain

namespace Grouping

variable {α β : Type}

/-- The grouping with other symbols. -/
def relink (f : Link → Link) : Grouping α → Grouping α
  | .operand p => .operand p
  | .join link left right => .join (f link) (left.relink f) (right.relink f)

/-- The outermost symbol. -/
def top? : Grouping α → Option Link
  | .operand _ => none
  | .join link _ _ => some link

/-- No operator has the tighter spelling of its operation to its right. -/
def Unmixed : Grouping α → Prop
  | .operand _ => True
  | .join link left right => (∀ l ∈ right.top?, ¬ link.Mixes l) ∧ left.Unmixed ∧ right.Unmixed

theorem operands_relink (f : Link → Link) (g : Grouping α) :
    (g.relink f).chain.operands = g.chain.operands := by
  induction g with
  | operand p => rfl
  | join link left right ihl ihr =>
      rw [relink, chain, chain, Chain.operands_append, Chain.operands_append, ihl, ihr]

theorem links_relink (f : Link → Link) (g : Grouping α) :
    (g.relink f).chain.links = g.chain.links.map f := by
  induction g with
  | operand p => rfl
  | join link left right ihl ihr =>
      rw [relink, chain, chain, Chain.links_append, Chain.links_append, ihl, ihr, List.map_append,
        List.map_cons]

theorem rank?_eq (g : Grouping α) : g.rank? = g.top?.map Link.rank := by
  cases g <;> rfl

theorem top?_relink (f : Link → Link) (g : Grouping α) : (g.relink f).top? = g.top?.map f := by
  cases g <;> rfl

/-- **Respelling keeps a grouping ordered where no spellings are mixed.** -/
theorem Ordered.relink {g : Grouping α} (hg : g.Ordered) (hmix : g.Unmixed) :
    (g.relink Link.respelled).Ordered := by
  induction g with
  | operand p => trivial
  | join link left right ihl ihr =>
      obtain ⟨hl, hr, hol, hor⟩ := hg
      obtain ⟨hnone, hml, hmr⟩ := hmix
      refine ⟨?_, ?_, ihl hol hml, ihr hor hmr⟩
      · rw [rank?_eq] at hl
        rw [rank?_eq, top?_relink]
        intro r hr
        obtain ⟨m, hm, rfl⟩ := Option.map_eq_some_iff.1 hr
        obtain ⟨l, htop, rfl⟩ := Option.map_eq_some_iff.1 hm
        exact Link.rank_respelled_le (hl l.rank (by simp [htop]))
      · rw [rank?_eq] at hr
        rw [rank?_eq, top?_relink]
        intro r hr'
        obtain ⟨m, hm, rfl⟩ := Option.map_eq_some_iff.1 hr'
        obtain ⟨l, htop, rfl⟩ := Option.map_eq_some_iff.1 hm
        exact Link.rank_respelled_lt (hr l.rank (by simp [htop])) (hnone l htop)

end Grouping

/-! ## 3. Respelled trees -/

/-- The label without what was written there: neither text nor symbol. -/
def Label.unspelled (label : Label) : Label := { label with text := [], symbol? := none }

namespace Node

mutual

/-- The tree without the spellings. Kinds, names of operations, spans, numbers and the children in
    order are kept. -/
def unspelled : Node → Node
  | .mk label children => .mk label.unspelled (allUnspelled children)

/-- The same for some trees. -/
def allUnspelled : List Node → List Node
  | [] => []
  | node :: rest => node.unspelled :: allUnspelled rest

end

theorem allUnspelled_eq_map (nodes : List Node) : allUnspelled nodes = nodes.map unspelled := by
  induction nodes with
  | nil => rfl
  | cons node rest ih => rw [allUnspelled, ih, List.map_cons]

@[simp] theorem unspelled_mk (label : Label) (children : List Node) :
    (mk label children).unspelled = .mk label.unspelled (children.map unspelled) := by
  rw [unspelled, allUnspelled_eq_map]

theorem span_unspelled (n : Node) : n.unspelled.span = n.span := by
  cases n
  rw [unspelled_mk]
  rfl

theorem kind_unspelled (n : Node) : n.unspelled.kind = n.kind := by
  cases n
  rw [unspelled_mk]
  rfl

/-- An operator that has the tighter spelling of its operation to its right. -/
def Mixed (n : Node) : Prop :=
  n.kind = .infixOp ∧ ∃ second ∈ n.children[1]?, second.kind = .infixOp ∧
    (n.label.symbol?, second.label.symbol?) ∈
      [(some "*".toList, some "×".toList), (some "/".toList, some "÷".toList)]

instance : DecidablePred Mixed := fun _ => inferInstanceAs (Decidable (_ ∧ _))

/-- Without spellings the second tree is the first one exactly where nothing is mixed in that. -/
def Agrees (n n' : Node) : Prop :=
  n'.unspelled = n.unspelled ↔ n.Throughout fun m => ¬ m.Mixed

/-- The same for some trees. -/
def AgreeAll (nodes nodes' : List Node) : Prop :=
  nodes'.map unspelled = nodes.map unspelled ↔ ∀ n ∈ nodes, n.Throughout fun m => ¬ m.Mixed

theorem mixed_mk {label : Label} {first second : Node} : (mk label [first, second]).Mixed ↔
    label.kind = .infixOp ∧ second.kind = .infixOp ∧ (label.symbol?, second.label.symbol?) ∈
      [(some "*".toList, some "×".toList), (some "/".toList, some "÷".toList)] := by
  simp [Mixed, kind]

theorem not_mixed {n : Node} (hkind : n.kind ≠ .infixOp) : ¬ n.Mixed := fun h => hkind h.1

theorem agreeAll_nil : AgreeAll [] [] := by simp [AgreeAll]

theorem AgreeAll.cons {n n' : Node} {nodes nodes' : List Node} (hn : n.Agrees n')
    (h : AgreeAll nodes nodes') : AgreeAll (n :: nodes) (n' :: nodes') := by
  unfold AgreeAll
  rw [List.map_cons, List.map_cons, List.cons.injEq, List.forall_mem_cons]
  exact and_congr hn h

theorem agreeAll_singleton {n n' : Node} (hn : n.Agrees n') : AgreeAll [n] [n'] :=
  agreeAll_nil.cons hn

/-- Nodes that are no infix nodes agree if what hangs below them does and, where that is the same
    without spellings, their labels are too. -/
theorem agrees_mk {label label' : Label} {children children' : List Node}
    (hkind : label.kind ≠ .infixOp)
    (hlabel : children'.map unspelled = children.map unspelled →
      label'.unspelled = label.unspelled)
    (h : AgreeAll children children') : Agrees (mk label children) (mk label' children') := by
  unfold Agrees
  rw [unspelled_mk, unspelled_mk, mk.injEq, throughout_iff]
  constructor
  · rintro ⟨-, hchildren⟩
    exact ⟨not_mixed hkind, h.1 hchildren⟩
  · rintro ⟨-, hchildren⟩
    have hsame := h.2 hchildren
    exact ⟨hlabel hsame, hsame⟩

end Node

/-- The second chain is the first one with the one spelling of each operation. -/
def Chain.Agrees (c c' : Chain Node) : Prop :=
  c'.links = c.links.map Link.respelled ∧ Node.AgreeAll c.operands c'.operands

namespace Chain

theorem agrees_single {p p' : Node} (hp : p.Agrees p') : (single p).Agrees (single p') :=
  ⟨rfl, Node.agreeAll_singleton hp⟩

theorem Agrees.cons {c c' : Chain Node} (h : c.Agrees c') {p p' : Node} (hp : p.Agrees p')
    (link : Link) : (c.cons p link).Agrees (c'.cons p' link.respelled) :=
  ⟨congrArg (link.respelled :: ·) h.1, .cons hp h.2⟩

end Chain

namespace Grouping

/-- The tree of a grouping without spellings. -/
def skeleton : Grouping Node → Node
  | .operand p => p
  | .join link left right =>
      .mk { Label.plain .infixOp ⟨left.skeleton.span.start, right.skeleton.span.stop⟩ with
            operator? := some link.name } [left.skeleton, right.skeleton]

variable {source source' : Text} {g h : Grouping Node}

theorem unspelled_node (source : Text) (g : Grouping Node) :
    (g.node source).unspelled = (g.map Node.unspelled).skeleton := by
  induction g with
  | operand p => rfl
  | join link left right ihl ihr =>
      rw [map, skeleton, ← ihl, ← ihr, Node.span_unspelled, Node.span_unspelled, node, Node.joined,
        Node.unspelled_mk]
      rfl

theorem skeleton_relink (g : Grouping Node) : (g.relink Link.respelled).skeleton = g.skeleton := by
  induction g with
  | operand p => rfl
  | join link left right ihl ihr =>
      rw [relink, skeleton, skeleton, ihl, ihr, Link.name_respelled]

theorem map_relink (u : Node → Node) (f : Link → Link) (g : Grouping Node) :
    (g.relink f).map u = (g.map u).relink f := by
  induction g with
  | operand p => rfl
  | join link left right ihl ihr => rw [relink, map, map, relink, ihl, ihr]

theorem mixed_joined_node (link : Link) (first : Node) (hg : g.Maximal) :
    (Node.joined source link first (g.node source)).Mixed ↔ ∃ l ∈ g.top?, link.Mixes l := by
  rw [Node.joined, Node.mixed_mk]
  cases g with
  | operand p =>
      have hp : p.kind ≠ .infixOp := maximal_operand.1 hg
      simp [node, top?, hp]
  | join l left right =>
      simp [node, Node.joined, top?, Link.Mixes, Node.kind, Label.joined, Label.refresh,
        Label.plain]

/-- Nothing is mixed in the tree of a grouping exactly if its operators mix nothing and nothing is
    mixed in its operands. -/
theorem throughout_unmixed_iff (hg : g.Maximal) :
    ((g.node source).Throughout fun m => ¬ m.Mixed) ↔
      g.Unmixed ∧ ∀ p ∈ g.chain.operands, p.Throughout fun m => ¬ m.Mixed := by
  induction g with
  | operand p => simp [node, Unmixed, chain, Chain.single, Chain.operands]
  | join link left right ihl ihr =>
      obtain ⟨hl, hr⟩ := maximal_join.1 hg
      have hmixed : ¬ (Node.joined source link (left.node source) (right.node source)).Mixed ↔
          ∀ l ∈ right.top?, ¬ link.Mixes l := by
        rw [mixed_joined_node link _ hr]
        simp only [not_exists, not_and]
      rw [Node.throughout_iff, node, hmixed, Unmixed, chain, Chain.operands_append,
        List.forall_mem_append]
      simp only [Node.joined, Node.children_mk, List.forall_mem_cons, ihl hl, ihr hr]
      constructor
      · rintro ⟨hnone, ⟨hul, hpl⟩, ⟨hur, hpr⟩, -⟩
        exact ⟨⟨hnone, hul, hur⟩, hpl, hpr⟩
      · rintro ⟨⟨hnone, hul, hur⟩, hpl, hpr⟩
        exact ⟨hnone, ⟨hul, hpl⟩, ⟨hur, hpr⟩, List.forall_mem_nil _⟩

theorem mem_links_of_top? {l : Link} (htop : l ∈ g.top?) : l ∈ g.chain.links := by
  cases g with
  | operand p => simp [top?] at htop
  | join link left right =>
      obtain rfl : link = l := by simpa [top?] using htop
      rw [chain, Chain.links_append]
      exact List.mem_append_right _ List.mem_cons_self

/-- A tree with one spelling of each operation that is ordered is no other tree without spellings
    unless nothing is mixed there. -/
theorem unmixed_of_unspelled_eq (hg : g.Maximal) (hh : h.Maximal) (ho : h.Ordered)
    (hlinks : ∀ m ∈ h.chain.links, m.respelled = m)
    (heq : (h.node source').unspelled = (g.node source).unspelled) :
    g.Unmixed ∧ h.chain.operands.map Node.unspelled = g.chain.operands.map Node.unspelled ∧
      h.top?.map Link.name = g.top?.map Link.name := by
  have hkinds := congrArg Node.kind heq
  rw [Node.kind_unspelled, Node.kind_unspelled] at hkinds
  induction g generalizing h with
  | operand p =>
      cases h with
      | operand q => exact ⟨trivial, congrArg (fun n => [n]) heq, rfl⟩
      | join m c d => exact absurd hkinds.symm (maximal_operand.1 hg)
  | join l a b iha ihb =>
      cases h with
      | operand q => exact absurd hkinds (maximal_operand.1 hh)
      | join m c d =>
          obtain ⟨ha, hb⟩ := maximal_join.1 hg
          obtain ⟨hc, hd⟩ := maximal_join.1 hh
          obtain ⟨-, hright, hoc, hod⟩ := ho
          rw [chain, Chain.links_append] at hlinks
          obtain ⟨hlc, hlm, hld⟩ : (∀ x ∈ c.chain.links, x.respelled = x) ∧ m.respelled = m ∧
              ∀ x ∈ d.chain.links, x.respelled = x := by
            rwa [List.forall_mem_append, List.forall_mem_cons] at hlinks
          rw [node, node, Node.joined, Node.joined, Node.unspelled_mk, Node.unspelled_mk,
            Node.mk.injEq] at heq
          obtain ⟨hlabel, hchildren⟩ := heq
          have hname : m.name = l.name := Option.some.inj (congrArg Label.operator? hlabel)
          obtain ⟨hfirst, hsecond, -⟩ : (c.node source').unspelled = (a.node source).unspelled ∧
              (d.node source').unspelled = (b.node source).unspelled ∧ True := by
            simpa using hchildren
          obtain ⟨hua, hopa, -⟩ := iha ha hc hoc hlc hfirst (by
            have := congrArg Node.kind hfirst
            rwa [Node.kind_unspelled, Node.kind_unspelled] at this)
          obtain ⟨hub, hopb, htop⟩ := ihb hb hd hod hld hsecond (by
            have := congrArg Node.kind hsecond
            rwa [Node.kind_unspelled, Node.kind_unspelled] at this)
          refine ⟨⟨fun l' hl' hmix => ?_, hua, hub⟩, ?_, congrArg some hname⟩
          · rw [Option.mem_def.1 hl', Option.map_some] at htop
            obtain ⟨m', hm', hname'⟩ := Option.map_eq_some_iff.1 htop
            have hless : m.rank < m'.rank := hright m'.rank (by rw [rank?_eq, hm']; rfl)
            have hsame := hmix.rank_eq hlm (hld m' (mem_links_of_top? hm')) hname hname'
            omega
          · rw [chain, chain, Chain.operands_append, Chain.operands_append, List.map_append,
              List.map_append, hopa, hopb]

/-- **Ordered groupings of a chain and of the respelled chain have trees that agree.** -/
theorem agrees_node (hg : g.Maximal) (hh : h.Maximal) (hgo : g.Ordered) (hho : h.Ordered)
    (hchain : g.chain.Agrees h.chain) : Node.Agrees (g.node source) (h.node source') := by
  obtain ⟨hlinks, hoperands⟩ := hchain
  have hself : ∀ m ∈ h.chain.links, m.respelled = m := by
    rw [hlinks, List.forall_mem_map]
    exact fun l _ => l.respelled_respelled
  unfold Node.Agrees
  rw [throughout_unmixed_iff hg]
  constructor
  · intro heq
    obtain ⟨hunmixed, hsame, -⟩ := unmixed_of_unspelled_eq hg hh hho hself heq
    exact ⟨hunmixed, hoperands.1 hsame⟩
  · rintro ⟨hunmixed, hnone⟩
    have hsame := hoperands.2 hnone
    have hmap : h.map Node.unspelled = (g.relink Link.respelled).map Node.unspelled := by
      refine (hho.map _).unique ((hgo.relink hunmixed).map _) (Chain.eq_of_operands_links ?_ ?_)
      · rw [chain_map, chain_map, Chain.operands_map, Chain.operands_map, operands_relink, hsame]
      · rw [chain_map, chain_map, Chain.links_map, Chain.links_map, links_relink, hlinks]
    rw [unspelled_node, unspelled_node, hmap, map_relink, skeleton_relink]

end Grouping

end Reckoner
