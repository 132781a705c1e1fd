import Reckoner.Proofs.Shape

/-!
# Phrases

The expressions of the language as a syntax of their own, without any text: operands, the signs in
front of them and the symbols between them, in the order in which they are written.

* `Operand`, `Phrase`, `Entries` -- the syntax. A phrase is whole, or it stops in front of an
  operand that is left out; only an item in front of a comma may do so, and the types see to that;
* `Phrase.tokens` -- how a phrase is written, `Phrase.levels` -- how many expressions are open at a
  time while it is read, `Phrase.grouping` -- the grouping that its tree has;
* `Spells` -- a text starts with tokens, with blanks in front of any of them; `Spaced` -- a text is
  made of tokens and blanks only.
-/

namespace Reckoner

/-! ## 1. Tokens and blanks -/

/-- A text starts with the tokens, each behind any blanks. What follows the last of them is told up
    to blanks at its start. -/
def Spells : List Text → Text → Text → Prop
  | [], t, after => t.behindBlanks = after.behindBlanks
  | x :: tokens, t, after => ∃ next, t.behindBlanks = x ++ next ∧ Spells tokens next after

/-- A text consists of the tokens, with any blanks between them and at both ends. -/
def Spaced : List Text → Text → Prop
  | [], t => t.Blank
  | x :: tokens, t => ∃ blank next, Text.Blank blank ∧ t = blank ++ (x ++ next) ∧ Spaced tokens next

/-- Tokens hold no blanks, and each of them holds something. -/
def Solid (tokens : List Text) : Prop :=
  ∀ x ∈ tokens, x ≠ [] ∧ ∀ c ∈ x, Cursor.isBlank c = false

theorem Spells.congr {tokens : List Text} {t u after : Text} (h : Spells tokens t after)
    (hblank : t.behindBlanks = u.behindBlanks) : Spells tokens u after := by
  cases tokens with
  | nil => exact hblank.symm.trans h
  | cons x tokens =>
      obtain ⟨next, hnext, hspells⟩ := h
      exact ⟨next, hblank.symm.trans hnext, hspells⟩

theorem Spells.congr_after {tokens : List Text} {t after after' : Text}
    (h : Spells tokens t after) (hblank : after.behindBlanks = after'.behindBlanks) :
    Spells tokens t after' := by
  induction tokens generalizing t with
  | nil => exact h.trans hblank
  | cons x tokens ih =>
      obtain ⟨next, hnext, hspells⟩ := h
      exact ⟨next, hnext, ih hspells⟩

/-- Two sequences of tokens are spelt one after the other. -/
theorem spells_append {first second : List Text} {t after : Text} :
    Spells (first ++ second) t after ↔ ∃ u, Spells first t u ∧ Spells second u after := by
  induction first generalizing t with
  | nil =>
      refine ⟨fun h => ⟨t, rfl, h⟩, ?_⟩
      rintro ⟨u, hu, h⟩
      exact h.congr hu.symm
  | cons x first ih =>
      constructor
      · rintro ⟨next, hnext, h⟩
        obtain ⟨u, hu, h⟩ := ih.1 h
        exact ⟨u, ⟨next, hnext, hu⟩, h⟩
      · rintro ⟨u, ⟨next, hnext, hu⟩, h⟩
        exact ⟨next, hnext, ih.2 ⟨u, hu, h⟩⟩

theorem Spaced.blank_append {tokens : List Text} {w t : Text} (hw : w.Blank)
    (h : Spaced tokens t) : Spaced tokens (w ++ t) := by
  cases tokens with
  | nil => exact hw.append h
  | cons x tokens =>
      obtain ⟨blank, next, hblank, rfl, hnext⟩ := h
      exact ⟨w ++ blank, next, hw.append hblank, (List.append_assoc ..).symm, hnext⟩

theorem Spaced.cons {x : Text} {tokens : List Text} {t : Text} (h : Spaced tokens t) :
    Spaced (x :: tokens) (x ++ t) :=
  ⟨[], t, Text.blank_nil, rfl, h⟩

theorem spaced_singleton (x : Text) : Spaced [x] x :=
  ⟨[], [], Text.blank_nil, by simp, Text.blank_nil⟩

theorem Spaced.append {first second : List Text} {t u : Text} (h : Spaced first t)
    (h' : Spaced second u) : Spaced (first ++ second) (t ++ u) := by
  induction first generalizing t with
  | nil => exact h'.blank_append h
  | cons x first ih =>
      obtain ⟨blank, next, hblank, rfl, hnext⟩ := h
      refine ⟨blank, next ++ u, hblank, ?_, ih hnext⟩
      simp only [List.append_assoc]

/-- A text of two sequences of tokens is a text of the first and a text of the second one. -/
theorem Spaced.exists_append {first second : List Text} {t : Text}
    (h : Spaced (first ++ second) t) :
    ∃ u v, t = u ++ v ∧ Spaced first u ∧ Spaced second v := by
  induction first generalizing t with
  | nil => exact ⟨[], t, rfl, Text.blank_nil, h⟩
  | cons x first ih =>
      obtain ⟨blank, next, hblank, rfl, hnext⟩ := h
      obtain ⟨u, v, rfl, hu, hv⟩ := ih hnext
      refine ⟨blank ++ (x ++ u), v, ?_, ⟨blank, u, hblank, rfl, hu⟩, hv⟩
      simp only [List.append_assoc]

theorem Solid.cons {x : Text} {tokens : List Text} (h : Solid (x :: tokens)) :
    (x ≠ [] ∧ ∀ c ∈ x, Cursor.isBlank c = false) ∧ Solid tokens :=
  List.forall_mem_cons.1 h

theorem behindBlanks_of_solid {x : Text} (hx : x ≠ [] ∧ ∀ c ∈ x, Cursor.isBlank c = false)
    (next : Text) : (x ++ next).behindBlanks = x ++ next := by
  apply Text.behindBlanks_eq_self
  intro c hc
  obtain ⟨hne, hblank⟩ := hx
  cases x with
  | nil => exact absurd rfl hne
  | cons d x =>
      obtain rfl : d = c := by simpa using hc
      exact hblank d List.mem_cons_self

theorem behindBlanks_eq_nil {t : Text} : t.behindBlanks = [] ↔ t.Blank := by
  unfold Text.behindBlanks Text.Blank
  exact List.dropWhile_eq_nil_iff

/-- **A text of tokens and blanks only is a text that spells the tokens to its end.** -/
theorem spaced_iff_spells {tokens : List Text} (hsolid : Solid tokens) {t : Text} :
    Spaced tokens t ↔ Spells tokens t [] := by
  induction tokens generalizing t with
  | nil => exact behindBlanks_eq_nil.symm
  | cons x tokens ih =>
      obtain ⟨hx, htokens⟩ := hsolid.cons
      constructor
      · rintro ⟨blank, next, hblank, rfl, h⟩
        refine ⟨next, ?_, (ih htokens).1 h⟩
        rw [Text.behindBlanks_append hblank, behindBlanks_of_solid hx]
      · rintro ⟨next, hnext, h⟩
        obtain ⟨blank, hblank, ht⟩ := t.exists_behindBlanks
        exact ⟨blank, next, hblank, hnext ▸ ht, (ih htokens).2 h⟩

theorem filter_behindBlanks (t : Text) :
    t.behindBlanks.filter (fun c => !Cursor.isBlank c) = t.filter fun c => !Cursor.isBlank c := by
  obtain ⟨blank, hblank, ht⟩ := t.exists_behindBlanks
  have hnone : blank.filter (fun c => !Cursor.isBlank c) = [] :=
    List.filter_eq_nil_iff.2 fun c hc => by simp [hblank c hc]
  conv => rhs; rw [ht, List.filter_append, hnone, List.nil_append]

/-- Without its blanks such a text is its tokens. -/
theorem Spells.filter_eq {tokens : List Text} (hsolid : Solid tokens) {t : Text}
    (h : Spells tokens t []) : t.filter (fun c => !Cursor.isBlank c) = tokens.flatten := by
  induction tokens generalizing t with
  | nil => rw [← filter_behindBlanks, show t.behindBlanks = [] from h]; rfl
  | cons x tokens ih =>
      obtain ⟨hx, htokens⟩ := hsolid.cons
      obtain ⟨next, hnext, hspells⟩ := h
      have hall : x.filter (fun c => !Cursor.isBlank c) = x :=
        List.filter_eq_self.2 fun c hc => by simp [hx.2 c hc]
      rw [← filter_behindBlanks, hnext, List.filter_append, hall, ih htokens hspells,
        List.flatten_cons]

/-! ## 2. The syntax -/

/-- A number as written. -/
abbrev Numeral.Literal := { x : Text // IsNumeral x }

/-- A sign that may stand in front of an operand. -/
abbrev Token.Sign := { sign : Char // sign ∈ signs }

/-- The name of a function. -/
abbrev Keyword.Name := { k : Text // k ∈ all }

mutual

/-- What may stand between two symbols. -/
inductive Operand where
  | number (x : Numeral.Literal)
  | list (entries : Entries)
  | call (name : Keyword.Name) (entries : Entries)

/-- An expression from its first operand on, and whether its last operand is there. -/
inductive Phrase : Bool → Type where
  /-- Nothing. -/
  | omitted : Phrase false
  | operand (p : Operand) : Phrase true
  | signed {whole : Bool} (sign : Token.Sign) (rest : Phrase whole) : Phrase whole
  | linked {whole : Bool} (p : Operand) (link : Link) (rest : Phrase whole) : Phrase whole

/-- The entries of a list. The last one is whole. -/
inductive Entries where
  | last (e : Phrase true)
  | more {whole : Bool} (e : Phrase whole) (rest : Entries)

end

/-! ## 3. How a phrase is written -/

mutual

/-- The tokens of an operand. -/
def Operand.tokens : Operand → List Text
  | .number x => [x.1]
  | .list entries => ['('] :: entries.tokens
  | .call name entries => name.1 :: ['('] :: entries.tokens

/-- The tokens of a phrase. -/
def Phrase.tokens {whole : Bool} : Phrase whole → List Text
  | .omitted => []
  | .operand p => p.tokens
  | .signed sign rest => [sign.1] :: rest.tokens
  | .linked p link rest => p.tokens ++ link.symbol :: rest.tokens

/-- The tokens of the entries of a list, the closing parenthesis included. -/
def Entries.tokens : Entries → List Text
  | .last e => e.tokens ++ [[')']]
  | .more e rest => e.tokens ++ [','] :: rest.tokens

end

/-! ## 4. How deep a phrase is nested -/

mutual

/-- How many expressions are open at a time inside an operand. -/
def Operand.levels : Operand → Nat
  | .number _ => 0
  | .list entries => entries.levels
  | .call _ entries => entries.levels

/-- How many expressions are open at a time: each sign and each symbol opens one for its right
    operand, even if that is left out. -/
def Phrase.levels {whole : Bool} : Phrase whole → Nat
  | .omitted => 1
  | .operand p => p.levels + 1
  | .signed _ rest => rest.levels + 1
  | .linked p _ rest => max p.levels rest.levels + 1

/-- The same for the entries of a list. -/
def Entries.levels : Entries → Nat
  | .last e => e.levels
  | .more e rest => max e.levels rest.levels

end

/-! ## 5. The tree of a phrase -/

mutual

/-- The tree of an operand. -/
def Operand.tree : Operand → Node
  | .number x => .numeral x.1
  | .list entries => .list entries.trees
  | .call name entries => .applied name.1 (.list entries.trees)

/-- The grouping of a phrase: each symbol settles in the grouping of what follows it. -/
def Phrase.grouping {whole : Bool} : Phrase whole → Grouping Node
  | .omitted => .operand .hole
  | .operand p => .operand p.tree
  | .signed sign rest => .operand (.signed sign.1 rest.grouping.shape)
  | .linked p link rest => .settle link (.operand p.tree) rest.grouping

/-- The trees of the entries of a list. -/
def Entries.trees : Entries → List Node
  | .last e => [e.grouping.shape]
  | .more e rest => e.grouping.shape :: rest.trees

end

/-- The tree of a phrase. -/
def Phrase.tree {whole : Bool} (e : Phrase whole) : Node := e.grouping.shape

/-! ## 6. What holds of every phrase -/

/-- What holds of digits and of both marks holds of all characters of a number. -/
theorem Numeral.IsNumeral.forall_mem {x : Text} (h : IsNumeral x) {P : Char → Prop}
    (hdigit : ∀ c, isDigitOrGroup c = true → P c) (hpoint : P '.') (hsmall : P 'e')
    (hlarge : P 'E') : ∀ c ∈ x, P c := by
  have hpart : ∀ {isMark : Char → Bool} {part : Text}, (∀ c, isMark c = true → P c) →
      IsPart isMark part → ∀ c ∈ part, P c := by
    rintro isMark part hmark (rfl | ⟨mark, run, hm, hrun, rfl⟩) c hc
    · cases hc
    · rcases List.mem_cons.1 hc with rfl | hc
      · exact hmark c hm
      · exact hdigit c (hrun.2 c hc)
  have hpoints : ∀ c, isPoint c = true → P c := by
    intro c hc
    obtain rfl : c = '.' := by simpa [isPoint] using hc
    exact hpoint
  have hexponents : ∀ c, isExponentMark c = true → P c := by
    intro c hc
    obtain rfl | rfl : c = 'e' ∨ c = 'E' := by simpa [isExponentMark] using hc
    · exact hsmall
    · exact hlarge
  obtain ⟨run, fraction, exponent, hrun, hf, he, rfl⟩ := h
  intro c hc
  simp only [List.mem_append] at hc
  rcases hc with (hc | hc) | hc
  · exact hdigit c (hrun.2 c hc)
  · exact hpart hpoints hf c hc
  · exact hpart hexponents he c hc

theorem Numeral.IsNumeral.solid {x : Text} (h : IsNumeral x) :
    x ≠ [] ∧ ∀ c ∈ x, Cursor.isBlank c = false := by
  have hdigit : ∀ c, isDigitOrGroup c = true → Cursor.isBlank c = false := by
    intro c hc
    cases hblank : Cursor.isBlank c with
    | false => rfl
    | true =>
        have hall : ∀ c ∈ Cursor.blanks, isDigitOrGroup c = false := by decide
        rw [hall c (by simpa [Cursor.isBlank] using hblank)] at hc
        cases hc
  refine ⟨?_, h.forall_mem hdigit (by decide) (by decide) (by decide)⟩
  obtain ⟨run, fraction, exponent, hrun, -, -, rfl⟩ := h
  simp [hrun.1]

theorem Link.solid (link : Link) :
    link.symbol ≠ [] ∧ ∀ c ∈ link.symbol, Cursor.isBlank c = false := by
  have hall : ∀ o ∈ Token.infixSymbols, o ≠ [] ∧ ∀ c ∈ o, Cursor.isBlank c = false := by decide
  exact hall link.symbol link.isInfix

theorem Keyword.Name.solid (name : Keyword.Name) :
    name.1 ≠ [] ∧ ∀ c ∈ name.1, Cursor.isBlank c = false := by
  have hall : ∀ k ∈ Keyword.all, k ≠ [] ∧ ∀ c ∈ k, Cursor.isBlank c = false := by decide +kernel
  exact hall name.1 name.2

theorem Token.Sign.solid (sign : Token.Sign) :
    [sign.1] ≠ [] ∧ ∀ c ∈ [sign.1], Cursor.isBlank c = false := by
  have hall : ∀ c ∈ Token.signs, Cursor.isBlank c = false := by decide
  exact ⟨by simp, by simpa using hall sign.1 sign.2⟩

theorem solid_append {first second : List Text} (h₁ : Solid first) (h₂ : Solid second) :
    Solid (first ++ second) :=
  List.forall_mem_append.2 ⟨h₁, h₂⟩

theorem solid_cons {x : Text} {tokens : List Text}
    (hx : x ≠ [] ∧ ∀ c ∈ x, Cursor.isBlank c = false) (h : Solid tokens) : Solid (x :: tokens) :=
  List.forall_mem_cons.2 ⟨hx, h⟩

mutual

theorem Operand.solid : ∀ p : Operand, Solid p.tokens
  | .number x => solid_cons x.2.solid (by simp [Solid])
  | .list entries => solid_cons (by decide) entries.solid
  | .call name entries => solid_cons name.solid (solid_cons (by decide) entries.solid)

/-- The tokens of a phrase hold no blanks. -/
theorem Phrase.solid {whole : Bool} : ∀ e : Phrase whole, Solid e.tokens
  | .omitted => by simp [Solid, Phrase.tokens]
  | .operand p => p.solid
  | .signed sign rest => solid_cons sign.solid rest.solid
  | .linked p link rest => solid_append p.solid (solid_cons link.solid rest.solid)

theorem Entries.solid : ∀ entries : Entries, Solid entries.tokens
  | .last e => solid_append e.solid (solid_cons (by decide) (by simp [Solid]))
  | .more e rest => solid_append e.solid (solid_cons (by decide) rest.solid)

end

theorem length_flatten_cons {x : Text} (hx : x ≠ []) (tokens : List Text) :
    tokens.flatten.length + 1 ≤ (x :: tokens).flatten.length := by
  have hpos := List.length_pos_iff.2 hx
  simp only [List.flatten_cons, List.length_append]
  omega

mutual

theorem Operand.levels_lt : ∀ p : Operand, p.levels < p.tokens.flatten.length
  | .number x => List.length_pos_iff.2 (by simpa [Operand.tokens] using x.2.solid.1)
  | .list entries => by
      have hentries := entries.levels_le
      simp only [Operand.levels, Operand.tokens, List.flatten_cons, List.length_append,
        List.length_singleton]
      omega
  | .call name entries => by
      have hentries := entries.levels_le
      simp only [Operand.levels, Operand.tokens, List.flatten_cons, List.length_append,
        List.length_singleton]
      omega

/-- A phrase is nested less deep than it is long, but for the operand that may be left out. -/
theorem Phrase.levels_le {whole : Bool} :
    ∀ e : Phrase whole, e.levels ≤ e.tokens.flatten.length + 1
  | .omitted => by simp [Phrase.levels]
  | .operand p => by
      have hp := p.levels_lt
      simp only [Phrase.levels, Phrase.tokens]
      omega
  | .signed sign rest => by
      have hrest := rest.levels_le
      simp only [Phrase.levels, Phrase.tokens, List.flatten_cons, List.length_append,
        List.length_singleton]
      omega
  | .linked p link rest => by
      have hp := p.levels_lt
      have hrest := rest.levels_le
      have hlink := length_flatten_cons link.solid.1 rest.tokens
      simp only [Phrase.levels, Phrase.tokens, List.flatten_append, List.length_append]
      omega

theorem Entries.levels_le : ∀ entries : Entries, entries.levels ≤ entries.tokens.flatten.length
  | .last e => by
      have he := e.levels_le
      simpa [Entries.levels, Entries.tokens] using he
  | .more e rest => by
      have he := e.levels_le
      have hrest := rest.levels_le
      simp only [Entries.levels, Entries.tokens, List.flatten_append, List.flatten_cons,
        List.length_append, List.length_singleton]
      omega

end

/-- The grouping of a phrase is ordered. -/
theorem Phrase.ordered {whole : Bool} : ∀ e : Phrase whole, e.grouping.Ordered
  | .omitted => trivial
  | .operand _ => trivial
  | .signed _ _ => trivial
  | .linked _ _ rest => rest.ordered.settle

/-- The symbols between the operands of a phrase are tokens of it. -/
theorem Phrase.symbols_subset {whole : Bool} : ∀ e : Phrase whole,
    (e.grouping.chain.rest.map fun step => step.1.symbol) ⊆ e.tokens
  | .omitted => List.nil_subset _
  | .operand _ => List.nil_subset _
  | .signed _ _ => List.nil_subset _
  | .linked p link rest => by
      rw [Phrase.grouping, Grouping.chain_settle]
      exact List.Subset.trans (List.cons_subset_cons _ rest.symbols_subset)
        (List.subset_append_right _ _)

/-- An operand starts with a character that can start one. -/
theorem Operand.exists_lead (p : Operand) : ∃ c x tokens,
    p.tokens = (c :: x) :: tokens ∧ (Token.Kind.lead? c).isSome = true := by
  cases p with
  | number x =>
      obtain ⟨x, run, fraction, exponent, hrun, -, -, rfl⟩ := x
      cases run with
      | nil => exact absurd rfl hrun.1
      | cons c run =>
          have hc : Numeral.isDigitOrGroup c = true := hrun.2 c List.mem_cons_self
          exact ⟨c, run ++ fraction ++ exponent, [], rfl, by simp [Token.Kind.lead?, hc]⟩
  | list entries => exact ⟨'(', [], entries.tokens, rfl, by decide⟩
  | call name entries =>
      have hall : ∀ k ∈ Keyword.all, k.head?.bind Token.Kind.lead? = some .unaryFunction := by
        decide +kernel
      obtain ⟨x, hx⟩ := name
      cases x with
      | nil => exact absurd (hall _ hx) (by decide)
      | cons c x =>
          have hlead : Token.Kind.lead? c = some .unaryFunction := hall _ hx
          exact ⟨c, x, ['('] :: entries.tokens, rfl, by rw [hlead]; rfl⟩

/-- So does a phrase, unless nothing is there. -/
theorem Phrase.exists_lead {whole : Bool} (e : Phrase whole) :
    (whole = false ∧ e.tokens = []) ∨ ∃ c x tokens,
      e.tokens = (c :: x) :: tokens ∧ (Token.Kind.lead? c).isSome = true := by
  cases e with
  | omitted => exact .inl ⟨rfl, rfl⟩
  | operand p => exact .inr p.exists_lead
  | signed sign rest =>
      have hall : ∀ c ∈ Token.signs, (Token.Kind.lead? c).isSome = true := by decide
      exact .inr ⟨sign.1, [], rest.tokens, rfl, hall sign.1 sign.2⟩
  | linked p link rest =>
      obtain ⟨c, x, tokens, htokens, hc⟩ := p.exists_lead
      refine .inr ⟨c, x, tokens ++ link.symbol :: rest.tokens, ?_, hc⟩
      rw [Phrase.tokens, htokens, List.cons_append]

end Reckoner
