import Reckoner.Proofs.Readable

/-!
# The grammar of the texts without reports

    Text    = Expr W
    Expr    = W Sign Expr | W Primary | W Primary W Op Expr
    Primary = Number | List | Keyword W List
    List    = '(' (Item W ',')* Expr W ')'
    Item    = Expr | W | an Expr that lacks its final operand

`W` are blanks. Every expression has a level: that of the text has level one, and an item, the
operand of a sign and the right-hand side of an infix symbol stand one level deeper than the
expression that holds them, also when they are left out.

* `Derives` -- the grammar, with a limit for the levels; `Derivable` -- whole texts;
* `Derives.holds`, `Phrase.derives` -- what the grammar derives are the phrases, spelt with blanks;
* `hasErrors_eq_false_iff_derivable` -- a text has no reports exactly when the grammar derives it.
-/

namespace Reckoner

/-! ## 1. The grammar -/

/-- What the grammar derives. -/
inductive Nonterminal where
  | expression
  /-- An expression that stops behind a sign or an infix symbol. -/
  | unfinished
  | primary
  | list
  /-- The items of a list and its closing parenthesis. -/
  | entries
  | item

/-- A nonterminal derives a text; an expression and an item have the level given, everything else
    belongs to an expression of that level. No level goes beyond the limit. -/
inductive Derives (limit : Nat) : Nonterminal → Nat → Text → Prop where
  | signed {level : Nat} {w e : Text} {sign : Char} (hlevel : level ≤ limit) (hw : w.Blank)
      (hsign : sign ∈ Token.signs) (he : Derives limit .expression (level + 1) e) :
      Derives limit .expression level (w ++ ([sign] ++ e))
  | single {level : Nat} {w p : Text} (hlevel : level ≤ limit) (hw : w.Blank)
      (hp : Derives limit .primary level p) : Derives limit .expression level (w ++ p)
  | linked {level : Nat} {w p v op e : Text} (hlevel : level ≤ limit) (hw : w.Blank)
      (hp : Derives limit .primary level p) (hv : v.Blank) (hop : op ∈ Token.infixSymbols)
      (he : Derives limit .expression (level + 1) e) :
      Derives limit .expression level (w ++ (p ++ (v ++ (op ++ e))))
  | unfinishedSign {level : Nat} {w : Text} {sign : Char} (hlevel : level + 1 ≤ limit)
      (hw : w.Blank) (hsign : sign ∈ Token.signs) :
      Derives limit .unfinished level (w ++ [sign])
  | unfinishedLink {level : Nat} {w p v op : Text} (hlevel : level + 1 ≤ limit) (hw : w.Blank)
      (hp : Derives limit .primary level p) (hv : v.Blank) (hop : op ∈ Token.infixSymbols) :
      Derives limit .unfinished level (w ++ (p ++ (v ++ op)))
  | signedUnfinished {level : Nat} {w e : Text} {sign : Char} (hlevel : level ≤ limit)
      (hw : w.Blank) (hsign : sign ∈ Token.signs) (he : Derives limit .unfinished (level + 1) e) :
      Derives limit .unfinished level (w ++ ([sign] ++ e))
  | linkedUnfinished {level : Nat} {w p v op e : Text} (hlevel : level ≤ limit) (hw : w.Blank)
      (hp : Derives limit .primary level p) (hv : v.Blank) (hop : op ∈ Token.infixSymbols)
      (he : Derives limit .unfinished (level + 1) e) :
      Derives limit .unfinished level (w ++ (p ++ (v ++ (op ++ e))))
  | number {level : Nat} {x : Text} (hx : Numeral.IsNumeral x) : Derives limit .primary level x
  | parenthesized {level : Nat} {t : Text} (ht : Derives limit .list level t) :
      Derives limit .primary level t
  | call {level : Nat} {k w t : Text} (hk : k ∈ Keyword.all) (hw : w.Blank)
      (ht : Derives limit .list level t) : Derives limit .primary level (k ++ (w ++ t))
  | list {level : Nat} {t : Text} (ht : Derives limit .entries level t) :
      Derives limit .list level (['('] ++ t)
  | last {level : Nat} {e w : Text} (he : Derives limit .expression (level + 1) e) (hw : w.Blank) :
      Derives limit .entries level (e ++ (w ++ [')']))
  | more {level : Nat} {i w t : Text} (hi : Derives limit .item (level + 1) i) (hw : w.Blank)
      (ht : Derives limit .entries level t) :
      Derives limit .entries level (i ++ (w ++ ([','] ++ t)))
  | whole {level : Nat} {e : Text} (he : Derives limit .expression level e) :
      Derives limit .item level e
  | blank {level : Nat} {w : Text} (hlevel : level ≤ limit) (hw : w.Blank) :
      Derives limit .item level w
  | lacking {level : Nat} {e : Text} (he : Derives limit .unfinished level e) :
      Derives limit .item level e

/-- A whole text: an expression of level one, and blanks. -/
def Derivable (limit : Nat) (source : Text) : Prop :=
  ∃ e w, Derives limit .expression 1 e ∧ w.Blank ∧ source = e ++ w

/-! ## 2. What is derived is a phrase -/

/-- A phrase spelt with blanks that stands at a level and goes no deeper than the limit. -/
def Fits (limit : Nat) (whole : Bool) (level : Nat) (t : Text) : Prop :=
  ∃ e : Phrase whole, Spaced e.tokens t ∧ e.levels + level ≤ limit + 1

/-- The same for what stands between two symbols of an expression of the level. -/
def FitsOperand (limit level : Nat) (t : Text) : Prop :=
  ∃ p : Operand, Spaced p.tokens t ∧ (level ≤ limit → p.levels + level ≤ limit)

variable {limit level : Nat} {whole : Bool}

theorem fits_omitted {w : Text} (hlevel : level ≤ limit) (hw : w.Blank) :
    Fits limit false level w := by
  refine ⟨.omitted, hw, ?_⟩
  simp only [Phrase.levels]
  omega

theorem Fits.signed {w e : Text} {sign : Char} (hw : w.Blank) (hsign : sign ∈ Token.signs)
    (h : Fits limit whole (level + 1) e) : Fits limit whole level (w ++ ([sign] ++ e)) := by
  obtain ⟨e, he, hle⟩ := h
  refine ⟨.signed ⟨sign, hsign⟩ e, he.cons.blank_append hw, ?_⟩
  simp only [Phrase.levels]
  omega

theorem Fits.linked {w p v op e : Text} (hlevel : level ≤ limit) (hw : w.Blank)
    (hp : FitsOperand limit level p) (hv : v.Blank) (hop : op ∈ Token.infixSymbols)
    (h : Fits limit whole (level + 1) e) :
    Fits limit whole level (w ++ (p ++ (v ++ (op ++ e)))) := by
  obtain ⟨p, hp, hlep⟩ := hp
  obtain ⟨e, he, hlee⟩ := h
  refine ⟨.linked p ⟨op, hop⟩ e, (hp.append (he.cons.blank_append hv)).blank_append hw, ?_⟩
  have hle := hlep hlevel
  simp only [Phrase.levels]
  omega

/-- What a nonterminal stands for, as phrases spelt with blanks. -/
def Nonterminal.Holds (limit : Nat) : Nonterminal → Nat → Text → Prop
  | .expression, level, t => Fits limit true level t
  | .unfinished, level, t => Fits limit false level t
  | .primary, level, t => FitsOperand limit level t
  | .list, level, t =>
      ∃ entries : Entries, Spaced (['('] :: entries.tokens) t ∧ entries.levels + level ≤ limit
  | .entries, level, t =>
      ∃ entries : Entries, Spaced entries.tokens t ∧ entries.levels + level ≤ limit
  | .item, level, t => ∃ whole : Bool, Fits limit whole level t

/-- **What the grammar derives is a phrase**, an operand or the entries of a list, spelt with
    blanks. -/
theorem Derives.holds {nonterminal : Nonterminal} {t : Text}
    (h : Derives limit nonterminal level t) : nonterminal.Holds limit level t := by
  induction h with
  | signed _ hw hsign _ ih => exact Fits.signed hw hsign ih
  | @single level w p hlevel hw _ ih =>
      obtain ⟨p, hp, hle⟩ := ih
      refine ⟨.operand p, hp.blank_append hw, ?_⟩
      have := hle hlevel
      simp only [Phrase.levels]
      omega
  | linked hlevel hw _ hv hop _ ihp ihe => exact Fits.linked hlevel hw ihp hv hop ihe
  | unfinishedSign hlevel hw hsign =>
      have h := (fits_omitted hlevel Text.blank_nil).signed hw hsign
      rwa [List.append_nil] at h
  | unfinishedLink hlevel hw _ hv hop ih =>
      have h := (fits_omitted hlevel Text.blank_nil).linked (Nat.le_of_succ_le hlevel) hw ih hv hop
      rwa [List.append_nil] at h
  | signedUnfinished _ hw hsign _ ih => exact Fits.signed hw hsign ih
  | linkedUnfinished hlevel hw _ hv hop _ ihp ihe => exact Fits.linked hlevel hw ihp hv hop ihe
  | @number level x hx =>
      refine ⟨.number ⟨x, hx⟩, spaced_singleton x, fun hlevel => ?_⟩
      simp only [Operand.levels]
      omega
  | parenthesized _ ih =>
      obtain ⟨entries, hentries, hle⟩ := ih
      exact ⟨.list entries, hentries, fun _ => hle⟩
  | @call level k w t hk hw _ ih =>
      obtain ⟨entries, hentries, hle⟩ := ih
      exact ⟨.call ⟨k, hk⟩ entries, (hentries.blank_append hw).cons, fun _ => hle⟩
  | list _ ih =>
      obtain ⟨entries, hentries, hle⟩ := ih
      exact ⟨entries, hentries.cons, hle⟩
  | @last level e w _ hw ih =>
      obtain ⟨e, he, hle⟩ := ih
      refine ⟨.last e, he.append ((spaced_singleton [')']).blank_append hw), ?_⟩
      simp only [Entries.levels]
      omega
  | @more level i w t _ hw _ ihi iht =>
      obtain ⟨whole, e, he, hlee⟩ := ihi
      obtain ⟨entries, hentries, hle⟩ := iht
      refine ⟨.more e entries, he.append (hentries.cons.blank_append hw), ?_⟩
      simp only [Entries.levels]
      omega
  | whole _ ih => exact ⟨true, ih⟩
  | blank hlevel hw => exact ⟨false, fits_omitted hlevel hw⟩
  | lacking _ ih => exact ⟨false, ih⟩

/-! ## 3. Phrases are derived -/

/-- What a phrase is derived as: an expression, or an unfinished one, or nothing at all. -/
def Finishes (limit : Nat) : Bool → Nat → Text → Prop
  | true, level, x => Derives limit .expression level x
  | false, level, x => Derives limit .unfinished level x ∨ x = [] ∧ level ≤ limit

/-- A sign in front of what a phrase is derived as. -/
theorem Finishes.signed {whole : Bool} {level : Nat} {w x v : Text} {sign : Char}
    (hlevel : level ≤ limit) (hw : w.Blank) (hsign : sign ∈ Token.signs)
    (h : Finishes limit whole (level + 1) x) :
    ∃ y, w ++ ([sign] ++ (x ++ v)) = y ++ v ∧ Finishes limit whole level y := by
  cases whole with
  | true => exact ⟨_, by simp, Derives.signed hlevel hw hsign h⟩
  | false =>
      rcases h with h | ⟨rfl, hright⟩
      · exact ⟨_, by simp, .inl (.signedUnfinished hlevel hw hsign h)⟩
      · exact ⟨w ++ [sign], by simp, .inl (.unfinishedSign hright hw hsign)⟩

/-- A primary and an infix symbol in front of what a phrase is derived as. -/
theorem Finishes.linked {whole : Bool} {level : Nat} {w q u x v : Text} (hlevel : level ≤ limit)
    (hw : w.Blank) (hq : Derives limit .primary level q) (hu : u.Blank) (link : Link)
    (h : Finishes limit whole (level + 1) x) :
    ∃ y, w ++ (q ++ (u ++ (link.symbol ++ (x ++ v)))) = y ++ v ∧ Finishes limit whole level y := by
  cases whole with
  | true => exact ⟨_, by simp, Derives.linked hlevel hw hq hu link.isInfix h⟩
  | false =>
      rcases h with h | ⟨rfl, hright⟩
      · exact ⟨_, by simp, .inl (.linkedUnfinished hlevel hw hq hu link.isInfix h)⟩
      · exact ⟨w ++ (q ++ (u ++ link.symbol)), by simp,
          .inl (.unfinishedLink hright hw hq hu link.isInfix)⟩

mutual

theorem Operand.derives : ∀ (p : Operand) (level : Nat) {t : Text}, Spaced p.tokens t →
    p.levels + level ≤ limit →
      ∃ w q v, t = w ++ (q ++ v) ∧ w.Blank ∧ v.Blank ∧ Derives limit .primary level q
  | .number x, level, t, h, hle => by
      obtain ⟨w, v, hw, rfl, hv⟩ := h
      exact ⟨w, x.1, v, rfl, hw, hv, .number x.2⟩
  | .list entries, level, t, h, hle => by
      obtain ⟨w, next, hw, rfl, hnext⟩ := h
      obtain ⟨x, v, rfl, hv, hx⟩ := entries.derives level hnext hle
      exact ⟨w, ['('] ++ x, v, by simp, hw, hv, .parenthesized (.list hx)⟩
  | .call name entries, level, t, h, hle => by
      obtain ⟨w, next, hw, rfl, u, next', hu, rfl, hnext⟩ := h
      obtain ⟨x, v, rfl, hv, hx⟩ := entries.derives level hnext hle
      exact ⟨w, name.1 ++ (u ++ (['('] ++ x)), v, by simp, hw, hv, .call name.2 hu (.list hx)⟩

/-- **A phrase spelt with blanks is derived**, up to the blanks at its end. -/
theorem Phrase.derives {whole : Bool} : ∀ (e : Phrase whole) (level : Nat) {t : Text},
    Spaced e.tokens t → e.levels + level ≤ limit + 1 →
      ∃ x v, t = x ++ v ∧ v.Blank ∧ Finishes limit whole level x
  | .omitted, level, t, h, hle =>
      ⟨[], t, rfl, h, .inr ⟨rfl, by simp only [Phrase.levels] at hle; omega⟩⟩
  -- the blanks in front belong to the expression, those behind to whatever holds it
  | .operand p, level, t, h, hle => by
      simp only [Phrase.levels] at hle
      obtain ⟨w, q, v, rfl, hw, hv, hq⟩ := p.derives level h (by omega)
      exact ⟨w ++ q, v, by simp, hv, Derives.single (by omega) hw hq⟩
  | .signed sign rest, level, t, h, hle => by
      simp only [Phrase.levels] at hle
      obtain ⟨w, next, hw, rfl, hnext⟩ := h
      obtain ⟨x, v, rfl, hv, hx⟩ := rest.derives (level + 1) hnext (by omega)
      obtain ⟨y, hy, hfinishes⟩ := hx.signed (v := v) (by omega) hw sign.2
      exact ⟨y, v, hy, hv, hfinishes⟩
  | .linked p link rest, level, t, h, hle => by
      simp only [Phrase.levels] at hle
      obtain ⟨a, b, rfl, ha, u, next, hu, rfl, hnext⟩ := h.exists_append
      obtain ⟨w, q, u', rfl, hw, hu', hq⟩ := p.derives level ha (by omega)
      obtain ⟨x, v, rfl, hv, hx⟩ := rest.derives (level + 1) hnext (by omega)
      obtain ⟨y, hy, hfinishes⟩ :=
        hx.linked (v := v) (by omega) hw hq (hu'.append hu) link
      exact ⟨y, v, by rw [← hy]; simp, hv, hfinishes⟩

theorem Entries.derives : ∀ (entries : Entries) (level : Nat) {t : Text},
    Spaced entries.tokens t → entries.levels + level ≤ limit →
      ∃ x v, t = x ++ v ∧ v.Blank ∧ Derives limit .entries level x
  | .last e, level, t, h, hle => by
      simp only [Entries.levels] at hle
      obtain ⟨a, b, rfl, ha, u, v, hu, rfl, hv⟩ := h.exists_append
      obtain ⟨x, w, rfl, hw, hx⟩ := e.derives (level + 1) ha (by omega)
      exact ⟨x ++ ((w ++ u) ++ [')']), v, by simp, hv, .last hx (hw.append hu)⟩
  | @Entries.more whole e rest, level, t, h, hle => by
      simp only [Entries.levels] at hle
      obtain ⟨a, b, rfl, ha, u, next, hu, rfl, hnext⟩ := h.exists_append
      obtain ⟨x, w, rfl, hw, hx⟩ := e.derives (level + 1) ha (by omega)
      obtain ⟨y, v, rfl, hv, hy⟩ := rest.derives level hnext (by omega)
      have hitem : Derives limit .item (level + 1) x := by
        cases whole with
        | true => exact .whole hx
        | false =>
            rcases hx with hx | ⟨rfl, hlevel⟩
            · exact .lacking hx
            · exact .blank hlevel Text.blank_nil
      exact ⟨x ++ ((w ++ u) ++ ([','] ++ y)), v, by simp, hv, .more hitem (hw.append hu) hy⟩

end

/-- The grammar derives the texts of whole phrases. -/
theorem derivable_iff {source : Text} : Derivable limit source ↔
    ∃ e : Phrase true, Spaced e.tokens source ∧ e.levels ≤ limit := by
  constructor
  · rintro ⟨t, w, ht, hw, rfl⟩
    obtain ⟨e, he, hle⟩ := ht.holds
    refine ⟨e, ?_, by omega⟩
    have happend : Spaced (e.tokens ++ []) (t ++ w) := he.append hw
    rwa [List.append_nil] at happend
  · rintro ⟨e, he, hle⟩
    obtain ⟨x, v, rfl, hv, hx⟩ := e.derives 1 he (Nat.succ_le_succ hle)
    exact ⟨x, v, hx, hv, rfl⟩

/-! ## 4. The texts without reports -/

/-- **A text is read without a report exactly when the grammar derives it**, with no level of the
    derivation beyond the nesting limit. Every text is read. -/
theorem hasErrors_eq_false_iff_derivable (limit : NestingLimit) (source : Text) :
    ∃ p, parse ⟨limit, Dialect.standard⟩ source = .ok p ∧
      (p.hasErrors = false ↔ Derivable limit.levels source) := by
  obtain ⟨g, s', -, hparse⟩ := exists_parse limit source
  refine ⟨_, hparse, ?_⟩
  rw [derivable_iff]
  constructor
  · intro hsilent
    obtain ⟨e, hspaced, hle, -⟩ := exists_phrase_of_parse hparse hsilent
    exact ⟨e, hspaced, hle⟩
  · rintro ⟨e, hspaced, hle⟩
    obtain ⟨p, hparse', hsilent, -⟩ := exists_parse_of_phrase e hspaced hle
    rw [hparse] at hparse'
    rw [Except.ok.inj hparse']
    exact hsilent

end Reckoner
