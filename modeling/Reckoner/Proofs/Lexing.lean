import Mathlib.Data.List.TakeWhile
import Reckoner.Proofs.Grouping

/-!
# What stands at the start of a text

Each class of tokens is matched by a function on texts. Here the functions meet their languages:
what they match, and that they match all of a lexeme when what follows cannot prolong it.

* `Text.Blank`, `Text.Breaks` -- blanks, and texts that end any number or word in front of them;
* `Numeral.IsNumeral` -- the language of numbers; `lexeme?_append`, `isNumeral_of_lexeme?`;
* `Keyword.match?_append`, `Keyword.mem_of_match?` -- function names are whole words;
* `Link.next?_append` -- the longest infix symbol is taken;
* `classify_of_match?` -- no two classes match at the start of one expression, so the order in which
  they are tried does not matter;
* `Token.Kind.match?_cut`, `Token.Kind.match?_eq_none_cut` -- what stands there when the text is cut
  off somewhere behind.
-/

namespace Reckoner

/-! ## 1. Blanks and breaks -/

namespace Text

/-- A condition on the characters of a text is decided one character after the other, not over all
    characters there are. -/
instance (t : Text) (p : Char → Prop) [DecidablePred p] : Decidable (∀ c ∈ t, p c) :=
  List.decidableBAll p t

/-- Blanks only. -/
def Blank (w : Text) : Prop := ∀ c ∈ w, Cursor.isBlank c = true

instance (w : Text) : Decidable w.Blank :=
  inferInstanceAs (Decidable (∀ c ∈ w, Cursor.isBlank c = true))

/-- A text without the blanks at its start. -/
def behindBlanks (t : Text) : Text := t.dropWhile Cursor.isBlank

/-- What may follow a token directly: blanks, operators, commas and parentheses. -/
def breaks : Text := Cursor.blanks ++ Token.shortInfixSymbols ++ [',', '(', ')']

/-- The text is empty or starts with a character that ends any number or word. -/
def Breaks (t : Text) : Prop := ∀ c ∈ t.head?, c ∈ breaks

theorem blank_nil : Blank [] := by simp [Blank]

theorem Blank.append {v w : Text} (hv : Blank v) (hw : Blank w) : Blank (v ++ w) := by
  intro c hc
  rcases List.mem_append.1 hc with hc | hc
  · exact hv c hc
  · exact hw c hc

/-- A text is its leading blanks and what stands behind them. -/
theorem exists_behindBlanks (t : Text) : ∃ w, Blank w ∧ t = w ++ t.behindBlanks :=
  ⟨t.takeWhile Cursor.isBlank, fun _ hc => List.mem_takeWhile_imp hc,
    List.takeWhile_append_dropWhile.symm⟩

theorem behindBlanks_append {w : Text} (hw : Blank w) (t : Text) :
    (w ++ t).behindBlanks = t.behindBlanks :=
  List.dropWhile_append_of_pos hw

theorem behindBlanks_eq_self {t : Text} (h : ∀ c ∈ t.head?, Cursor.isBlank c = false) :
    t.behindBlanks = t := by
  cases t with
  | nil => rfl
  | cons c rest => simp [behindBlanks, h c rfl]

theorem head?_behindBlanks (t : Text) :
    ∀ c ∈ t.behindBlanks.head?, Cursor.isBlank c = false := by
  intro c hc
  have h := List.head?_dropWhile_not Cursor.isBlank t
  rw [show (t.dropWhile Cursor.isBlank).head? = some c from hc] at h
  exact h

@[simp] theorem behindBlanks_behindBlanks (t : Text) :
    t.behindBlanks.behindBlanks = t.behindBlanks :=
  behindBlanks_eq_self t.head?_behindBlanks

theorem Blank.breaks {w t : Text} (hw : Blank w) (ht : t.Breaks) : (w ++ t).Breaks := by
  cases w with
  | nil => exact ht
  | cons c w =>
      intro d hd
      obtain rfl : c = d := by simpa using hd
      have hc : c ∈ Cursor.blanks := by simpa [Cursor.isBlank] using hw c List.mem_cons_self
      exact List.mem_append_left _ (List.mem_append_left _ hc)

end Text

/-! ## 2. Numbers -/

namespace Numeral

/-- Digits and underscores, at least one of them. -/
def IsRun (t : Text) : Prop := t ≠ [] ∧ ∀ c ∈ t, isDigitOrGroup c = true

/-- Nothing, or a mark with a run behind it. -/
def IsPart (isMark : Char → Bool) (t : Text) : Prop :=
  t = [] ∨ ∃ c run, isMark c = true ∧ IsRun run ∧ t = c :: run

/-- The language of numbers: a run, perhaps a fraction, perhaps an exponent without a sign. -/
def IsNumeral (x : Text) : Prop :=
  ∃ whole fraction exponent, IsRun whole ∧ IsPart isPoint fraction ∧
    IsPart isExponentMark exponent ∧ x = whole ++ fraction ++ exponent

/-- No character with a property stands at the start of the text. -/
def Lacks (p : Char → Bool) (t : Text) : Prop := ∀ c ∈ t.head?, p c = false

/-- Behind a run that has been read to its end no more of it follows. -/
theorem lacks_dropWhile (p : Char → Bool) (t : Text) : Lacks p (t.dropWhile p) := by
  intro c hc
  have h := List.head?_dropWhile_not p t
  rw [Option.mem_def.1 hc] at h
  exact h

theorem takeWhile_run {run t : Text} (hrun : ∀ c ∈ run, isDigitOrGroup c = true)
    (ht : Lacks isDigitOrGroup t) : (run ++ t).takeWhile isDigitOrGroup = run := by
  rw [List.takeWhile_append_of_pos hrun]
  cases t with
  | nil => simp
  | cons c rest => simp [ht c rfl]

/-- A part is read to its end when no digit follows it, and no mark if there is no part. -/
theorem markedPart_append {isMark : Char → Bool} {part t : Text} (h : IsPart isMark part)
    (hdigit : Lacks isDigitOrGroup t) (hmark : Lacks isMark t) :
    markedPart isMark (part ++ t) = part := by
  rcases h with rfl | ⟨c, run, hc, hrun, rfl⟩
  · cases t with
    | nil => rfl
    | cons c rest => simp [markedPart, hmark c rfl]
  · simp only [List.cons_append, markedPart, hc, if_true, takeWhile_run hrun.2 hdigit]
    cases run with
    | nil => exact absurd rfl hrun.1
    | cons d run => rfl

theorem isPart_markedPart (isMark : Char → Bool) (t : Text) :
    IsPart isMark (markedPart isMark t) ∧ markedPart isMark t <+: t := by
  cases t with
  | nil => exact ⟨.inl rfl, List.nil_prefix⟩
  | cons c rest =>
      unfold markedPart
      by_cases hc : isMark c = true
      · simp only [hc, if_true]
        cases hrun : rest.takeWhile isDigitOrGroup with
        | nil => exact ⟨.inl rfl, List.nil_prefix⟩
        | cons d run =>
            have hpos : IsRun (d :: run) :=
              ⟨by simp, fun e he => List.mem_takeWhile_imp (hrun ▸ he)⟩
            refine ⟨.inr ⟨c, d :: run, hc, hpos, rfl⟩, ?_⟩
            have hpre : d :: run <+: rest := hrun ▸ List.takeWhile_prefix _
            exact (List.prefix_cons_inj c).2 hpre
      · simp only [hc]
        exact ⟨.inl rfl, List.nil_prefix⟩

theorem IsPart.lacks {isMark : Char → Bool} {part t : Text} (h : IsPart isMark part)
    {p : Char → Bool} (hp : ∀ c, isMark c = true → p c = false) (ht : Lacks p t) :
    Lacks p (part ++ t) := by
  rcases h with rfl | ⟨c, run, hc, -, rfl⟩
  · exact ht
  · intro d hd
    obtain rfl : c = d := by simpa using hd
    exact hp c hc

theorem lexeme?_eq_of_run {whole t : Text} (h : IsRun whole) (ht : Lacks isDigitOrGroup t) :
    lexeme? (whole ++ t) = some (whole ++ markedPart isPoint t ++
      markedPart isExponentMark (t.drop (markedPart isPoint t).length)) := by
  unfold lexeme?
  rw [takeWhile_run h.2 ht]
  cases whole with
  | nil => exact absurd rfl h.1
  | cons c run => simp

theorem not_isDigitOrGroup_of_isPoint {c : Char} (hc : isPoint c = true) :
    isDigitOrGroup c = false := by
  obtain rfl : c = '.' := by simpa [isPoint] using hc
  decide

/-- An exponent mark is no digit, and no point either. -/
theorem plain_of_isExponentMark {c : Char} (hc : isExponentMark c = true) :
    isDigitOrGroup c = false ∧ isPoint c = false := by
  obtain rfl | rfl : c = 'e' ∨ c = 'E' := by simpa [isExponentMark] using hc
  · decide
  · decide

/-- **A number is matched to its end** when no digit, underscore, point or exponent mark follows. -/
theorem lexeme?_of_isNumeral {x t : Text} (hx : IsNumeral x) (hdigit : Lacks isDigitOrGroup t)
    (hpoint : Lacks isPoint t) (hmark : Lacks isExponentMark t) : lexeme? (x ++ t) = some x := by
  obtain ⟨whole, fraction, exponent, hw, hf, he, rfl⟩ := hx
  have hed := he.lacks (fun c hc => (plain_of_isExponentMark hc).1) hdigit
  have hep := he.lacks (fun c hc => (plain_of_isExponentMark hc).2) hpoint
  simp only [List.append_assoc]
  rw [lexeme?_eq_of_run hw (hf.lacks (fun c hc => not_isDigitOrGroup_of_isPoint hc) hed),
    markedPart_append hf hed hep, List.drop_left, markedPart_append he hdigit hmark]
  simp

theorem isNumeral_of_lexeme? {t x : Text} (h : lexeme? t = some x) :
    IsNumeral x ∧ x <+: t := by
  obtain ⟨whole, rest, hrun, hrest, rfl⟩ : ∃ whole rest, (∀ c ∈ whole, isDigitOrGroup c = true) ∧
      Lacks isDigitOrGroup rest ∧ t = whole ++ rest := by
    exact ⟨t.takeWhile isDigitOrGroup, t.dropWhile isDigitOrGroup,
      fun _ hc => List.mem_takeWhile_imp hc, lacks_dropWhile isDigitOrGroup t,
      List.takeWhile_append_dropWhile.symm⟩
  cases whole with
  | nil =>
      have hnone : lexeme? ([] ++ rest) = none := by
        unfold lexeme?
        rw [takeWhile_run hrun hrest]
      rw [hnone] at h
      cases h
  | cons c run =>
      have hw : IsRun (c :: run) := ⟨by simp, hrun⟩
      rw [lexeme?_eq_of_run hw hrest] at h
      obtain rfl := Option.some.inj h
      obtain ⟨hf, hfraction⟩ := isPart_markedPart isPoint rest
      obtain ⟨he, later, hexponent⟩ := isPart_markedPart isExponentMark
        (rest.drop (markedPart isPoint rest).length)
      refine ⟨⟨_, _, _, hw, hf, he, rfl⟩, later, ?_⟩
      simp only [List.append_assoc, hexponent]
      rw [List.prefix_iff_eq_append.1 hfraction]

theorem lexeme?_append {x t : Text} (hx : IsNumeral x) (ht : t.Breaks) :
    lexeme? (x ++ t) = some x := by
  have h : ∀ c ∈ Text.breaks,
      isDigitOrGroup c = false ∧ isPoint c = false ∧ isExponentMark c = false := by decide
  exact lexeme?_of_isNumeral hx (fun c hc => (h c (ht c hc)).1) (fun c hc => (h c (ht c hc)).2.1)
    fun c hc => (h c (ht c hc)).2.2

end Numeral

/-! ## 3. Function names -/

namespace Keyword

/-- The names of both tables. -/
def all : List Text := binary ++ unary

theorem isWord_of_mem {k : Text} (hk : k ∈ all) : ∀ c ∈ k, Text.isWord c = true := by
  have h : ∀ k ∈ all, ∀ c ∈ k, Text.isWord c = true := by decide +kernel
  exact h k hk

/-- A name that stands at the start of a text and ends there is the longest run of word characters
    at its start. -/
theorem eq_takeWhile_of_standsAt {t k : Text} (hword : ∀ c ∈ k, Text.isWord c = true)
    (h : standsAt t k = true) : k = t.takeWhile Text.isWord := by
  obtain ⟨hpre, hend⟩ := Bool.and_eq_true_iff.1 h
  obtain ⟨rest, rfl⟩ := List.isPrefixOf_iff_prefix.1 hpre
  rw [List.drop_left] at hend
  rw [List.takeWhile_append_of_pos hword]
  cases rest with
  | nil => simp
  | cons c rest =>
      have hc : Text.isWord c = false := by simpa [endsAt] using hend
      simp [hc]

theorem mem_of_match? {table : List Text} {t k : Text} (h : match? table t = some k) :
    k ∈ table ∧ k <+: t ∧ standsAt t k = true := by
  have hstands := List.find?_some h
  exact ⟨List.mem_of_find?_eq_some h,
    List.isPrefixOf_iff_prefix.1 (Bool.and_eq_true_iff.1 hstands).1, hstands⟩

theorem not_isWord_of_mem_breaks {c : Char} (h : c ∈ Text.breaks) : Text.isWord c = false := by
  have hall : ∀ c ∈ Text.breaks, Text.isWord c = false := by decide +kernel
  exact hall c h

/-- No two names stand at the start of one text, so the order of a table does not matter. -/
theorem match?_eq_some_iff {table : List Text} (htable : ∀ k ∈ table, k ∈ all) {t k : Text} :
    match? table t = some k ↔ k ∈ table ∧ standsAt t k = true := by
  constructor
  · intro h
    obtain ⟨hk, -, hstands⟩ := mem_of_match? h
    exact ⟨hk, hstands⟩
  · rintro ⟨hk, hstands⟩
    cases hfind : match? table t with
    | none => exact absurd hstands (List.find?_eq_none.1 hfind k hk)
    | some k' =>
        obtain ⟨hk', -, hstands'⟩ := mem_of_match? hfind
        rw [eq_takeWhile_of_standsAt (isWord_of_mem (htable k hk)) hstands,
          ← eq_takeWhile_of_standsAt (isWord_of_mem (htable k' hk')) hstands']

/-- **A function name is matched to its end** when something that ends words follows, whatever
    shorter names stand before it in the table. -/
theorem match?_append {table : List Text} {k t : Text} (htable : ∀ k ∈ table, k ∈ all)
    (hk : k ∈ table) (ht : t.Breaks) : match? table (k ++ t) = some k := by
  have hends : endsAt t = true := by
    cases t with
    | nil => rfl
    | cons c rest => simp [endsAt, not_isWord_of_mem_breaks (ht c rfl)]
  have hstands : standsAt (k ++ t) k = true := by
    simp [standsAt, hends]
  exact (match?_eq_some_iff htable).2 ⟨hk, hstands⟩

end Keyword

/-! ## 4. Infix symbols -/

namespace Link

theorem symbol_prefix_of_next? {t : Text} {link : Link} (h : next? t = some link) :
    link.symbol <+: t := by
  have hsymbol : Token.infixSymbol? t = some link.symbol := by
    rw [← map_symbol_next?, h, Option.map_some]
  unfold Token.infixSymbol? at hsymbol
  split at hsymbol
  · rename_i rest
    rw [← Option.some.inj hsymbol]
    exact ⟨rest, rfl⟩
  · obtain ⟨c, rest, rfl, -, hc⟩ := Token.oneOf_eq_some.1 hsymbol
    rw [hc]
    exact ⟨rest, rfl⟩

theorem infixSymbol?_append {o t : Text} (ho : o ∈ Token.infixSymbols) (ht : t.head? ≠ some '*') :
    Token.infixSymbol? (o ++ t) = some o := by
  rcases List.mem_cons.1 ho with rfl | ho
  · rfl
  · obtain ⟨c, hc, rfl⟩ := List.mem_map.1 ho
    unfold Token.infixSymbol?
    split
    · rename_i rest heq
      obtain ⟨rfl, rfl⟩ : c = '*' ∧ t = '*' :: rest := by simpa using heq
      exact absurd rfl ht
    · exact Token.oneOf_eq_some.2 ⟨c, t, rfl, hc, rfl⟩

/-- **An infix symbol is matched to its end** when no star follows. -/
theorem next?_append (link : Link) {t : Text} (ht : t.head? ≠ some '*') :
    next? (link.symbol ++ t) = some link := by
  have h := infixSymbol?_append link.isInfix ht
  unfold next?
  rw [h, Option.bind_some, dif_pos link.isInfix]

theorem next?_eq_none {t : Text} (h : ∀ c ∈ t.head?, c ∉ Token.shortInfixSymbols) :
    next? t = none := by
  have hsymbol : Token.infixSymbol? t = none := by
    cases hs : Token.infixSymbol? t with
    | none => rfl
    | some o =>
        unfold Token.infixSymbol? at hs
        split at hs
        · exact absurd (by decide) (h '*' rfl)
        · obtain ⟨c, rest, rfl, hc, -⟩ := Token.oneOf_eq_some.1 hs
          exact absurd hc (h c rfl)
  rw [next?, hsymbol]
  rfl

end Link

/-! ## 5. Starts of expressions -/

namespace Token.Kind

/-- The class of tokens that a character can start; the two kinds of functions count as one. -/
def lead? (c : Char) : Option Kind :=
  if Numeral.isDigitOrGroup c then some .number
  else if c = '(' then some .leftParen
  else if c = ',' then some .separator
  else if c ∈ signs then some .prefixOp
  else if c.isAlpha then some .unaryFunction
  else none

/-- The class of tokens, the two kinds of functions taken as one. -/
def family : Kind → Kind
  | .binaryFunction => .unaryFunction
  | kind => kind

theorem lead?_of_oneOf {set t x : Text} {kind : Kind} (hset : ∀ c ∈ set, lead? c = some kind)
    (h : oneOf set t = some x) : t.head?.bind lead? = some kind := by
  obtain ⟨c, rest, rfl, hc, -⟩ := oneOf_eq_some.1 h
  exact hset c hc

theorem lead?_of_keyword {table : List Text} {t x : Text} (htable : ∀ k ∈ table, k ∈ Keyword.all)
    (h : Keyword.match? table t = some x) : t.head?.bind lead? = some .unaryFunction := by
  have hall : ∀ k ∈ Keyword.all, k.head?.bind lead? = some .unaryFunction := by decide +kernel
  obtain ⟨hx, ⟨rest, rfl⟩, -⟩ := Keyword.mem_of_match? h
  have hlead := hall x (htable x hx)
  cases x with
  | nil => cases hlead
  | cons c x => exact hlead

/-- The first character decides between the classes that may start an expression. -/
theorem lead?_of_match? {kind : Kind} {t x : Text} (hk : kind ∈ Dialect.standardStarts)
    (h : kind.match? t = some x) : t.head?.bind lead? = some kind.family := by
  cases kind with
  | number =>
      obtain ⟨⟨whole, fraction, exponent, hw, -, -, rfl⟩, rest, rfl⟩ :=
        Numeral.isNumeral_of_lexeme? h
      cases whole with
      | nil => exact absurd rfl hw.1
      | cons c run =>
          have hc : Numeral.isDigitOrGroup c = true := hw.2 c List.mem_cons_self
          simp [lead?, hc, family]
  | leftParen => exact lead?_of_oneOf (by decide) h
  | separator => exact lead?_of_oneOf (by decide) h
  | prefixOp => exact lead?_of_oneOf (by decide) h
  | binaryFunction => exact lead?_of_keyword (fun _ => List.mem_append_left _) h
  | unaryFunction => exact lead?_of_keyword (fun _ => List.mem_append_right _) h
  | infixOp => simp [Dialect.standardStarts] at hk
  | postfixOp => simp [Dialect.standardStarts] at hk

theorem eq_of_family {kind kind' : Kind} (h : kind.family = kind'.family) :
    kind = kind' ∨ kind = .binaryFunction ∧ kind' = .unaryFunction ∨
      kind = .unaryFunction ∧ kind' = .binaryFunction := by
  cases kind <;> cases kind' <;> simp [family] at h ⊢

theorem binary_of_unary {t x y : Text} (hx : Keyword.match? Keyword.binary t = some x)
    (hy : Keyword.match? Keyword.unary t = some y) : False := by
  obtain ⟨hxt, -, hxs⟩ := Keyword.mem_of_match? hx
  obtain ⟨hyt, -, hys⟩ := Keyword.mem_of_match? hy
  have hxword := Keyword.isWord_of_mem (List.mem_append_left _ hxt)
  have hyword := Keyword.isWord_of_mem (List.mem_append_right _ hyt)
  have he : x = y := (Keyword.eq_takeWhile_of_standsAt hxword hxs).trans
    (Keyword.eq_takeWhile_of_standsAt hyword hys).symm
  have hdisjoint : ∀ k ∈ Keyword.binary, k ∉ Keyword.unary := by decide
  exact hdisjoint x hxt (he ▸ hyt)

/-- **At most one class of tokens matches at the start of an expression.** -/
theorem match?_unique {kind kind' : Kind} {t x x' : Text} (hk : kind ∈ Dialect.standardStarts)
    (hk' : kind' ∈ Dialect.standardStarts) (h : kind.match? t = some x)
    (h' : kind'.match? t = some x') : kind = kind' := by
  have hfamily : kind.family = kind'.family :=
    Option.some.inj ((lead?_of_match? hk h).symm.trans (lead?_of_match? hk' h'))
  rcases eq_of_family hfamily with rfl | ⟨rfl, rfl⟩ | ⟨rfl, rfl⟩
  · rfl
  · exact (binary_of_unary h h').elim
  · exact (binary_of_unary h' h).elim

end Token.Kind

namespace Dialect

theorem infixAt_eq (c : Cursor) :
    infixAt c =
      (Link.next? c.remaining).map fun link => ⟨.infixOp, link.symbol, c.location⟩ := by
  unfold infixAt tokenOf
  show (Token.infixSymbol? c.remaining).map _ = _
  rw [← Link.map_symbol_next?, Option.map_map]
  rfl

theorem match?_of_classify {c : Cursor} {token : Token} (h : standard.classify c = some token) :
    token.kind ∈ standardStarts ∧ token.kind.match? c.remaining = some token.lexeme ∧
      token.location = c.location := by
  obtain ⟨kind, hk, hkind⟩ := List.exists_of_findSome?_eq_some h
  obtain ⟨x, hx, rfl⟩ := Option.map_eq_some_iff.1 hkind
  exact ⟨hk, hx, rfl⟩

theorem classify_eq_none {c : Cursor} :
    standard.classify c = none ↔ ∀ kind ∈ standardStarts, kind.match? c.remaining = none := by
  refine List.findSome?_eq_none_iff.trans (forall_congr' fun kind => imp_congr_right fun _ => ?_)
  exact Option.map_eq_none_iff

/-- **The class that matches is the class of the token**, in whatever order classes are tried. -/
theorem classify_of_match? {c : Cursor} {kind : Token.Kind} {x : Text}
    (hk : kind ∈ standardStarts) (h : kind.match? c.remaining = some x) :
    standard.classify c = some ⟨kind, x, c.location⟩ := by
  cases htoken : standard.classify c with
  | none =>
      rw [classify_eq_none.1 htoken kind hk] at h
      cases h
  | some token =>
      obtain ⟨hk', h', hlocation⟩ := match?_of_classify htoken
      obtain rfl := Token.Kind.match?_unique hk hk' h h'
      rw [h] at h'
      rw [← hlocation, Option.some.inj h']

end Dialect

/-! ## 6. Texts that are cut off -/

namespace Numeral

variable {u after : Text}

/-- A run that does not reach behind the cut is the run of the shorter text. -/
theorem takeWhile_cut {p : Char → Bool} (h : ((u ++ after).takeWhile p).length ≤ u.length) :
    u.takeWhile p = (u ++ after).takeWhile p := by
  rw [List.takeWhile_append] at h ⊢
  split
  · rename_i hall
    rw [if_pos hall, List.length_append] at h
    have hnil : after.takeWhile p = [] := List.eq_nil_of_length_eq_zero (by omega)
    rw [hnil, List.append_nil]
    exact (List.takeWhile_prefix p).eq_of_length hall
  · rfl

theorem markedPart_cut {isMark : Char → Bool}
    (h : (markedPart isMark (u ++ after)).length ≤ u.length) :
    markedPart isMark u = markedPart isMark (u ++ after) := by
  cases u with
  | nil => exact (List.eq_nil_of_length_eq_zero (Nat.le_zero.1 h)).symm
  | cons c u =>
      simp only [List.cons_append, markedPart] at h ⊢
      split
      · rename_i hc
        rw [if_pos hc] at h
        have hrun : ((u ++ after).takeWhile isDigitOrGroup).length ≤ u.length := by
          cases hrun : (u ++ after).takeWhile isDigitOrGroup with
          | nil => exact Nat.zero_le _
          | cons d run =>
              rw [hrun] at h
              simpa using h
        rw [takeWhile_cut hrun]
      · rfl

/-- **A number that ends in front of the cut is read as before.** -/
theorem lexeme?_cut {x : Text} (h : lexeme? (u ++ after) = some x) (hx : x.length ≤ u.length) :
    lexeme? u = some x := by
  unfold lexeme? at h ⊢
  cases hwhole : (u ++ after).takeWhile isDigitOrGroup with
  | nil =>
      rw [hwhole] at h
      cases h
  | cons d run =>
      rw [hwhole] at h
      obtain rfl := Option.some.inj h
      simp only [List.length_append] at hx
      have hle : (d :: run).length ≤ u.length := by omega
      rw [List.drop_append_of_le_length hle] at hx ⊢
      generalize hrest : u.drop (d :: run).length = rest at hx ⊢
      have hlength : rest.length = u.length - (d :: run).length := by rw [← hrest, List.length_drop]
      have hfraction : markedPart isPoint rest = markedPart isPoint (rest ++ after) :=
        markedPart_cut (by omega)
      rw [← hfraction] at hx ⊢
      generalize hpart : markedPart isPoint rest = fraction at hx ⊢
      have hle' : fraction.length ≤ rest.length := by omega
      rw [List.drop_append_of_le_length hle'] at hx ⊢
      have hexponent : markedPart isExponentMark (rest.drop fraction.length) =
          markedPart isExponentMark (rest.drop fraction.length ++ after) :=
        markedPart_cut (by rw [List.length_drop]; omega)
      rw [takeWhile_cut (by rw [hwhole]; exact hle), hwhole, ← hexponent]
      simp only [hrest, hpart]

/-- Whether a number stands at the start of a text is told by the first character. -/
theorem lexeme?_eq_none {t : Text} : lexeme? t = none ↔ Lacks isDigitOrGroup t := by
  unfold lexeme?
  cases t with
  | nil => simp [Lacks]
  | cons c t =>
      cases hc : isDigitOrGroup c with
      | true => simp [Lacks, hc]
      | false => simp [Lacks, hc]

end Numeral

namespace Keyword

variable {u after : Text}

theorem standsAt_cut {k : Text} (h : standsAt (u ++ after) k = true) (hk : k.length ≤ u.length) :
    standsAt u k = true := by
  obtain ⟨hpre, hend⟩ := Bool.and_eq_true_iff.1 h
  obtain ⟨v, rfl⟩ := List.prefix_of_prefix_length_le (List.isPrefixOf_iff_prefix.1 hpre)
    (List.prefix_append u after) hk
  rw [List.append_assoc, List.drop_left] at hend
  refine Bool.and_eq_true_iff.2 ⟨by simp, ?_⟩
  rw [List.drop_left]
  cases v with
  | nil => rfl
  | cons c v => exact hend

/-- A name stands in a text that is cut off only if it stood there before, or the cut ends it. -/
theorem standsAt_append {k : Text} (h : standsAt u k = true)
    (hend : u = k → endsAt after = true) : standsAt (u ++ after) k = true := by
  obtain ⟨hpre, hword⟩ := Bool.and_eq_true_iff.1 h
  obtain ⟨v, rfl⟩ := List.isPrefixOf_iff_prefix.1 hpre
  rw [List.drop_left] at hword
  refine Bool.and_eq_true_iff.2 ⟨by simp, ?_⟩
  rw [List.append_assoc, List.drop_left]
  cases v with
  | nil => exact hend (List.append_nil k)
  | cons c v => exact hword

end Keyword

namespace Token

variable {u after x : Text}

theorem oneOf_cut {set : Text} (h : oneOf set (u ++ after) = some x) (hx : x.length ≤ u.length) :
    oneOf set u = some x := by
  obtain ⟨c, rest, hu, hc, rfl⟩ := oneOf_eq_some.1 h
  cases u with
  | nil => simp at hx
  | cons d u =>
      obtain ⟨rfl, -⟩ := List.cons.inj hu
      exact oneOf_eq_some.2 ⟨d, u, rfl, hc, rfl⟩

theorem oneOf_append {set : Text} (h : oneOf set u = some x) :
    oneOf set (u ++ after) = some x := by
  obtain ⟨c, rest, rfl, hc, rfl⟩ := oneOf_eq_some.1 h
  exact oneOf_eq_some.2 ⟨c, rest ++ after, rfl, hc, rfl⟩

theorem infixSymbol?_cut (h : infixSymbol? (u ++ after) = some x) (hx : x.length ≤ u.length) :
    infixSymbol? u = some x := by
  unfold infixSymbol? at h
  split at h
  · rename_i rest hstars
    obtain rfl := Option.some.inj h
    match u, hx, hstars with
    | c :: d :: u, _, hstars =>
        obtain ⟨rfl, hd⟩ := List.cons.inj hstars
        obtain ⟨rfl, -⟩ := List.cons.inj hd
        rfl
  · rename_i hstars
    unfold infixSymbol?
    split
    · rename_i rest
      exact absurd rfl (hstars (rest ++ after))
    · exact oneOf_cut h hx

/-- Whether an infix symbol stands at the start of a text is told by the first character. -/
theorem infixSymbol?_eq_none {t : Text} :
    infixSymbol? t = none ↔ ∀ c ∈ t.head?, c ∉ shortInfixSymbols := by
  unfold infixSymbol?
  split
  · simp [shortInfixSymbols]
  · cases t with
    | nil => simp [oneOf]
    | cons c t => simp [oneOf]

/-- **A token that ends in front of the cut is read as before.** -/
theorem Kind.match?_cut {kind : Kind} (h : kind.match? (u ++ after) = some x)
    (hx : x.length ≤ u.length) : kind.match? u = some x := by
  cases kind with
  | number => exact Numeral.lexeme?_cut h hx
  | leftParen => exact oneOf_cut h hx
  | separator => exact oneOf_cut h hx
  | prefixOp => exact oneOf_cut h hx
  | infixOp => exact infixSymbol?_cut h hx
  | postfixOp => exact oneOf_cut h hx
  | binaryFunction =>
      have htable : ∀ k ∈ Keyword.binary, k ∈ Keyword.all := fun _ => List.mem_append_left _
      obtain ⟨hk, hstands⟩ := (Keyword.match?_eq_some_iff htable).1 h
      exact (Keyword.match?_eq_some_iff htable).2 ⟨hk, Keyword.standsAt_cut hstands hx⟩
  | unaryFunction =>
      have htable : ∀ k ∈ Keyword.unary, k ∈ Keyword.all := fun _ => List.mem_append_right _
      obtain ⟨hk, hstands⟩ := (Keyword.match?_eq_some_iff htable).1 h
      exact (Keyword.match?_eq_some_iff htable).2 ⟨hk, Keyword.standsAt_cut hstands hx⟩

/-- **Where no token stands none stands when the text is cut off**, unless a function name is left
    of a longer word. -/
theorem Kind.match?_eq_none_cut {kind : Kind} (h : kind.match? (u ++ after) = none)
    (hu : u ∈ Keyword.all → Keyword.endsAt after = true) : kind.match? u = none := by
  have hhead : ∀ c ∈ u.head?, c ∈ (u ++ after).head? := by
    intro c hc
    rw [List.head?_append, Option.mem_def.1 hc]
    rfl
  have hone : ∀ {set : Text}, oneOf set (u ++ after) = none → oneOf set u = none := by
    intro set hset
    refine Option.eq_none_iff_forall_not_mem.2 fun x hx => ?_
    rw [oneOf_append hx] at hset
    cases hset
  have hword : ∀ {table : List Text}, (∀ k ∈ table, k ∈ Keyword.all) →
      Keyword.match? table (u ++ after) = none → Keyword.match? table u = none := by
    intro table htable hnone
    refine List.find?_eq_none.2 fun k hk hstands => ?_
    refine List.find?_eq_none.1 hnone k hk (Keyword.standsAt_append hstands ?_)
    rintro rfl
    exact hu (htable u hk)
  cases kind with
  | number =>
      exact Numeral.lexeme?_eq_none.2 fun c hc => Numeral.lexeme?_eq_none.1 h c (hhead c hc)
  | leftParen => exact hone h
  | separator => exact hone h
  | prefixOp => exact hone h
  | infixOp => exact infixSymbol?_eq_none.2 fun c hc => infixSymbol?_eq_none.1 h c (hhead c hc)
  | postfixOp => exact hone h
  | binaryFunction => exact hword (fun _ => List.mem_append_left _) h
  | unaryFunction => exact hword (fun _ => List.mem_append_right _) h

end Token

namespace Link

variable {u after : Text}

theorem next?_eq_some_iff {t : Text} {link : Link} :
    next? t = some link ↔ Token.infixSymbol? t = some link.symbol := by
  rw [← map_symbol_next?]
  cases next? t with
  | none => simp
  | some link' =>
      obtain ⟨o, ho⟩ := link
      obtain ⟨o', ho'⟩ := link'
      simp

theorem next?_cut {link : Link} (h : next? (u ++ after) = some link)
    (hlink : link.symbol.length ≤ u.length) : next? u = some link :=
  next?_eq_some_iff.2 (Token.infixSymbol?_cut (next?_eq_some_iff.1 h) hlink)

theorem next?_eq_none_cut (h : next? (u ++ after) = none) : next? u = none := by
  refine next?_eq_none fun c hc => ?_
  have hsymbol : Token.infixSymbol? (u ++ after) = none := by
    rw [← map_symbol_next?, h, Option.map_none]
  refine Token.infixSymbol?_eq_none.1 hsymbol c ?_
  rw [List.head?_append, Option.mem_def.1 hc]
  rfl

end Link

end Reckoner
