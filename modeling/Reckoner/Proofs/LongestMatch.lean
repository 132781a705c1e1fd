import Reckoner.Parse
import Reckoner.Proofs.Lexing

/-!
# The longest match

A token is found by trying classes one after the other, and a function name by trying the names of a
table. What is found depends on neither order: numbers and infix symbols are read as far as they go,
a function name is the whole word that stands there, and no two classes of tokens start alike.

* `Text.Longest` -- the longest start of a text in a language, if one is in it;
* `Numeral.longest_lexeme?`, `Token.longest_infixSymbol?` -- numbers and infix symbols are read to
  their end;
* `Text.word`, `Keyword.match?_eq_word` -- a name of a table is found exactly if it is the word at
  the start of the text;
* `wholeWord_match?` -- what this says of the two kinds of functions;
* `Dialect.trying`, `Dialect.classify_trying` -- classes tried in another order give the same token,
  and `parse_trying` the same tree;
* `classify_unambiguous` -- what this says of the classes that start an expression.
-/

namespace Reckoner

/-! ## 1. The longest start of a text in a language -/

namespace Text

/-- What is found at the start of a text is in the language, and no start of the text that is in the
    language is longer. Nothing is found only if no start of the text is in it. -/
def Longest (language : Text → Prop) (t : Text) (found : Option Text) : Prop :=
  (∀ x ∈ found, x <+: t ∧ language x) ∧
    ∀ y, y <+: t → language y → ∃ x ∈ found, y.length ≤ x.length

/-- The run of characters with a property at the start of a text is the longest one. -/
theorem longest_takeWhile (p : Char → Bool) (t : Text) :
    t.Longest (fun x => ∀ c ∈ x, p c = true) (some (t.takeWhile p)) := by
  constructor
  · intro x hx
    obtain rfl := Option.some.inj hx
    exact ⟨List.takeWhile_prefix p, fun c hc => List.mem_takeWhile_imp hc⟩
  · intro y hy hall
    obtain ⟨rest, rfl⟩ := hy
    refine ⟨_, rfl, ?_⟩
    rw [List.takeWhile_append_of_pos hall, List.length_append]
    exact Nat.le_add_right _ _

end Text

/-! ## 2. Numbers and infix symbols -/

namespace Numeral

/-- No part with a mark is longer than the one that is read. -/
theorem length_le_markedPart {isMark : Char → Bool} {part : Text} (h : IsPart isMark part)
    (after : Text) : part.length ≤ (markedPart isMark (part ++ after)).length := by
  rcases h with rfl | ⟨c, run, hc, ⟨hne, hall⟩, rfl⟩
  · exact Nat.zero_le _
  · have hdigits : (run ++ after).takeWhile isDigitOrGroup =
        run ++ after.takeWhile isDigitOrGroup := List.takeWhile_append_of_pos hall
    rw [List.cons_append, markedPart, if_pos hc, hdigits]
    cases run with
    | nil => exact absurd rfl hne
    | cons d run => simp

/-- The run at the start of a text is read, if not more. -/
theorem length_le_lexeme? {run : Text} (hrun : IsRun run) (after : Text) :
    ∃ x ∈ lexeme? (run ++ after), run.length ≤ x.length := by
  have hwhole : IsRun (run ++ after.takeWhile isDigitOrGroup) := by
    refine ⟨List.append_ne_nil_of_left_ne_nil hrun.1 _, fun c hc => ?_⟩
    rcases List.mem_append.1 hc with hc | hc
    · exact hrun.2 c hc
    · exact List.mem_takeWhile_imp hc
  have hlexeme := lexeme?_eq_of_run hwhole (lacks_dropWhile isDigitOrGroup after)
  rw [List.append_assoc, List.takeWhile_append_dropWhile] at hlexeme
  refine ⟨_, hlexeme, ?_⟩
  simp only [List.length_append]
  omega

/-- **A number is read as far as it goes**: no start of the text that is a number is longer. -/
theorem longest_lexeme? (t : Text) : t.Longest IsNumeral (lexeme? t) := by
  constructor
  · intro x hx
    exact (isNumeral_of_lexeme? hx).symm
  · intro y hy hnumeral
    obtain ⟨whole, fraction, exponent, hwhole, hfraction, hexponent, rfl⟩ := hnumeral
    obtain ⟨after, rfl⟩ := hy
    simp only [List.append_assoc]
    rcases hexponent with rfl | ⟨mark, run, hmark, hrun, rfl⟩
    · rcases hfraction with rfl | ⟨point, digits, hpoint, hdigits, rfl⟩
      · simpa using length_le_lexeme? hwhole after
      · -- the point ends the whole part, and the fraction is read at least as far
        have hlacks : Lacks isDigitOrGroup (point :: digits ++ after) := by
          intro c hc
          obtain rfl := Option.some.inj hc
          exact not_isDigitOrGroup_of_isPoint hpoint
        have hle := length_le_markedPart (.inr ⟨point, digits, hpoint, hdigits, rfl⟩) after
        refine ⟨_, lexeme?_eq_of_run hwhole hlacks, ?_⟩
        simp only [List.nil_append, List.length_append, List.length_nil] at hle ⊢
        omega
    · -- the mark ends the whole part and the fraction, and the exponent is read at least as far
      have hpart : IsPart isExponentMark (mark :: run) := .inr ⟨mark, run, hmark, hrun, rfl⟩
      obtain ⟨hdigit, hpoint⟩ := plain_of_isExponentMark hmark
      have hlacks : Lacks isDigitOrGroup (mark :: run ++ after) := by
        intro c hc
        obtain rfl := Option.some.inj hc
        exact hdigit
      have hnext : Lacks isPoint (mark :: run ++ after) := by
        intro c hc
        obtain rfl := Option.some.inj hc
        exact hpoint
      have hread := lexeme?_eq_of_run hwhole
        (hfraction.lacks (fun c hc => not_isDigitOrGroup_of_isPoint hc) hlacks)
      rw [markedPart_append hfraction hlacks hnext, List.drop_left] at hread
      have hle := length_le_markedPart hpart after
      refine ⟨_, hread, ?_⟩
      simp only [List.length_append] at hle ⊢
      omega

end Numeral

/-- **The longest infix symbol is taken**: two stars before one. -/
theorem Token.longest_infixSymbol? (t : Text) :
    t.Longest (· ∈ Token.infixSymbols) (Token.infixSymbol? t) := by
  constructor
  · intro o ho
    have hmem := Token.mem_of_infixSymbol? ho
    have hnext : Link.next? t = some ⟨o, hmem⟩ := Link.next?_eq_some_iff.2 ho
    exact ⟨Link.symbol_prefix_of_next? hnext, hmem⟩
  · intro y hy hsymbol
    obtain ⟨after, rfl⟩ := hy
    rcases List.mem_cons.1 hsymbol with rfl | hshort
    · exact ⟨_, rfl, Nat.le_refl _⟩
    · obtain ⟨c, hc, rfl⟩ := List.mem_map.1 hshort
      cases ho : Token.infixSymbol? ([c] ++ after) with
      | none => exact absurd hc (Token.infixSymbol?_eq_none.1 ho c rfl)
      | some o =>
          have hne : ∀ o ∈ Token.infixSymbols, 1 ≤ o.length := by decide
          exact ⟨o, rfl, hne o (Token.mem_of_infixSymbol? ho)⟩

/-! ## 3. Words -/

namespace Text

/-- The word at the start of a text: the longest run of word characters. -/
def word (t : Text) : Text := t.takeWhile isWord

end Text

namespace Keyword

/-- A name made of word characters stands where it is the whole word. -/
theorem standsAt_iff_eq_word {k : Text} (hword : ∀ c ∈ k, Text.isWord c = true) {t : Text} :
    standsAt t k = true ↔ k = t.word := by
  constructor
  · exact eq_takeWhile_of_standsAt hword
  · intro hk
    obtain ⟨rest, ht, hend⟩ : ∃ rest, t = k ++ rest ∧ endsAt rest = true := by
      refine ⟨t.dropWhile Text.isWord, ?_, ?_⟩
      · rw [hk, Text.word, List.takeWhile_append_dropWhile]
      · have hlacks := Numeral.lacks_dropWhile Text.isWord t
        cases hrest : t.dropWhile Text.isWord with
        | nil => rfl
        | cons c rest =>
            rw [hrest] at hlacks
            simpa [endsAt] using hlacks c rfl
    rw [ht, standsAt, List.drop_left, hend]
    simp

/-- **A name of a table is found exactly if it is the word at the start of the text.** No other name
    of the table stands there, so none can be found in its place. -/
theorem match?_eq_word {table : List Text}
    (htable : ∀ k ∈ table, ∀ c ∈ k, Text.isWord c = true) (t : Text) :
    match? table t = if t.word ∈ table then some t.word else none := by
  by_cases hmem : t.word ∈ table
  · rw [if_pos hmem]
    cases hfound : match? table t with
    | none =>
        have hstands := (standsAt_iff_eq_word (t := t) (htable _ hmem)).2 rfl
        exact absurd hstands (List.find?_eq_none.1 hfound _ hmem)
    | some k =>
        obtain ⟨hk, -, hstands⟩ := mem_of_match? hfound
        rw [(standsAt_iff_eq_word (htable k hk)).1 hstands]
  · rw [if_neg hmem]
    refine List.find?_eq_none.2 fun k hk hstands => hmem ?_
    rw [← (standsAt_iff_eq_word (htable k hk)).1 hstands]
    exact hk

end Keyword

namespace Token.Kind

/-- The names of a kind of functions. -/
def keywords (kind : Kind) : List Text :=
  if kind = .binaryFunction then Keyword.binary
  else if kind = .unaryFunction then Keyword.unary
  else []

theorem isWord_of_mem_keywords {kind : Kind} {k : Text} (hk : k ∈ kind.keywords) :
    ∀ c ∈ k, Text.isWord c = true := by
  unfold keywords at hk
  split at hk
  · exact Keyword.isWord_of_mem (List.mem_append_left _ hk)
  · split at hk
    · exact Keyword.isWord_of_mem (List.mem_append_right _ hk)
    · cases hk

theorem match?_eq_keyword {kind : Kind} (hkind : kind.isFunction = true) :
    kind.match? = Keyword.match? kind.keywords := by
  cases kind with
  | binaryFunction => rfl
  | unaryFunction => rfl
  | _ => cases hkind

end Token.Kind

/-- **Function names are whole words, whatever the order of the tables.** The word at the start of a
    text is its longest run of word characters; a function is found there exactly if that word is in
    the table, and then it is the word. So a name in front of anything that is no word character is
    found whole although shorter names begin it, and a table in another order finds the same. -/
theorem wholeWord_match? (kind : Token.Kind) (hkind : kind.isFunction = true) :
    (∀ t : Text, t.Longest (fun x => ∀ c ∈ x, Text.isWord c = true) (some t.word)) ∧
      (∀ t x, kind.match? t = some x ↔ t.word ∈ kind.keywords ∧ x = t.word) ∧
      (∀ k ∈ kind.keywords, ∀ rest : Text, (∀ c ∈ rest.head?, Text.isWord c = false) →
        kind.match? (k ++ rest) = some k) ∧
      ∀ table, table.Perm kind.keywords → ∀ t, Keyword.match? table t = kind.match? t := by
  have hmatch : ∀ t, kind.match? t = if t.word ∈ kind.keywords then some t.word else none := by
    intro t
    rw [Token.Kind.match?_eq_keyword hkind]
    exact Keyword.match?_eq_word (fun k => Token.Kind.isWord_of_mem_keywords) t
  refine ⟨Text.longest_takeWhile Text.isWord, ?_, ?_, ?_⟩
  · intro t x
    rw [hmatch t]
    by_cases hmem : t.word ∈ kind.keywords
    · simp [hmem, eq_comm]
    · simp [hmem]
  · intro k hk rest hrest
    have hword : (k ++ rest).word = k := by
      rw [Text.word, List.takeWhile_append_of_pos (Token.Kind.isWord_of_mem_keywords hk)]
      cases rest with
      | nil => simp
      | cons c rest => simp [hrest c rfl]
    rw [hmatch, hword, if_pos hk]
  · intro table hperm t
    have htable : ∀ k ∈ table, ∀ c ∈ k, Text.isWord c = true :=
      fun k hk => Token.Kind.isWord_of_mem_keywords (hperm.mem_iff.1 hk)
    rw [hmatch, Keyword.match?_eq_word htable]
    simp only [hperm.mem_iff]

/-- In front of a parenthesis `log10` is found whole, also when the table is turned round. -/
theorem wholeWord_match?_log10 :
    Token.Kind.unaryFunction.match? ("log10".toList ++ "(2)".toList) = some "log10".toList ∧
      Keyword.match? Keyword.unary.reverse ("log10".toList ++ "(2)".toList) =
        some "log10".toList := by
  obtain ⟨-, -, hwhole, hperm⟩ := wholeWord_match? .unaryFunction rfl
  have hbreak : ∀ c ∈ "(2)".toList.head?, Text.isWord c = false := by
    intro c hc
    obtain rfl : '(' = c := by simpa using hc
    decide +kernel
  have hfound := hwhole "log10".toList (by decide) "(2)".toList hbreak
  refine ⟨hfound, ?_⟩
  rw [hperm _ (List.reverse_perm Keyword.unary), hfound]

/-! ## 4. The order of the classes -/

namespace Dialect

/-- The dialect in which other classes are tried where an expression starts. -/
def trying (d : Dialect) (starts : List Token.Kind) : Dialect := { d with starts }

variable {d : Dialect} {starts : List Token.Kind}

/-- **Classes tried in another order, or more than once, give the same token.** -/
theorem classify_trying (hstarts : ∀ kind, kind ∈ starts ↔ kind ∈ standardStarts) (c : Cursor) :
    (d.trying starts).classify c = standard.classify c := by
  cases hfound : (d.trying starts).classify c with
  | none =>
      refine (classify_eq_none.2 fun kind hkind => ?_).symm
      have hnone := List.findSome?_eq_none_iff.1 hfound kind ((hstarts kind).2 hkind)
      exact Option.map_eq_none_iff.1 hnone
  | some token =>
      obtain ⟨kind, hkind, htoken⟩ := List.exists_of_findSome?_eq_some hfound
      obtain ⟨x, hx, rfl⟩ := Option.map_eq_some_iff.1 htoken
      exact (classify_of_match? ((hstarts kind).1 hkind) hx).symm

end Dialect

namespace Rule

variable {starts : List Token.Kind}

theorem primary_trying (hstarts : ∀ kind, kind ∈ starts ↔ kind ∈ Dialect.standardStarts)
    (inner : Rule Node) :
    primary (Dialect.standard.trying starts) inner = primary Dialect.standard inner := by
  unfold primary
  simp only [Dialect.classify_trying hstarts]
  rfl

/-- The order of the classes is asked for only where an expression starts. -/
theorem expression_trying (hstarts : ∀ kind, kind ∈ starts ↔ kind ∈ Dialect.standardStarts)
    (levels : Nat) :
    expression (Dialect.standard.trying starts) levels = expression Dialect.standard levels := by
  induction levels with
  | zero => rfl
  | succ levels ih =>
      unfold expression
      rw [ih, primary_trying hstarts]
      rfl

end Rule

/-- **A text has the same tree and the same reports in whatever order the classes are tried.** -/
theorem parse_trying {starts : List Token.Kind}
    (hstarts : ∀ kind, kind ∈ starts ↔ kind ∈ Dialect.standardStarts) (limit : NestingLimit)
    (source : Text) :
    parse ⟨limit, Dialect.standard.trying starts⟩ source =
      parse ⟨limit, Dialect.standard⟩ source := by
  unfold parse Rule.root
  simp only [Rule.expression_trying hstarts]

/-- **What starts an expression is told without regard to the order of the classes.** At most one
    class matches at a cursor; a number is the longest start of the rest that is one, and an infix
    symbol is the longest one; and classes tried in another order, or more than once, give the same
    token at every cursor and the same tree and reports for every text. -/
theorem classify_unambiguous :
    (∀ c : Cursor, ∀ kind ∈ Dialect.standardStarts, ∀ kind' ∈ Dialect.standardStarts,
        kind.match? c.remaining ≠ none → kind'.match? c.remaining ≠ none → kind = kind') ∧
      (∀ c : Cursor,
        c.remaining.Longest Numeral.IsNumeral (Token.Kind.number.match? c.remaining)) ∧
      (∀ c : Cursor, c.remaining.Longest (· ∈ Token.infixSymbols)
        ((Dialect.infixAt c).map Token.lexeme)) ∧
      ∀ starts : List Token.Kind, (∀ kind, kind ∈ starts ↔ kind ∈ Dialect.standardStarts) →
        (∀ c, (Dialect.standard.trying starts).classify c = Dialect.standard.classify c) ∧
          ∀ limit source, parse ⟨limit, Dialect.standard.trying starts⟩ source =
            parse ⟨limit, Dialect.standard⟩ source := by
  refine ⟨?_, ?_, ?_, ?_⟩
  · intro c kind hkind kind' hkind' hmatch hmatch'
    obtain ⟨x, hx⟩ := Option.ne_none_iff_exists'.1 hmatch
    obtain ⟨x', hx'⟩ := Option.ne_none_iff_exists'.1 hmatch'
    exact Token.Kind.match?_unique hkind hkind' hx hx'
  · intro c
    exact Numeral.longest_lexeme? c.remaining
  · intro c
    have hlexeme : (Dialect.infixAt c).map Token.lexeme = Token.infixSymbol? c.remaining := by
      rw [Dialect.infixAt_eq, Option.map_map]
      exact Link.map_symbol_next? c.remaining
    rw [hlexeme]
    exact Token.longest_infixSymbol? c.remaining
  · intro starts hstarts
    exact ⟨Dialect.classify_trying hstarts, parse_trying hstarts⟩

/-- Classes tried backwards, and each of them twice. -/
theorem classify_unambiguous_backwards :
    parse ⟨NestingLimit.standard, Dialect.standard.trying
        (Dialect.standardStarts.reverse ++ Dialect.standardStarts)⟩ "min(1.5e,-2)".toList =
      parse Settings.standard "min(1.5e,-2)".toList := by
  obtain ⟨-, -, -, hstarts⟩ := classify_unambiguous
  have hmem : ∀ kind, kind ∈ Dialect.standardStarts.reverse ++ Dialect.standardStarts ↔
      kind ∈ Dialect.standardStarts := by
    intro kind
    simp
  exact (hstarts _ hmem).2 NestingLimit.standard "min(1.5e,-2)".toList

end Reckoner
