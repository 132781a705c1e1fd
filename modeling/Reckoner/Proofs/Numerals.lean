import Mathlib.Data.List.Induction
import Mathlib.Data.Nat.Digits.Defs
import Mathlib.Tactic.IntervalCases
import Reckoner.Number
import Reckoner.Proofs.Lexing

/-!
# Numbers as written and their values

Underscores may stand anywhere in the three parts of a number, also alone, so that a part may be
left without any digit. The digits that are left decide what the number is.

* `Numeral.Parts` -- a number as written, in its three parts; `Parts.eq_of_text` -- it can be taken
  apart in one way only;
* `Numeral.decimalValue` -- the value of some digits by the weights of their places;
* `integerOf?_digits`, `Parts.floatOf_bare` -- what is read when the underscores are gone;
* `Binary64.NonNegative` -- what a numeral without a sign is read as;
* `ofLexeme_parts` -- the integer, the floating-point number or not-a-number that each number is.
-/

namespace Reckoner

/-! ## 1. Floating-point numbers -/

namespace Binary64

/-- A number that is not below zero; not-a-number is not one. -/
def NonNegative : Binary64 → Prop
  | .nan => False
  | .infinite negative => negative = false
  | .finite negative _ _ => negative = false

theorem NonNegative.ite {x y : Binary64} (p : Prop) [Decidable p] (hx : x.NonNegative)
    (hy : y.NonNegative) : (if p then x else y).NonNegative := by
  split
  · exact hx
  · exact hy

theorem nonNegative_ofRatio (n d : Nat) : (ofRatio false n d).NonNegative := by
  unfold ofRatio
  exact .ite _ rfl (.ite _ rfl rfl)

/-- A decimal without a sign is read as a number that is not below zero. -/
theorem nonNegative_ofDecimal (digits : Nat) (exponent : Int) :
    (ofDecimal false digits exponent).NonNegative := by
  unfold ofDecimal
  exact .ite _ rfl (.ite _ rfl (.ite _ rfl (nonNegative_ofRatio _ _)))

theorem NonNegative.ne_nan {x : Binary64} (h : x.NonNegative) : x ≠ .nan := by
  rintro rfl
  exact h

end Binary64

namespace Numeral

/-! ## 2. The three parts of a number -/

/-- A number as written: its whole part, its fraction with the point in front, and its exponent with
    the mark in front. -/
@[ext] structure Parts where
  whole : Text
  fraction : Text
  exponent : Text
  run : IsRun whole
  pointed : IsPart isPoint fraction
  marked : IsPart isExponentMark exponent

namespace Parts

/-- The number in one piece. -/
def text (p : Parts) : Text := p.whole ++ p.fraction ++ p.exponent

theorem exists_parts {lexeme : Text} (h : lexeme? lexeme = some lexeme) :
    ∃ p : Parts, p.text = lexeme := by
  obtain ⟨⟨whole, fraction, exponent, hrun, hpointed, hmarked, rfl⟩, -⟩ := isNumeral_of_lexeme? h
  exact ⟨⟨whole, fraction, exponent, hrun, hpointed, hmarked⟩, rfl⟩

theorem lacks_behind_whole (p : Parts) : Lacks isDigitOrGroup (p.fraction ++ p.exponent) := by
  have hend : Lacks isDigitOrGroup [] := by simp [Lacks]
  have hexponent := p.marked.lacks (fun c hc => (plain_of_isExponentMark hc).1) hend
  rw [List.append_nil] at hexponent
  exact p.pointed.lacks (fun c hc => not_isDigitOrGroup_of_isPoint hc) hexponent

theorem markedPart_fraction (p : Parts) :
    markedPart isPoint (p.fraction ++ p.exponent) = p.fraction := by
  have hend : ∀ test : Char → Bool, Lacks test [] := by simp [Lacks]
  have hdigit := p.marked.lacks (fun c hc => (plain_of_isExponentMark hc).1) (hend isDigitOrGroup)
  have hpoint := p.marked.lacks (fun c hc => (plain_of_isExponentMark hc).2) (hend isPoint)
  rw [List.append_nil] at hdigit hpoint
  exact markedPart_append p.pointed hdigit hpoint

/-- **A number is taken apart in one way only.** -/
theorem eq_of_text {p q : Parts} (h : p.text = q.text) : p = q := by
  have hwhole : p.whole = q.whole := by
    rw [← takeWhile_run p.run.2 p.lacks_behind_whole, ← List.append_assoc,
      ← takeWhile_run q.run.2 q.lacks_behind_whole, ← List.append_assoc]
    exact congrArg _ h
  have hbehind : p.fraction ++ p.exponent = q.fraction ++ q.exponent := by
    have hall : p.whole ++ (p.fraction ++ p.exponent) =
        q.whole ++ (q.fraction ++ q.exponent) := by
      simpa only [text, List.append_assoc] using h
    rw [hwhole] at hall
    exact List.append_cancel_left hall
  have hfraction : p.fraction = q.fraction := by
    rw [← p.markedPart_fraction, hbehind, q.markedPart_fraction]
  rw [hfraction] at hbehind
  exact Parts.ext hwhole hfraction (List.append_cancel_left hbehind)

end Parts

/-! ## 3. Without underscores -/

/-- The digits of a text. -/
def digitsOf (t : Text) : Text := t.filter Char.isDigit

theorem isDigit_of_mem_digitsOf {t : Text} : ∀ c ∈ digitsOf t, c.isDigit = true :=
  fun _ hc => (List.mem_filter.1 hc).2

/-- A number without its underscores. -/
def bare (t : Text) : Text := t.filter (· ≠ '_')

theorem bare_run {run : Text} (h : ∀ c ∈ run, isDigitOrGroup c = true) :
    bare run = digitsOf run := by
  refine List.filter_congr fun c hc => ?_
  have hdigit : c.isDigit = true ∨ c = '_' := by simpa [isDigitOrGroup] using h c hc
  by_cases hgroup : c = '_'
  · subst hgroup
    rfl
  · rw [hdigit.resolve_right hgroup]
    exact decide_eq_true hgroup

/-- A part is its mark and its digits, unless there is none. -/
theorem bare_part {isMark : Char → Bool} {part : Text} (h : IsPart isMark part)
    (hmark : ∀ c, isMark c = true → isDigitOrGroup c = false) :
    part = [] ∨ ∃ c, isMark c = true ∧ c ∈ part ∧ bare part = c :: digitsOf part := by
  obtain rfl | ⟨c, run, hc, hrun, rfl⟩ := h
  · exact .inl rfl
  · have hplain := hmark c hc
    simp only [isDigitOrGroup, Bool.or_eq_false_iff, decide_eq_false_iff_not] at hplain
    refine .inr ⟨c, hc, List.mem_cons_self, ?_⟩
    rw [digitsOf, List.filter_cons_of_neg (by simp [hplain.1]), ← digitsOf, ← bare_run hrun.2]
    exact List.filter_cons_of_pos (by simpa using hplain.2)

theorem mem_bare {c : Char} {t : Text} (hc : c ≠ '_') : c ∈ bare t ↔ c ∈ t := by
  simp [bare, hc]

/-- Underscores do not hide a point or an exponent mark. -/
theorem hasFloatMark_bare {t : Text} :
    Number.hasFloatMark (bare t) = true ↔ '.' ∈ t ∨ 'e' ∈ t ∨ 'E' ∈ t := by
  simp [Number.hasFloatMark, mem_bare, or_assoc]

/-! ## 4. Plain numerals -/

/-- What is left of a number without its underscores. -/
def plainCharacters : Text := "0123456789.eE".toList

/-- The text is made of such characters. -/
def Plain (t : Text) : Prop := ∀ c ∈ t, c ∈ plainCharacters

theorem mem_plainCharacters {c : Char} (h : c.isDigit = true) : c ∈ plainCharacters := by
  obtain ⟨hlo, hhi⟩ : 48 ≤ c.toNat ∧ c.toNat ≤ 57 := by
    simpa [Char.isDigit, UInt32.le_iff_toNat_le] using h
  rw [← Char.ofNat_toNat c]
  generalize c.toNat = n at hlo hhi
  interval_cases n <;> decide

theorem plain_digitsOf (t : Text) : Plain (digitsOf t) := fun c hc =>
  mem_plainCharacters (isDigit_of_mem_digitsOf c hc)

/-- **A plain numeral is read as it stands.** -/
theorem Plain.plain? {t : Text} (h : Plain t) : Numeral.plain? t = some t := by
  have hblank : ∀ c ∈ plainCharacters, Text.isNumeralBlank c = false := by decide
  have hdigit : ∀ c ∈ plainCharacters, ((Text.digit? c).map Text.digitChar).getD c = c := by decide
  have hdrop : ∀ u : Text, Plain u → u.dropWhile Text.isNumeralBlank = u := by
    intro u hu
    cases u with
    | nil => rfl
    | cons c rest =>
        exact List.dropWhile_cons_of_neg (by simp [hblank c (hu c List.mem_cons_self)])
  have hreverse : Plain t.reverse := fun c hc => h c (List.mem_reverse.1 hc)
  have hself : t.plainNumeral = t := by
    unfold Text.plainNumeral
    rw [hdrop t h, hdrop _ hreverse, List.reverse_reverse]
    exact List.map_congr_left (fun c hc => hdigit c (h c hc)) |>.trans (List.map_id t)
  have hgroup : '_' ∉ t := fun hmem => absurd (h _ hmem) (by decide)
  rw [Numeral.plain?, hself, ungrouped?_of_notMem hgroup]

theorem Plain.sign {t : Text} (h : Plain t) : Numeral.sign t = (false, t) := by
  unfold Numeral.sign
  split
  · exact absurd (h _ List.mem_cons_self) (by decide)
  · exact absurd (h _ List.mem_cons_self) (by decide)
  · rfl

/-- A plain numeral is no name. -/
theorem Plain.named? {t : Text} (h : Plain t) (negative : Bool) :
    Numeral.named? negative t = none := by
  have hletter : ∀ c ∈ plainCharacters, c.toLower ≠ 'n' := by decide
  have hname : 'n' ∉ t.map Char.toLower := by
    rw [List.mem_map]
    rintro ⟨c, hc, hn⟩
    exact hletter c (h c hc) hn
  have hne : ∀ name : Text, 'n' ∈ name → t.map Char.toLower ≠ name :=
    fun name hmem heq => hname (heq ▸ hmem)
  unfold Numeral.named?
  simp only [hne "inf".toList (by decide), hne "infinity".toList (by decide),
    hne "nan".toList (by decide), decide_false, Bool.or_self, if_false]
  rfl

/-! ## 5. What is read -/

/-- The value of some digits by the weights of their places. -/
def decimalValue (digits : Text) : Nat :=
  Nat.ofDigits 10 (digits.reverse.map fun c => c.toNat - '0'.toNat)

/-- **Digits are read one after the other as the weights of their places ask.** -/
theorem natural_eq_decimalValue (digits : Text) : natural digits = decimalValue digits := by
  induction digits using List.reverseRecOn with
  | nil => rfl
  | append_singleton digits c ih =>
      have hvalue : decimalValue (digits ++ [c]) = c.toNat - 48 + 10 * decimalValue digits := by
        rw [decimalValue, List.reverse_append, List.reverse_singleton, List.singleton_append,
          List.map_cons, Nat.ofDigits_cons]
        rfl
      rw [natural_append_singleton, ih, hvalue, Nat.add_comm]

/-- Digits alone are read as an integer, unless there are too many. -/
theorem integerOf?_digits {digits : Text} (h : ∀ c ∈ digits, c.isDigit = true)
    (hne : digits ≠ []) : Number.integerOf? digits =
      if longestInteger < digits.length then none else some (decimalValue digits : Int) := by
  have hplain : Plain digits := fun c hc => mem_plainCharacters (h c hc)
  have hall : digits.all Char.isDigit = true := List.all_eq_true.2 h
  have hempty : digits.isEmpty = false := by simpa using hne
  rw [Number.integerOf?, hplain.plain?, Option.bind_some, integer?, hplain.sign]
  dsimp only
  rw [natural_eq_decimalValue]
  by_cases hlong : longestInteger < digits.length
  · simp [hlong]
  · simp [hall, hempty, hlong]

theorem digitRun_append {digits rest : Text} (h : ∀ c ∈ digits, c.isDigit = true)
    (hrest : Lacks Char.isDigit rest) : digitRun (digits ++ rest) = (digits, rest) := by
  unfold digitRun
  rw [List.takeWhile_append_of_pos h, List.dropWhile_append_of_pos h]
  cases rest with
  | nil => simp
  | cons c rest => simp [hrest c rfl]

/-- Without a point there is no fraction. -/
theorem fraction_of_lacks {t : Text} (h : Lacks isPoint t) : fraction t = ([], t) := by
  unfold fraction
  split
  · exact absurd (h '.' rfl) (by decide)
  · rfl

namespace Parts

variable (p : Parts)

theorem bare_fraction : p.fraction = [] ∨
    '.' ∈ p.fraction ∧ bare p.fraction = '.' :: digitsOf p.fraction := by
  obtain hnone | ⟨point, hpoint, hmem, hbare⟩ :=
    bare_part p.pointed fun _ hc => not_isDigitOrGroup_of_isPoint hc
  · exact .inl hnone
  · obtain rfl : point = '.' := by simpa [isPoint] using hpoint
    exact .inr ⟨hmem, hbare⟩

theorem bare_exponent : p.exponent = [] ∨ ∃ mark, (mark = 'e' ∨ mark = 'E') ∧
    mark ∈ p.exponent ∧ bare p.exponent = mark :: digitsOf p.exponent := by
  obtain hnone | ⟨mark, hmark, hmem, hbare⟩ :=
    bare_part p.marked fun _ hc => (plain_of_isExponentMark hc).1
  · exact .inl hnone
  · exact .inr ⟨mark, by simpa [isExponentMark] using hmark, hmem, hbare⟩

theorem bare_text : bare p.text = digitsOf p.whole ++ (bare p.fraction ++ bare p.exponent) := by
  rw [text, ← bare_run p.run.2, List.append_assoc]
  simp only [bare, List.filter_append]

/-- No digit can be read, or none in the exponent. -/
def Unreadable : Prop :=
  digitsOf p.whole = [] ∧ digitsOf p.fraction = [] ∨ p.exponent ≠ [] ∧ digitsOf p.exponent = []

instance : Decidable p.Unreadable := inferInstanceAs (Decidable (_ ∨ _))

/-- The floating-point number nearest to what the digits say. -/
def nearest : Binary64 :=
  Binary64.ofDecimal false (decimalValue (digitsOf p.whole ++ digitsOf p.fraction))
    (decimalValue (digitsOf p.exponent) - (digitsOf p.fraction).length)

theorem exponent?_bare : exponent? (bare p.exponent) =
    if p.exponent ≠ [] ∧ digitsOf p.exponent = [] then none
    else some (decimalValue (digitsOf p.exponent) : Int) := by
  obtain hnone | ⟨mark, hmark, hmem, hbare⟩ := p.bare_exponent
  · rw [if_neg fun hmissing => hmissing.1 hnone, hnone]
    rfl
  · have hne : p.exponent ≠ [] := List.ne_nil_of_mem hmem
    have hall : (digitsOf p.exponent).all Char.isDigit = true :=
      List.all_eq_true.2 isDigit_of_mem_digitsOf
    rw [hbare, exponent?, if_pos (by simpa using hmark), (plain_digitsOf _).sign]
    dsimp only
    rw [natural_eq_decimalValue]
    simp [hne, hall]

theorem lacks_exponent {test : Char → Bool} (hsmall : test 'e' = false)
    (hcapital : test 'E' = false) : Lacks test (bare p.exponent) := by
  obtain hnone | ⟨mark, rfl | rfl, -, hbare⟩ := p.bare_exponent
  · simp [hnone, bare, Lacks]
  · simpa [hbare, Lacks] using hsmall
  · simpa [hbare, Lacks] using hcapital

theorem lacks_fraction : Lacks Char.isDigit (bare p.fraction ++ bare p.exponent) := by
  obtain hnone | ⟨-, hbare⟩ := p.bare_fraction
  · rw [hnone]
    exact p.lacks_exponent (by decide) (by decide)
  · simp [hbare, Lacks]

theorem fraction_bare : Numeral.fraction (bare p.fraction ++ bare p.exponent) =
    (digitsOf p.fraction, bare p.exponent) := by
  obtain hnone | ⟨-, hbare⟩ := p.bare_fraction
  · rw [hnone]
    exact fraction_of_lacks (p.lacks_exponent (by decide) (by decide))
  · rw [hbare]
    exact digitRun_append isDigit_of_mem_digitsOf (p.lacks_exponent (by decide) (by decide))

theorem decimal?_bare : decimal? false (bare p.text) =
    if p.Unreadable then none else some p.nearest := by
  rw [bare_text, decimal?, digitRun_append isDigit_of_mem_digitsOf p.lacks_fraction]
  dsimp only
  rw [fraction_bare]
  dsimp only
  rw [exponent?_bare, natural_eq_decimalValue]
  by_cases hdigits : digitsOf p.whole = [] ∧ digitsOf p.fraction = []
  · rw [if_pos (by simpa using hdigits), if_pos (.inl hdigits)]
  · rw [if_neg (by simpa using hdigits)]
    by_cases hexponent : p.exponent ≠ [] ∧ digitsOf p.exponent = []
    · rw [if_pos hexponent, if_pos (.inr hexponent), Option.map_none]
    · have hread : ¬ p.Unreadable := not_or.2 ⟨hdigits, hexponent⟩
      rw [if_neg hexponent, if_neg hread, Option.map_some]
      rfl

theorem plain_bare : Plain (bare p.text) := by
  have hfraction : Plain (bare p.fraction) := by
    obtain hnone | ⟨-, hbare⟩ := p.bare_fraction
    · rw [hnone]
      exact List.forall_mem_nil _
    · rw [hbare]
      exact List.forall_mem_cons.2 ⟨by decide, plain_digitsOf _⟩
  have hexponent : Plain (bare p.exponent) := by
    obtain hnone | ⟨mark, rfl | rfl, -, hbare⟩ := p.bare_exponent
    · rw [hnone]
      exact List.forall_mem_nil _
    · rw [hbare]
      exact List.forall_mem_cons.2 ⟨by decide, plain_digitsOf _⟩
    · rw [hbare]
      exact List.forall_mem_cons.2 ⟨by decide, plain_digitsOf _⟩
  rw [bare_text]
  exact List.forall_mem_append.2
    ⟨plain_digitsOf _, List.forall_mem_append.2 ⟨hfraction, hexponent⟩⟩

/-- **Without its underscores a number is read as the floating-point number nearest to it**, or as
    not-a-number where digits are missing. -/
theorem floatOf_bare : Number.floatOf (bare p.text) =
    if p.Unreadable then .nan else p.nearest := by
  rw [Number.floatOf, Number.floatOf?, p.plain_bare.plain?, Option.bind_some, float?,
    p.plain_bare.sign]
  dsimp only
  rw [p.plain_bare.named?, Option.or_none, p.decimal?_bare]
  split
  · rfl
  · rfl

/-! ## 6. Marks -/

/-- What is no digit, no underscore and no mark of a part does not stand in the part. -/
theorem notMem_part {isMark : Char → Bool} {part : Text} (h : IsPart isMark part) {c : Char}
    (hdigit : isDigitOrGroup c = false) (hmark : isMark c = false) : c ∉ part := by
  obtain rfl | ⟨mark, run, hc, hrun, rfl⟩ := h
  · exact List.not_mem_nil
  · rintro (_ | ⟨_, hmem⟩)
    · exact Bool.false_ne_true (hmark.symm.trans hc)
    · exact Bool.false_ne_true (hdigit.symm.trans (hrun.2 c hmem))

theorem mem_text {c : Char} (hc : isDigitOrGroup c = false) :
    c ∈ p.text ↔ c ∈ p.fraction ∨ c ∈ p.exponent := by
  have hwhole : c ∉ p.whole := fun hmem => Bool.false_ne_true (hc.symm.trans (p.run.2 c hmem))
  simp [text, hwhole]

/-- The fraction is there when the point is. -/
theorem mem_text_point : '.' ∈ p.text ↔ p.fraction ≠ [] := by
  have hexponent : '.' ∉ p.exponent := notMem_part p.marked (by decide) (by decide)
  rw [p.mem_text (by decide), or_iff_left hexponent]
  exact ⟨List.ne_nil_of_mem, fun hne => (p.bare_fraction.resolve_left hne).1⟩

/-- The exponent is there when its mark is. -/
theorem mem_text_mark : 'e' ∈ p.text ∨ 'E' ∈ p.text ↔ p.exponent ≠ [] := by
  have hsmall : 'e' ∉ p.fraction := notMem_part p.pointed (by decide) (by decide)
  have hcapital : 'E' ∉ p.fraction := notMem_part p.pointed (by decide) (by decide)
  rw [p.mem_text (by decide), p.mem_text (by decide), or_iff_right hsmall, or_iff_right hcapital]
  refine ⟨fun hmem => hmem.elim List.ne_nil_of_mem List.ne_nil_of_mem, fun hne => ?_⟩
  obtain ⟨mark, rfl | rfl, hmem, -⟩ := p.bare_exponent.resolve_left hne
  · exact .inl hmem
  · exact .inr hmem

/-! ## 7. The number -/

theorem ofLexeme_eq (lexeme : Text) : Number.ofLexeme lexeme =
    if bare lexeme = [] then .int 0
    else if Number.hasFloatMark (bare lexeme) then .float (Number.floatOf (bare lexeme))
    else match Number.integerOf? (bare lexeme) with
      | some n => .int n
      | none => .float (Number.floatOf (bare lexeme)) := by
  simp only [Number.ofLexeme, bare, List.isEmpty_iff]
  rfl

/-- **Without a point and without an exponent** a number is an integer, unless it has too many
    digits. -/
theorem ofLexeme_unmarked (hfraction : p.fraction = []) (hexponent : p.exponent = []) :
    Number.ofLexeme p.text = if longestInteger < (digitsOf p.whole).length then .float p.nearest
      else .int (decimalValue (digitsOf p.whole)) := by
  have hbare : bare p.text = digitsOf p.whole := by
    rw [p.bare_text, hfraction, hexponent]
    exact List.append_nil _
  have hmark : ¬ Number.hasFloatMark (bare p.text) = true := by
    rw [hasFloatMark_bare, p.mem_text_point, p.mem_text_mark]
    exact not_or.2 ⟨fun h => h hfraction, fun h => h hexponent⟩
  rw [ofLexeme_eq, if_neg hmark, p.floatOf_bare, hbare]
  by_cases hempty : digitsOf p.whole = []
  · rw [if_pos hempty, hempty]
    rfl
  · have hread : ¬ p.Unreadable := not_or.2 ⟨fun h => hempty h.1, fun h => h.1 hexponent⟩
    rw [if_neg hempty, if_neg hread, integerOf?_digits isDigit_of_mem_digitsOf hempty]
    by_cases hlong : longestInteger < (digitsOf p.whole).length
    · rw [if_pos hlong, if_pos hlong]
    · rw [if_neg hlong, if_neg hlong]

/-- **With a point or an exponent** a number is a floating-point number. -/
theorem ofLexeme_marked (h : p.fraction ≠ [] ∨ p.exponent ≠ []) :
    Number.ofLexeme p.text = .float (if p.Unreadable then .nan else p.nearest) := by
  have hmark : Number.hasFloatMark (bare p.text) = true := by
    rw [hasFloatMark_bare, p.mem_text_point, p.mem_text_mark]
    exact h
  have hne : bare p.text ≠ [] := by
    intro hempty
    rw [hempty] at hmark
    exact absurd hmark (by decide)
  rw [ofLexeme_eq, if_neg hne, if_pos hmark, p.floatOf_bare]

theorem nearest_nonNegative : p.nearest.NonNegative := Binary64.nonNegative_ofDecimal _ _

end Parts

/-- **The kind and the value of every number as written.** Its three parts are certain. Without a
    point and an exponent mark it is zero when it has no digit, the integer its digits say when
    there are not too many, and else a floating-point number. With one of them it is a
    floating-point number: not-a-number when digits are missing, and no negative one otherwise. -/
theorem ofLexeme_parts {lexeme : Text} (h : lexeme? lexeme = some lexeme) :
    ∃ p : Parts, p.text = lexeme ∧ (∀ q : Parts, q.text = lexeme → q = p) ∧
      ('.' ∉ lexeme ∧ 'e' ∉ lexeme ∧ 'E' ∉ lexeme →
        (digitsOf p.whole = [] → Number.ofLexeme lexeme = .int 0) ∧
        ((digitsOf p.whole).length ≤ 4300 →
          Number.ofLexeme lexeme = .int (decimalValue (digitsOf p.whole))) ∧
        (4300 < (digitsOf p.whole).length → ∃ x, Number.ofLexeme lexeme = .float x ∧ x ≠ .nan)) ∧
      ('.' ∈ lexeme ∨ 'e' ∈ lexeme ∨ 'E' ∈ lexeme →
        ∃ x, Number.ofLexeme lexeme = .float x ∧
          (x = .nan ↔ digitsOf p.whole = [] ∧ digitsOf p.fraction = [] ∨
            ('e' ∈ lexeme ∨ 'E' ∈ lexeme) ∧ digitsOf p.exponent = []) ∧
          (x ≠ .nan → x.NonNegative)) := by
  obtain ⟨p, rfl⟩ := Parts.exists_parts h
  refine ⟨p, rfl, fun q hq => Parts.eq_of_text hq, fun hmark => ?_, fun hmark => ?_⟩
  · have hfraction : p.fraction = [] := by
      simpa [p.mem_text_point] using hmark.1
    have hexponent : p.exponent = [] := by
      have hnone : ¬ ('e' ∈ p.text ∨ 'E' ∈ p.text) := not_or.2 hmark.2
      simpa [p.mem_text_mark] using hnone
    have hvalue := p.ofLexeme_unmarked hfraction hexponent
    refine ⟨fun hempty => ?_, fun hshort => ?_, fun hlong => ?_⟩
    · rw [hvalue, hempty]
      rfl
    · exact hvalue.trans (if_neg (Nat.not_lt.2 hshort))
    · exact ⟨_, hvalue.trans (if_pos hlong), p.nearest_nonNegative.ne_nan⟩
  · rw [p.mem_text_mark, p.mem_text_point] at hmark
    refine ⟨_, p.ofLexeme_marked hmark, ?_, ?_⟩
    · rw [p.mem_text_mark]
      by_cases hread : p.Unreadable
      · exact iff_of_true (if_pos hread) hread
      · rw [if_neg hread]
        exact iff_of_false p.nearest_nonNegative.ne_nan hread
    · intro hne
      have hread : ¬ p.Unreadable := fun hread => hne (if_pos hread)
      rw [if_neg hread]
      exact p.nearest_nonNegative

/-- An exponent of underscores only leaves nothing to read. -/
theorem ofLexeme_underscored_exponent :
    lexeme? "_.5e_".toList = some "_.5e_".toList ∧
      Number.ofLexeme "_.5e_".toList = .float .nan := by
  have hwhole : lexeme? "_.5e_".toList = some "_.5e_".toList := by decide
  obtain ⟨p, -, hunique, -, hmarked⟩ := ofLexeme_parts hwhole
  obtain ⟨x, hx, hnan, -⟩ := hmarked (by decide)
  have hparts := hunique ⟨['_'], ['.', '5'], ['e', '_'], ⟨by decide, by decide⟩,
    .inr ⟨'.', ['5'], rfl, ⟨by decide, by decide⟩, rfl⟩,
    .inr ⟨'e', ['_'], rfl, ⟨by decide, by decide⟩, rfl⟩⟩ rfl
  have hmissing : digitsOf p.exponent = [] := hparts ▸ rfl
  rw [hnan.2 (.inr ⟨by decide, hmissing⟩)] at hx
  exact ⟨hwhole, hx⟩

end Numeral

end Reckoner
