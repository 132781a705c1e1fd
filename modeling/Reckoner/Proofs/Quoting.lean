import Reckoner.Number
import Reckoner.Text.Quoted
import Reckoner.Proofs.Lexing

/-!
# Reading a line back

A line of a tree has several texts behind each other. It can be taken apart again, because none of
them holds what ends it, and because no escape starts another one.

* `Text.lines_eq_splitOn`, `lines_unlines` -- lines that hold no line feed are found again when they
  have been joined;
* `Text.eq_of_split` -- what stands in front of a mark is certain when it does not hold the mark;
* `escaped_free`, `quoted_injective` -- a quotation can be read in one way only, and `notMem_quoted`
  -- it breaks no line;
* `Text.Flat` -- neither quotation marks nor line feeds, as in all numbers: `flat_text`;
* `ofInt_injective` -- counts are told apart by their digits.
-/

namespace Reckoner

namespace Text

/-! ## 1. Lines -/

/-- The lines of a text are its pieces between the line feeds. -/
theorem lines_eq_splitOn (t : Text) : t.lines = t.splitOn '\n' := by
  induction t with
  | nil => rfl
  | cons c rest ih =>
      rw [List.splitOn_eq_splitOnP, List.splitOnP_cons_eq_if_modifyHead,
        ← List.splitOn_eq_splitOnP, ← ih, lines]
      by_cases hc : c = '\n'
      · rw [if_pos hc, if_pos (beq_iff_eq.2 hc)]
      · rw [if_neg hc, if_neg (by simpa using hc)]
        cases hrest : lines rest with
        | nil => exact absurd hrest (lines_ne_nil rest)
        | cons line others => rfl

/-- **Joined lines are found again**, as long as none of them holds a line feed. -/
theorem lines_unlines {ls : List Text} (hne : ls ≠ []) (h : ∀ line ∈ ls, '\n' ∉ line) :
    (unlines ls).lines = ls := by
  rw [lines_eq_splitOn]
  exact List.splitOn_intercalate '\n' h hne

/-- A text without line feeds is one line. -/
theorem lines_eq_singleton {t : Text} (h : '\n' ∉ t) : t.lines = [t] := by
  rw [lines_eq_splitOn]
  exact List.splitOn_eq_singleton h

theorem notMem_of_mem_lines {t line : Text} (h : line ∈ t.lines) : '\n' ∉ line := by
  induction t generalizing line with
  | nil =>
      obtain rfl := List.mem_singleton.1 h
      exact List.not_mem_nil
  | cons c rest ih =>
      rw [lines] at h
      by_cases hc : c = '\n'
      · rw [if_pos hc] at h
        obtain rfl | h := List.mem_cons.1 h
        · exact List.not_mem_nil
        · exact ih h
      · rw [if_neg hc] at h
        cases hrest : lines rest with
        | nil => exact absurd hrest (lines_ne_nil rest)
        | cons first others =>
            rw [hrest] at h ih
            obtain rfl | h := List.mem_cons.1 h
            · rw [List.mem_cons, not_or]
              exact ⟨Ne.symm hc, ih List.mem_cons_self⟩
            · exact ih (List.mem_cons_of_mem first h)

/-! ## 2. Marks -/

/-- **What stands in front of the first mark is certain**, and so is what stands behind it. -/
theorem eq_of_split {mark : Char} {x y s t : Text} (hx : mark ∉ x) (hy : mark ∉ y)
    (h : x ++ mark :: s = y ++ mark :: t) : x = y ∧ s = t := by
  obtain ⟨more, rfl, hmark⟩ | ⟨more, rfl, hmark⟩ := List.append_eq_append_iff.1 h
  · cases more with
    | nil => exact ⟨(List.append_nil x).symm, (List.cons.inj hmark).2⟩
    | cons c more =>
        obtain ⟨rfl, -⟩ := List.cons.inj hmark
        exact absurd (List.mem_append_right x List.mem_cons_self) hy
  · cases more with
    | nil => exact ⟨List.append_nil y, (List.cons.inj hmark).2.symm⟩
    | cons c more =>
        obtain ⟨rfl, -⟩ := List.cons.inj hmark
        exact absurd (List.mem_append_right y List.mem_cons_self) hx

/-- How far a text is set in is certain when it does not start with the filling. -/
theorem eq_of_replicate {c : Char} {m n : Nat} {s t : Text} (hs : s.head? ≠ some c)
    (ht : t.head? ≠ some c) (h : List.replicate m c ++ s = List.replicate n c ++ t) :
    m = n ∧ s = t := by
  induction m generalizing n with
  | zero =>
      cases n with
      | zero => exact ⟨rfl, h⟩
      | succ n =>
          obtain rfl : s = c :: (List.replicate n c ++ t) := h
          exact absurd rfl hs
  | succ m ih =>
      cases n with
      | zero =>
          obtain rfl : t = c :: (List.replicate m c ++ s) := h.symm
          exact absurd rfl ht
      | succ n =>
          obtain ⟨rfl, hst⟩ := ih (List.cons.inj h).2
          exact ⟨rfl, hst⟩

/-! ## 3. Quotations -/

/-- A code that is never empty, and in which no code word starts another one, can be read in one way
    only. -/
theorem flatMap_injective {code : Char → Text} (hne : ∀ c, code c ≠ [])
    (hfree : ∀ c d, code c <+: code d → c = d) {s t : Text}
    (h : s.flatMap code = t.flatMap code) : s = t := by
  induction s generalizing t with
  | nil =>
      cases t with
      | nil => rfl
      | cons d t => exact absurd (List.append_eq_nil_iff.1 h.symm).1 (hne d)
  | cons c s ih =>
      cases t with
      | nil => exact absurd (List.append_eq_nil_iff.1 h).1 (hne c)
      | cons d t =>
          rw [List.flatMap_cons, List.flatMap_cons] at h
          have hc : code c <+: code d ++ t.flatMap code := h ▸ List.prefix_append _ _
          obtain rfl : c = d :=
            (List.prefix_or_prefix_of_prefix hc (List.prefix_append _ _)).elim (hfree c d)
              fun hdc => (hfree d c hdc).symm
          rw [ih (List.append_cancel_left h)]

/-- The characters that are escaped. -/
def escapees : Text := '"' :: '\\' :: (List.range 32).map Char.ofNat

theorem mem_escapees {c : Char} (h : c.toNat < 32) : c ∈ escapees :=
  List.mem_cons_of_mem _ (List.mem_cons_of_mem _
    (List.mem_map.2 ⟨c.toNat, List.mem_range.2 h, Char.ofNat_toNat c⟩))

/-- A character that is not among them is written as it is. -/
theorem escaped_of_notMem {c : Char} (h : c ∉ escapees) : escaped c = [c] := by
  have hne : ∀ d ∈ escapees, c ≠ d := fun d hd hcd => h (hcd ▸ hd)
  have hcode : ¬ c.toNat < 32 := fun hlt => h (mem_escapees hlt)
  unfold escaped
  rw [if_neg (hne '"' (by decide)), if_neg (hne '\\' (by decide)), if_neg (hne '\n' (by decide)),
    if_neg (hne '\r' (by decide)), if_neg (hne '\t' (by decide)), if_neg (by omega),
    if_neg (by omega), if_neg hcode]

/-- An escape starts with a backslash. -/
theorem head?_escaped {c : Char} (h : c ∈ escapees) : (escaped c).head? = some '\\' := by
  have hall : ∀ c ∈ escapees, (escaped c).head? = some '\\' := by decide
  exact hall c h

theorem escaped_ne_nil (c : Char) : escaped c ≠ [] := by
  by_cases hc : c ∈ escapees
  · intro hnil
    have hhead := head?_escaped hc
    rw [hnil] at hhead
    cases hhead
  · simp [escaped_of_notMem hc]

/-- **No escape starts another one**, and none starts with a character that stands for itself. -/
theorem escaped_free (c d : Char) (h : escaped c <+: escaped d) : c = d := by
  have hescapes : ∀ c ∈ escapees, ∀ d ∈ escapees, escaped c <+: escaped d → c = d := by
    decide +kernel
  have hhead : (escaped d).head? = (escaped c).head? := by
    obtain ⟨more, hmore⟩ := h
    rw [← hmore, List.head?_append, List.head?_eq_some_head (escaped_ne_nil c), Option.some_or]
  by_cases hc : c ∈ escapees
  · by_cases hd : d ∈ escapees
    · exact hescapes c hc d hd h
    · rw [head?_escaped hc, escaped_of_notMem hd] at hhead
      obtain rfl : d = '\\' := Option.some.inj hhead
      exact absurd (by decide) hd
  · by_cases hd : d ∈ escapees
    · rw [head?_escaped hd, escaped_of_notMem hc] at hhead
      obtain rfl : '\\' = c := Option.some.inj hhead
      exact absurd (by decide) hc
    · rw [escaped_of_notMem hc, escaped_of_notMem hd] at hhead
      exact (Option.some.inj hhead).symm

theorem notMem_escaped (c : Char) : '\n' ∉ escaped c := by
  by_cases hc : c ∈ escapees
  · have hescapes : ∀ c ∈ escapees, '\n' ∉ escaped c := by decide
    exact hescapes c hc
  · rw [escaped_of_notMem hc, List.mem_singleton]
    rintro rfl
    exact hc (by decide)

/-- A quotation breaks no line. -/
theorem notMem_quoted (t : Text) : '\n' ∉ t.quoted := by
  have hbody : '\n' ∉ t.flatMap escaped := by
    rw [List.mem_flatMap]
    rintro ⟨c, -, hc⟩
    exact notMem_escaped c hc
  simp [quoted, hbody]

/-- **A quotation can be read in one way only.** -/
theorem quoted_injective {s t : Text} (h : s.quoted = t.quoted) : s = t := by
  have hbody := List.append_cancel_right (List.cons.inj h).2
  exact flatMap_injective escaped_ne_nil escaped_free hbody

/-! ## 4. Flat texts -/

/-- The text has no quotation mark and no line feed. -/
def Flat (t : Text) : Prop := ∀ c ∈ t, c ≠ '"' ∧ c ≠ '\n'

instance (t : Text) : Decidable t.Flat :=
  inferInstanceAs (Decidable (∀ c ∈ t, c ≠ '"' ∧ c ≠ '\n'))

theorem Flat.append {s t : Text} (hs : s.Flat) (ht : t.Flat) : (s ++ t).Flat :=
  List.forall_mem_append.2 ⟨hs, ht⟩

theorem Flat.cons {c : Char} {t : Text} (hc : c ≠ '"' ∧ c ≠ '\n') (ht : t.Flat) :
    Flat (c :: t) :=
  List.forall_mem_cons.2 ⟨hc, ht⟩

theorem Flat.subset {s t : Text} (ht : t.Flat) (h : s ⊆ t) : s.Flat := fun c hc => ht c (h hc)

theorem Flat.ite {s t : Text} (p : Prop) [Decidable p] (hs : s.Flat) (ht : t.Flat) :
    Flat (if p then s else t) := by
  split
  · exact hs
  · exact ht

theorem flat_replicate (n : Nat) : Flat (List.replicate n '0') := by
  intro c hc
  obtain rfl := List.eq_of_mem_replicate hc
  decide

theorem isDigit_of_mem_toDigits {n : Nat} {c : Char} (h : c ∈ Nat.toDigits 10 n) :
    c.isDigit = true :=
  Nat.isDigit_of_mem_toDigits (by decide) (by decide) h

theorem flat_toDigits (n : Nat) : Flat (Nat.toDigits 10 n) := by
  intro c hc
  have hdigit := isDigit_of_mem_toDigits hc
  constructor
  · rintro rfl
    exact absurd hdigit (by decide)
  · rintro rfl
    exact absurd hdigit (by decide)

theorem flat_ofInt (n : Int) : Flat (ofInt n) := by
  unfold ofInt
  exact .ite _ (.cons (by decide) (flat_toDigits _)) (flat_toDigits _)

end Text

namespace Layout

theorem flat_writtenOut {digits : Text} (h : digits.Flat) (point : Int) :
    (writtenOut digits point).Flat := by
  have hwhole : Text.Flat (digits.take point.toNat) := h.subset (List.take_subset _ _)
  have hfraction : Text.Flat (digits.drop point.toNat) := h.subset (List.drop_subset _ _)
  unfold writtenOut
  refine .ite _ ?_ ?_
  · exact .append (.cons (by decide) (.cons (by decide) (Text.flat_replicate _))) h
  · exact .append (.append hwhole (Text.flat_replicate _))
      (.cons (by decide) (.ite _ (by decide) hfraction))

theorem flat_scientific (layout : Layout) {digits : Text} (h : digits.Flat) (point : Int) :
    (layout.scientific digits point).Flat := by
  have hfirst : Text.Flat (digits.take 1) := h.subset (List.take_subset _ _)
  have hothers : Text.Flat (digits.drop 1) := h.subset (List.drop_subset _ _)
  have hsign : Text.Flat [if point - 1 < 0 then '-' else '+'] := by
    split
    · decide
    · decide
  have hexponent := (Text.flat_replicate (layout.exponentWidth -
    (Nat.toDigits 10 (point - 1).natAbs).length)).append (Text.flat_toDigits (point - 1).natAbs)
  have hmark := hsign.append hexponent
  have hpoint : Text.Flat (if (digits.drop 1).isEmpty then [] else '.' :: digits.drop 1) :=
    .ite _ (by decide) (.cons (by decide) hothers)
  have hall := (hfirst.append hpoint).append (.cons (c := 'e') (by decide) hmark)
  simpa only [scientific, List.append_assoc, List.cons_append, List.nil_append] using hall

end Layout

theorem Binary64.Cell.flat_shortest (x : Cell) : Text.Flat x.shortest.1 := by
  unfold shortest
  generalize ((List.range 17).findSome? fun k => x.onGrid? (k + 1)).getD (0, 0) = best
  refine Text.Flat.subset (Text.flat_toDigits best.1) fun c hc => ?_
  exact List.mem_reverse.1 ((List.dropWhile_sublist _).subset (List.mem_reverse.1 hc))

/-- **The text of a number has neither quotation marks nor line feeds.** -/
theorem Number.flat_text (number : Number) : number.text.Flat := by
  have hsign : ∀ negative : Bool, Text.Flat (if negative then ['-'] else []) :=
    fun negative => .ite _ (by decide) (by decide)
  cases number with
  | int n => exact Text.flat_ofInt n
  | float x =>
      cases x with
      | nan => exact (by decide : Text.Flat "nan".toList)
      | infinite negative => exact (hsign negative).append (by decide)
      | finite negative significand exponent =>
          refine (hsign negative).append (.ite _ (by decide) ?_)
          have hdigits := Binary64.Cell.flat_shortest ⟨significand, exponent⟩
          unfold Layout.digits
          exact .ite _ (Layout.flat_writtenOut hdigits _) (Layout.flat_scientific _ hdigits _)

/-! ## 5. Counts -/

namespace Text

theorem ofInt_of_nonneg {n : Int} (h : 0 ≤ n) : ofInt n = Nat.toDigits 10 n.natAbs :=
  if_neg (Int.not_lt.2 h)

theorem isDigit_of_mem_ofInt {n : Int} (h : 0 ≤ n) {c : Char} (hc : c ∈ ofInt n) :
    c.isDigit = true := by
  rw [ofInt_of_nonneg h] at hc
  exact isDigit_of_mem_toDigits hc

theorem ofInt_injective {m n : Int} (hm : 0 ≤ m) (hn : 0 ≤ n) (h : ofInt m = ofInt n) : m = n := by
  rw [ofInt_of_nonneg hm, ofInt_of_nonneg hn] at h
  have habs : m.natAbs = n.natAbs := by
    rw [← Nat.ofDigitChars_ten_toDigits (n := m.natAbs), h, Nat.ofDigitChars_ten_toDigits]
  omega

end Text

end Reckoner
