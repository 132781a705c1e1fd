import Reckoner.Proofs.Cutoff

/-!
# Blanks around a text

Blanks in front of a text and behind it are passed before anything is asked about what stands there,
except in one place: behind a character that does not belong in a list the items go on without
passing blanks first. If that is the last character of a text, blanks behind it are taken for one
more item.

* `Token.Kind.match?_append_blank`, `Link.next?_append_blank` -- blanks behind a text change no
  token in it;
* `Session.Padded` -- two sessions that go on alike, the second one with blanks behind its text;
  each step of reading keeps that, and passing blanks makes them end alike too: `Session.Aligned`;
* `Session.Apart` -- both texts have ended, and the second one had the item more;
* `Reads.pads` -- what one text is read as the padded text is read as, or the two part;
* `parse_padded` -- so blanks around a text matter in that case only.
-/

namespace Reckoner

/-! ## 1. Tokens in front of blanks -/

namespace Text

variable {t v x : Text}

theorem Blank.behindBlanks_eq_nil (hv : v.Blank) : v.behindBlanks = [] := by
  have h := behindBlanks_append hv []
  rwa [List.append_nil] at h

/-- Blanks behind a text stay behind it unless all of it is passed with the blanks in it. -/
theorem Blank.behindBlanks_append (hv : v.Blank) (t : Text) :
    (t.behindBlanks ≠ [] → (t ++ v).behindBlanks = t.behindBlanks ++ v) ∧
      (t.behindBlanks = [] → (t ++ v).behindBlanks = []) := by
  have happend : (t ++ v).behindBlanks =
      if t.behindBlanks.isEmpty then v.behindBlanks else t.behindBlanks ++ v :=
    List.dropWhile_append
  rw [happend]
  by_cases hnil : t.behindBlanks = []
  · simp [hnil, hv.behindBlanks_eq_nil]
  · simp [hnil]

/-- A lexeme at the start of a text does not reach into blanks behind the text. -/
theorem Blank.length_le_of_solid (hv : v.Blank) (hx : ∀ c ∈ x, Cursor.isBlank c = false)
    (hpre : x <+: t ++ v) : x.length ≤ t.length := by
  by_contra hlong
  obtain ⟨w, rfl⟩ := List.prefix_of_prefix_length_le (List.prefix_append t v) hpre (by omega)
  obtain ⟨c, w, rfl⟩ := List.exists_cons_of_ne_nil (l := w) (by rintro rfl; simp at hlong)
  have hc : c ∈ v := ((List.prefix_append_right_inj t).1 hpre).subset List.mem_cons_self
  have hsolid := hx c (List.mem_append_right t List.mem_cons_self)
  rw [hv c hc] at hsolid
  cases hsolid

end Text

namespace Token.Kind

variable {kind : Kind} {t v x : Text}

/-- No lexeme holds a blank. -/
theorem solid_of_match? (h : kind.match? t = some x) : ∀ c ∈ x, Cursor.isBlank c = false := by
  have hone : ∀ set : Text, (∀ c ∈ set, Cursor.isBlank c = false) →
      oneOf set t = some x → ∀ c ∈ x, Cursor.isBlank c = false := by
    intro set hset ho
    obtain ⟨c, after, -, hc, rfl⟩ := oneOf_eq_some.1 ho
    exact List.forall_mem_singleton.2 (hset c hc)
  have hname : kind.isFunction = true → ∀ c ∈ x, Cursor.isBlank c = false := fun hkind =>
    (Keyword.Name.solid ⟨x, mem_keyword_of_match? hkind h⟩).2
  cases kind with
  | number => exact (Numeral.isNumeral_of_lexeme? h).1.solid.2
  | leftParen => exact hone ['('] (by decide) h
  | separator => exact hone [','] (by decide) h
  | prefixOp => exact hone signs (by decide) h
  | infixOp => exact (Link.solid ⟨x, mem_of_infixSymbol? h⟩).2
  | postfixOp => exact hone ['!'] (by decide) h
  | binaryFunction => exact hname rfl
  | unaryFunction => exact hname rfl

/-- **Blanks behind a text change no token at its start.** -/
theorem match?_append_blank (kind : Kind) (hv : v.Blank) :
    kind.match? (t ++ v) = kind.match? t := by
  have hends : Keyword.endsAt v = true := by
    have hall : ∀ c ∈ Cursor.blanks, Text.isWord c = false := by decide +kernel
    cases v with
    | nil => rfl
    | cons c v =>
        have hc : c ∈ Cursor.blanks := by simpa [Cursor.isBlank] using hv c List.mem_cons_self
        simp [Keyword.endsAt, hall c hc]
  cases hmatch : kind.match? (t ++ v) with
  | none => exact (match?_eq_none_cut hmatch fun _ => hends).symm
  | some x =>
      have hle := hv.length_le_of_solid (solid_of_match? hmatch) (prefix_of_match? hmatch)
      exact (match?_cut hmatch hle).symm

end Token.Kind

theorem Link.next?_append_blank {t v : Text} (hv : v.Blank) : next? (t ++ v) = next? t := by
  have h : Token.infixSymbol? (t ++ v) = Token.infixSymbol? t :=
    Token.Kind.match?_append_blank .infixOp hv
  unfold next?
  rw [h]

/-! ## 2. Sessions over a text and over the padded text -/

namespace Session

/-- The problems found so far, without their places. -/
def problems (s : Session) : List Problem := s.reports.map Report.problem

theorem problems_note (s : Session) (problem : Problem) :
    (s.note problem).problems = s.problems ++ [problem] := by
  simp [problems, note]

/-- The session behind a list that the text leaves open. -/
def ended (s : Session) : Session := if s.abandoned then s else s.note .invalidInList

/-- The second session goes on like the first one, over a text with blanks behind it, unless it has
    passed these already. The last character of the first text was not reported in a list. -/
structure Padded (v : Text) (t s : Session) : Prop where
  inside : t.Inside
  inside' : s.Inside
  rest : s.rest = t.rest ++ v ∨ t.rest = [] ∧ s.rest = []
  problems : s.problems = t.problems
  abandoned : s.abandoned = t.abandoned
  closing : v ≠ [] → ∀ r ∈ t.reports, r.problem = .invalidInList →
    r.location.offset + 1 ≠ t.source.length

/-- And where the first text has ended the second one has too. -/
structure Aligned (v : Text) (t s : Session) : Prop extends Padded v t s where
  ends : t.rest = [] → s.rest = []

/-- Both texts have ended. The last character of the first one was reported in a list, and the
    blanks behind it were taken for an item that is no expression. -/
structure Apart (v : Text) (t s : Session) : Prop where
  inside : t.Inside
  inside' : s.Inside
  rest : t.rest = []
  rest' : s.rest = []
  abandoned : s.abandoned = t.abandoned
  blanks : v ≠ []
  closing : ∃ r ∈ t.reports, r.problem = .invalidInList ∧
    r.location.offset + 1 = t.source.length
  problems : ∃ earlier later, t.problems = earlier ++ later ∧
    s.problems = earlier ++ .invalidExpression :: later

/-- The two sessions go on alike and agree in what was read, or have parted. -/
def Together (v : Text) (same : Prop) (t s : Session) : Prop :=
  same ∧ Padded v t s ∨ Apart v t s

variable {v : Text} {t t₁ s s₁ : Session} {same same' : Prop}

theorem Together.imp (h : Together v same t s) (himp : same → same') : Together v same' t s :=
  Or.imp_left (And.imp_left himp) h

namespace Padded

theorem rest_of_ne (h : Padded v t s) (hrest : t.rest ≠ []) : s.rest = t.rest ++ v :=
  h.rest.resolve_right fun hnil => hrest hnil.1

theorem rest_ne (h : Padded v t s) (hrest : t.rest ≠ []) : s.rest ≠ [] := by
  simp [h.rest_of_ne hrest, hrest]

theorem rest_cons (h : Padded v t s) {c : Char} {after : Text} (hrest : t.rest = c :: after) :
    s.rest = c :: (after ++ v) := by
  rw [h.rest_of_ne (by simp [hrest]), hrest, List.cons_append]

theorem rest_lexeme (h : Padded v t s) {x after : Text} (hx : x ≠ [])
    (hrest : t.rest = x ++ after) : s.rest = x ++ (after ++ v) := by
  rw [h.rest_of_ne (by simp [hrest, hx]), hrest, List.append_assoc]

/-- Steps that report nothing and leave the same blanks behind both texts. -/
theorem moved (h : Padded v t s) (ht : t.Onward t₁) (hs : s.Onward s₁)
    (hrest : s₁.rest = t₁.rest ++ v ∨ t₁.rest = [] ∧ s₁.rest = [])
    (hreports : t₁.reports = t.reports ∧ s₁.reports = s.reports)
    (habandoned : t₁.abandoned = t.abandoned ∧ s₁.abandoned = s.abandoned) : Padded v t₁ s₁ := by
  refine ⟨ht.inside, hs.inside, hrest, ?_, ?_, ?_⟩
  · rw [Session.problems, Session.problems, hreports.1, hreports.2]
    exact h.problems
  · rw [habandoned.1, habandoned.2, h.abandoned]
  · rw [hreports.1, ht.source]
    exact h.closing

/-- Both sessions pass a lexeme. -/
theorem past_lexeme (h : Padded v t s) {x after : Text} (hx : x ≠ [])
    (hrest : t.rest = x ++ after) : Padded v (t.past x.length) (s.past x.length) := by
  have hrest' := h.rest_lexeme hx hrest
  have ht : t.Onward (t.past x.length) := onward_past_prefix h.inside ⟨after, hrest.symm⟩
  have hs : s.Onward (s.past x.length) := onward_past_prefix h.inside' ⟨after ++ v, hrest'.symm⟩
  refine h.moved ht hs (.inl ?_) ⟨rfl, rfl⟩ ⟨rfl, rfl⟩
  rw [rest_past_append h.inside hrest, rest_past_append h.inside' hrest']

theorem past_one (h : Padded v t s) {c : Char} {after : Text} (hrest : t.rest = c :: after) :
    Padded v (t.past 1) (s.past 1) :=
  h.past_lexeme (x := [c]) (by simp) hrest

/-- Behind blanks both sessions stand at the same token or both at the end. -/
theorem pastBlanks (h : Padded v t s) (hv : v.Blank) : Aligned v t.pastBlanks s.pastBlanks := by
  have hboth : (t.pastBlanks.rest ≠ [] → s.pastBlanks.rest = t.pastBlanks.rest ++ v) ∧
      (t.pastBlanks.rest = [] → s.pastBlanks.rest = []) := by
    rw [rest_pastBlanks h.inside, rest_pastBlanks h.inside']
    rcases h.rest with hrest | ⟨hrest, hrest'⟩
    · rw [hrest]
      exact hv.behindBlanks_append t.rest
    · simp [hrest, hrest', Text.behindBlanks]
  refine ⟨h.moved (onward_pastBlanks h.inside) (onward_pastBlanks h.inside') ?_ ⟨rfl, rfl⟩
    ⟨rfl, rfl⟩, hboth.2⟩
  by_cases hnil : t.pastBlanks.rest = []
  · exact .inr ⟨hnil, hboth.2 hnil⟩
  · exact .inl (hboth.1 hnil)

theorem begin (h : Padded v t s) : Padded v t.begin s.begin :=
  ⟨h.inside, h.inside', h.rest, h.problems, h.abandoned, h.closing⟩

theorem enter (h : Padded v t s) : Padded v t.enter s.enter :=
  ⟨h.inside, h.inside', h.rest, h.problems, h.abandoned, h.closing⟩

theorem leave (h : Padded v t s) : Padded v t.leave s.leave :=
  ⟨h.inside, h.inside', h.rest, h.problems, h.abandoned, h.closing⟩

theorem entered (h : Padded v t s) (hv : v.Blank) : Aligned v t.entered s.entered :=
  h.begin.enter.pastBlanks hv

/-- Both sessions report the same problem, a character in a list only where the text goes on. -/
theorem note (h : Padded v t s) {problem : Problem}
    (hproblem : v ≠ [] → problem = .invalidInList → t.location.offset + 1 ≠ t.source.length) :
    Padded v (t.note problem) (s.note problem) := by
  refine ⟨h.inside, h.inside', h.rest, ?_, h.abandoned, fun hne => ?_⟩
  · rw [problems_note, problems_note, h.problems]
  · exact forall_mem_note (h.closing hne) (hproblem hne)

theorem abandon (h : Padded v t s) : Padded v t.abandon s.abandon := by
  have hnote : Padded v (t.note .nestedTooDeeply) (s.note .nestedTooDeeply) :=
    h.note fun _ hproblem => by cases hproblem
  have hboth : s.abandon.problems = t.abandon.problems ∧
      (v ≠ [] → ∀ r ∈ t.abandon.reports, r.problem = .invalidInList →
        r.location.offset + 1 ≠ t.source.length) := by
    rw [Session.problems, Session.problems, reports_abandon, reports_abandon, h.abandoned]
    split
    · exact ⟨h.problems, h.closing⟩
    · exact ⟨hnote.problems, hnote.closing⟩
  have ht := onward_abandon h.inside
  have hs := onward_abandon h.inside'
  refine ⟨ht.inside, hs.inside, .inr ⟨rest_abandon h.inside, rest_abandon h.inside'⟩, hboth.1, rfl,
    ?_⟩
  rw [ht.source]
  exact hboth.2

end Padded

/-- Both texts leave a list open at their ends. -/
theorem Aligned.ended (h : Aligned v t s) (hrest : t.rest = []) : Padded v t.ended s.ended := by
  have hlength := h.inside.offset_add_length
  rw [hrest, List.length_nil] at hlength
  unfold Session.ended
  rw [h.abandoned]
  split
  · exact h.toPadded
  · exact h.note fun _ _ => by omega

namespace Apart

theorem ended (h : Apart v t s) : Apart v t.ended s.ended := by
  obtain ⟨inside, inside', rest, rest', abandoned, blanks, ⟨r, hr, hclosing⟩,
    earlier, later, hplain, hpadded⟩ := h
  unfold Session.ended
  rw [abandoned]
  split
  · exact ⟨inside, inside', rest, rest', abandoned, blanks, ⟨r, hr, hclosing⟩,
      earlier, later, hplain, hpadded⟩
  · refine ⟨inside, inside', rest, rest', abandoned, blanks,
      ⟨r, List.mem_append_left _ hr, hclosing⟩, earlier, later ++ [.invalidInList], ?_, ?_⟩
    · rw [problems_note, hplain, List.append_assoc]
    · rw [problems_note, hpadded, List.append_assoc, List.cons_append]

theorem leave (h : Apart v t s) : Apart v t.leave s.leave :=
  ⟨h.inside, h.inside', h.rest, h.rest', h.abandoned, h.blanks, h.closing, h.problems⟩

theorem pastBlanks (h : Apart v t s) : Apart v t.pastBlanks s.pastBlanks := by
  rwa [pastBlanks_eq_self h.inside h.rest, pastBlanks_eq_self h.inside' h.rest']

theorem not_pastBlanks_cons (h : Apart v t s) {c : Char} {after : Text} :
    t.pastBlanks.rest ≠ c :: after := by
  simp [h.pastBlanks.rest]

end Apart

end Session

/-! ## 3. Readings -/

namespace Reading

open Session (Padded Aligned Apart Together)

/-- What a text is read as the padded text is read as too, or the two part. -/
def Pads (v : Text) (inner : Reading) : Prop :=
  ∀ {t s t' : Session} {g : Grouping Node}, inner t g t' → Padded v t s →
    ∃ h s', inner s h s' ∧ Together v (h.map Node.shape = g.map Node.shape) t' s'

/-- Where something of a text can be left over, blanks up to the end of a text are read as an
    expression that is missing. -/
def MissesBlanks (inner : Reading) : Prop :=
  ∀ {t t' : Session} {g : Grouping Node}, inner t g t' → t.Inside → t'.rest ≠ [] →
    ∀ {s : Session}, s.Inside → s.rest.Blank → ∃ h s', inner s h s' ∧ s'.Inside ∧ s'.rest = [] ∧
      s'.abandoned = s.abandoned ∧ s'.problems = s.problems ++ [.invalidExpression]

variable {v : Text} {inner : Reading} {t t' s : Session}

/-- Where nothing is left a list ends. -/
theorem items_ended (hrest : s.rest = []) : inner.Items s [] s.ended := by
  unfold Session.ended
  cases habandoned : s.abandoned with
  | true => exact .givenUp hrest habandoned
  | false => exact .unclosed hrest habandoned

theorem Items.eq_ended {nodes : List Node} (h : inner.Items t nodes t') (hrest : t.rest = []) :
    nodes = [] ∧ t' = t.ended := by
  cases h with
  | givenUp _ habandoned => exact ⟨rfl, (if_pos habandoned).symm⟩
  | unclosed _ habandoned => exact ⟨rfl, (if_neg (by simp [habandoned])).symm⟩
  | comma hne => exact absurd hrest hne
  | closed hne => exact absurd hrest hne
  | junk hne => exact absurd hrest hne
  | ended hne => exact absurd hrest hne

theorem shape_node_eq {g h : Grouping Node} (heq : h.map Node.shape = g.map Node.shape)
    (source source' : Text) : (h.node source).shape = (g.node source').shape := by
  rw [Grouping.shape_node, Grouping.shape_node, heq]

theorem map_shape_cons {g h : Grouping Node} (heq : h.map Node.shape = g.map Node.shape)
    (source source' : Text) {nodes nodes' : List Node}
    (hsame : nodes'.map Node.shape = nodes.map Node.shape) :
    (h.node source :: nodes').map Node.shape = (g.node source' :: nodes).map Node.shape := by
  rw [List.map_cons, List.map_cons, hsame, shape_node_eq heq]

section Pads

variable (hv : v.Blank)

include hv

/-- The blanks behind a character that ends the text in a list are one more item, unless there are
    none. -/
theorem junk_apart (hmisses : inner.MissesBlanks) {t₁ s₁ : Session} {g : Grouping Node} {c : Char}
    (hitem : inner t g t₁) (ht : t.Inside) (hpadded : Padded v t₁ s₁)
    (hnext : t₁.pastBlanks.rest = [c]) (hne : v ≠ []) :
    ∃ h s₂, inner ((s₁.pastBlanks.note .invalidInList).past 1) h s₂ ∧
      ((s₁.pastBlanks.note .invalidInList).past 1).rest ≠ [] ∧
      Apart v ((t₁.pastBlanks.note .invalidInList).past 1) s₂.pastBlanks := by
  have halign := hpadded.pastBlanks hv
  have hnext' : s₁.pastBlanks.rest = c :: v := halign.rest_cons hnext
  have hleft : t₁.rest ≠ [] := by
    intro hnil
    rw [Session.pastBlanks_eq_self hpadded.inside hnil, hnil] at hnext
    cases hnext
  have hpast : ((t₁.pastBlanks.note .invalidInList).past 1).rest = [] :=
    Session.rest_past_one (s := t₁.pastBlanks.note .invalidInList) halign.inside hnext
  have hpast' : ((s₁.pastBlanks.note .invalidInList).past 1).rest = v :=
    Session.rest_past_one (s := s₁.pastBlanks.note .invalidInList) halign.inside' hnext'
  have hin := (Session.onward_past_one (s := t₁.pastBlanks.note .invalidInList) halign.inside
    (by simp [hnext])).inside
  have hin' := (Session.onward_past_one (s := s₁.pastBlanks.note .invalidInList) halign.inside'
    (by simp [hnext'])).inside
  obtain ⟨h, s₂, hitem', hin₂, hrest₂, habandoned, hproblems⟩ :=
    hmisses hitem ht hleft hin' (hpast'.symm ▸ hv)
  refine ⟨h, s₂, hitem', hpast'.symm ▸ hne, ?_⟩
  have hlength := halign.inside.offset_add_length
  rw [hnext, List.length_singleton] at hlength
  rw [Session.pastBlanks_eq_self hin₂ hrest₂]
  refine ⟨hin, hin₂, hpast, hrest₂, habandoned.trans halign.abandoned, hne,
    ⟨_, List.mem_append_right _ (List.mem_singleton.2 rfl), rfl, hlength⟩,
    (t₁.pastBlanks.note .invalidInList).problems, [], (List.append_nil _).symm, ?_⟩
  rw [hproblems]
  show (s₁.pastBlanks.note .invalidInList).problems ++ _ = _
  rw [Session.problems_note, Session.problems_note, halign.problems]

/-- A character in a list that does not end the text, or has no blanks behind it. -/
theorem junk_aligned {t₁ s₁ : Session} {c : Char} {after : Text} (hpadded : Padded v t₁ s₁)
    (hnext : t₁.pastBlanks.rest = c :: after) (hlast : after = [] → v = []) :
    Aligned v ((t₁.pastBlanks.note .invalidInList).past 1)
      ((s₁.pastBlanks.note .invalidInList).past 1) := by
  have halign := hpadded.pastBlanks hv
  have hlength := halign.inside.offset_add_length
  rw [hnext, List.length_cons] at hlength
  have hnote : Padded v (t₁.pastBlanks.note .invalidInList)
      (s₁.pastBlanks.note .invalidInList) := by
    refine halign.note fun hne _ => ?_
    have hpos := List.length_pos_iff.2 fun hnil => hne (hlast hnil)
    omega
  refine ⟨hnote.past_one hnext, fun hnil => ?_⟩
  rw [Session.rest_past_one hnote.inside hnext] at hnil
  rw [Session.rest_past_one hnote.inside' (hnote.rest_cons hnext), hnil, hlast hnil]
  rfl

variable (hinner : inner.Pads v) (hmisses : inner.MissesBlanks)

include hinner hmisses

theorem Items.padded {nodes : List Node} (h : inner.Items t nodes t') (hts : Aligned v t s) :
    ∃ nodes' s', inner.Items s nodes' s' ∧
      Together v (nodes'.map Node.shape = nodes.map Node.shape) t' s' := by
  induction h generalizing s with
  | @givenUp t hrest habandoned =>
      have hended : t.ended = t := if_pos habandoned
      exact ⟨[], _, items_ended (hts.ends hrest), .inl ⟨rfl, hended ▸ hts.ended hrest⟩⟩
  | @unclosed t hrest habandoned =>
      have hended : t.ended = t.note .invalidInList := if_neg (by simp [habandoned])
      exact ⟨[], _, items_ended (hts.ends hrest), .inl ⟨rfl, hended ▸ hts.ended hrest⟩⟩
  | @comma t t₁ t' g after nodes hrest hitem hnext _ ih =>
      have hrest' := hts.rest_ne hrest
      obtain ⟨h, s₁, hitem', ⟨hshape, hpadded⟩ | hapart⟩ := hinner hitem hts.toPadded
      · have halign := hpadded.pastBlanks hv
        obtain ⟨nodes', s', hitems', htogether⟩ := ih ((halign.past_one hnext).pastBlanks hv)
        exact ⟨_, s', .comma hrest' hitem' (halign.rest_cons hnext) hitems',
          htogether.imp (map_shape_cons hshape _ _)⟩
      · exact absurd hnext hapart.not_pastBlanks_cons
  | @closed t t₁ g after hrest hitem hnext =>
      have hrest' := hts.rest_ne hrest
      obtain ⟨h, s₁, hitem', ⟨hshape, hpadded⟩ | hapart⟩ := hinner hitem hts.toPadded
      · have halign := hpadded.pastBlanks hv
        exact ⟨_, _, .closed hrest' hitem' (halign.rest_cons hnext),
          .inl ⟨map_shape_cons hshape _ _ rfl, halign.past_one hnext⟩⟩
      · exact absurd hnext hapart.not_pastBlanks_cons
  | @junk t t₁ t' g c after nodes hrest hitem hnext hcomma hclose hitems ih =>
      have hrest' := hts.rest_ne hrest
      obtain ⟨h, s₁, hitem', ⟨hshape, hpadded⟩ | hapart⟩ := hinner hitem hts.toPadded
      · have hnext' := (hpadded.pastBlanks hv).rest_cons hnext
        by_cases hlast : after = [] → v = []
        · obtain ⟨nodes', s', hitems', htogether⟩ := ih (junk_aligned hv hpadded hnext hlast)
          exact ⟨_, s', .junk hrest' hitem' hnext' hcomma hclose hitems',
            htogether.imp (map_shape_cons hshape _ _)⟩
        · -- the first text ends here, the second one goes on with blanks
          obtain ⟨rfl, hne⟩ := Classical.not_imp.1 hlast
          obtain ⟨h₂, s₂, hitem₂, hleft, hapart⟩ :=
            junk_apart hv hmisses hitem hts.inside hpadded hnext hne
          obtain ⟨-, rfl⟩ := hitems.eq_ended hapart.rest
          have hitems₂ := Items.ended hleft hitem₂ hapart.rest' (items_ended hapart.rest')
          exact ⟨_, _, .junk hrest' hitem' hnext' hcomma hclose hitems₂, .inr hapart.ended⟩
      · exact absurd hnext hapart.not_pastBlanks_cons
  | @ended t t₁ t' g nodes hrest hitem hnext hitems ih =>
      have hrest' := hts.rest_ne hrest
      obtain ⟨h, s₁, hitem', ⟨hshape, hpadded⟩ | hapart⟩ := hinner hitem hts.toPadded
      · have halign := hpadded.pastBlanks hv
        obtain ⟨nodes', s', hitems', htogether⟩ := ih halign
        exact ⟨_, s', .ended hrest' hitem' (halign.ends hnext) hitems',
          htogether.imp (map_shape_cons hshape _ _)⟩
      · have hblanks := hapart.pastBlanks
        obtain ⟨-, rfl⟩ := hitems.eq_ended hblanks.rest
        exact ⟨_, _, .ended hrest' hitem' hblanks.rest' (items_ended hblanks.rest'),
          .inr hblanks.ended⟩

theorem Paren.padded {node : Node} (h : inner.Paren t node t') (hts : Padded v t s) :
    ∃ node' s', inner.Paren s node' s' ∧ Together v (node'.shape = node.shape) t' s' := by
  obtain ⟨hrest, hitems⟩ := h
  obtain ⟨nodes', s', hitems', htogether⟩ :=
    hitems.padded hv hinner hmisses ((hts.past_one hrest).pastBlanks hv)
  refine ⟨_, s', .list (hts.rest_cons hrest) hitems', htogether.imp fun hsame => ?_⟩
  rw [Session.shape_closed_list, Session.shape_closed_list, hsame]

theorem Arguments.padded {node : Node} (h : inner.Arguments t node t') (hts : Aligned v t s) :
    ∃ node' s', inner.Arguments s node' s' ∧ Together v (node'.shape = node.shape) t' s' := by
  cases h with
  | given hparen =>
      obtain ⟨node', s', hparen', htogether⟩ :=
        hparen.padded hv hinner hmisses hts.toPadded
      exact ⟨node', s', .given hparen', htogether⟩
  | missing hrest =>
      have hrest' : s.rest.head? ≠ some '(' := by
        cases hnext : t.rest with
        | nil => simp [hts.ends hnext]
        | cons c after => simpa [hts.rest_cons hnext, hnext] using hrest
      exact ⟨_, _, .missing hrest', .inl ⟨rfl, hts.note fun _ hproblem => by cases hproblem⟩⟩

theorem Primary.padded {node : Node} (h : inner.Primary t node t') (hts : Aligned v t s) :
    ∃ node' s', inner.Primary s node' s' ∧ Together v (node'.shape = node.shape) t' s' := by
  have hnote : Padded v (t.note .invalidExpression) (s.note .invalidExpression) :=
    hts.note fun _ hproblem => by cases hproblem
  cases h with
  | exhausted hrest => exact ⟨_, _, .exhausted (hts.ends hrest), .inl ⟨rfl, hnote⟩⟩
  | invalid hrest hnone =>
      obtain ⟨c, after, hnext⟩ := List.exists_cons_of_ne_nil hrest
      have hrest' := hts.rest_of_ne hrest
      refine ⟨_, _, .invalid (hts.rest_ne hrest) (fun kind hkind => ?_),
        .inl ⟨rfl, hnote.past_one hnext⟩⟩
      rw [hrest', Token.Kind.match?_append_blank kind hv]
      exact hnone kind hkind
  | @number x hmatch =>
      obtain ⟨hnumeral, after, hrest⟩ := Numeral.isNumeral_of_lexeme? hmatch
      have hx : x ≠ [] := hnumeral.solid.1
      have hrest' := hts.rest_lexeme hx hrest.symm
      have hmatch' : Numeral.lexeme? s.rest = some x := by
        rw [hts.rest_of_ne (by simp [← hrest, hx]), ← hmatch]
        exact Token.Kind.match?_append_blank .number hv
      refine ⟨_, _, .number hmatch', .inl ⟨?_, hts.past_lexeme hx hrest.symm⟩⟩
      rw [Session.shape_closed_number hts.inside' hrest',
        Session.shape_closed_number hts.inside hrest.symm]
  | list hparen =>
      obtain ⟨node', s', hparen', htogether⟩ :=
        hparen.padded hv hinner hmisses hts.toPadded
      exact ⟨node', s', .list hparen', htogether⟩
  | placeholder hrest =>
      exact ⟨_, _, .placeholder (hts.rest_cons hrest), .inl ⟨rfl, hts.toPadded⟩⟩
  | prefixed hrest hsign hoperand =>
      obtain ⟨h, s', hoperand', htogether⟩ := hinner hoperand (hts.past_one hrest)
      refine ⟨_, s', .prefixed (hts.rest_cons hrest) hsign hoperand',
        htogether.imp fun hshape => ?_⟩
      rw [Session.shape_closed_signed, Session.shape_closed_signed, shape_node_eq hshape]
  | @call _ kind x _ hkind hmatch hgiven =>
      obtain ⟨after, hrest⟩ := Token.Kind.prefix_of_match? hmatch
      have hx : x ≠ [] :=
        (Keyword.Name.solid ⟨x, Token.Kind.mem_keyword_of_match? hkind hmatch⟩).1
      have hmatch' : kind.match? s.rest = some x := by
        rw [hts.rest_of_ne (by simp [← hrest, hx]), Token.Kind.match?_append_blank kind hv, hmatch]
      obtain ⟨node', s', hgiven', htogether⟩ := hgiven.padded hv hinner hmisses
        ((hts.past_lexeme hx hrest.symm).pastBlanks hv)
      refine ⟨_, s', .call hkind hmatch' hgiven', htogether.imp fun hsame => ?_⟩
      rw [Session.shape_closed_applied s s' s.location hkind hmatch',
        Session.shape_closed_applied t t' t.location hkind hmatch, hsame]

omit hmisses in
theorem Tail.padded {first first' : Node} {g : Grouping Node} (h : inner.Tail t first g t')
    (hts : Aligned v t s) (hfirst : first'.shape = first.shape) :
    ∃ h s', inner.Tail s first' h s' ∧
      Together v (h.map Node.shape = g.map Node.shape) t' s' := by
  have hsame : Link.next? s.rest = Link.next? t.rest := by
    by_cases hrest : t.rest = []
    · rw [hrest, hts.ends hrest]
    · rw [hts.rest_of_ne hrest, Link.next?_append_blank hv]
  cases h with
  | stop hnone =>
      refine ⟨_, s, .stop (hsame.trans hnone), .inl ⟨?_, hts.toPadded⟩⟩
      rw [Grouping.map, Grouping.map, hfirst]
  | @link _ _ link g hnext hright =>
      obtain ⟨after, hrest⟩ := Link.symbol_prefix_of_next? hnext
      obtain ⟨h, s', hright', htogether⟩ :=
        hinner hright (hts.past_lexeme link.solid.1 hrest.symm)
      refine ⟨_, s', .link (hsame.trans hnext) hright', htogether.imp fun hshape => ?_⟩
      rw [Grouping.map_settle, Grouping.map_settle, hfirst, hshape]

end Pads

end Reading

/-- An expression that is begun at the same token in both texts, or at the end of both. -/
theorem Reading.Pads.read {v : Text} {levels : Nat} (hinner : (Reads levels).Pads v) (hv : v.Blank)
    (hmisses : (Reads levels).MissesBlanks) {t t' s : Session} {g : Grouping Node}
    (h : Reads (levels + 1) t g t') (hts : t.entered.Aligned v s.entered) :
    ∃ h s', Reads (levels + 1) s h s' ∧
      Session.Together v (h.map Node.shape = g.map Node.shape) t' s' := by
  obtain ⟨first, t₁, t₂, hprimary, htail, rfl⟩ := h
  obtain ⟨first', s₁, hprimary', ⟨hfirst, hpadded⟩ | hapart⟩ :=
    hprimary.padded hv hinner hmisses hts
  · obtain ⟨h, s₂, htail', ⟨hshape, hpadded₂⟩ | hapart⟩ :=
      htail.padded hv hinner (hpadded.pastBlanks hv) hfirst
    · exact ⟨h, _, ⟨first', s₁, s₂, hprimary', htail', rfl⟩, .inl ⟨hshape, hpadded₂.leave⟩⟩
    · exact ⟨h, _, ⟨first', s₁, s₂, hprimary', htail', rfl⟩, .inr hapart.leave⟩
  · have hblanks := hapart.pastBlanks
    obtain ⟨-, rfl⟩ := htail.eq_of_rest_nil hblanks.rest
    have hnone : Link.next? s₁.pastBlanks.rest = none := hblanks.rest' ▸ rfl
    exact ⟨_, _, ⟨first', s₁, _, hprimary', .stop hnone, rfl⟩, .inr hblanks.leave⟩

theorem Reads.missesBlanks (levels : Nat) : (Reads levels).MissesBlanks := by
  intro t t' g h ht hleft s hs hblank
  cases levels with
  | zero =>
      obtain ⟨-, rfl⟩ := h
      exact absurd (Session.rest_abandon (s := t.begin) ht) hleft
  | succ levels =>
      have hin := (Session.onward_entered hs).inside
      have hrest : s.entered.rest = [] := by
        rw [Session.rest_entered hs, hblank.behindBlanks_eq_nil]
      have hself : (s.entered.note .invalidExpression).pastBlanks =
          s.entered.note .invalidExpression :=
        Session.pastBlanks_eq_self (s := s.entered.note .invalidExpression) hin hrest
      refine ⟨_, _, ⟨_, _, _, .exhausted hrest, .stop ?_, rfl⟩, ?_⟩
      · rw [hself, Session.rest_note, hrest]
        rfl
      · rw [hself]
        exact ⟨hin, hrest, rfl, Session.problems_note _ _⟩

/-- **What a text is read as the padded text is read as too**, unless its last character was
    reported in a list. -/
theorem Reads.pads {v : Text} (hv : v.Blank) (levels : Nat) : (Reads levels).Pads v := by
  induction levels with
  | zero =>
      rintro t s t' g ⟨rfl, rfl⟩ hts
      exact ⟨_, _, ⟨rfl, rfl⟩, .inl ⟨rfl, hts.begin.abandon⟩⟩
  | succ levels ih =>
      intro t s t' g h hts
      exact ih.read hv (Reads.missesBlanks levels) h (hts.entered hv)

/-! ## 4. Whole texts -/

namespace Session

variable {u v : Text} {t s : Session}

/-- Blanks in front of a text are passed before its first token. -/
theorem aligned_start (hu : u.Blank) (hv : v.Blank) (source : Text) :
    (start source).entered.Aligned v (start (u ++ source ++ v)).entered := by
  have ht := inside_start source
  have hs := inside_start (u ++ source ++ v)
  have hrest : (start source).entered.rest = source.behindBlanks := rest_entered ht
  have hrest' : (start (u ++ source ++ v)).entered.rest = (source ++ v).behindBlanks := by
    rw [rest_entered hs, ← Text.behindBlanks_append hu (source ++ v), ← List.append_assoc]
    rfl
  obtain ⟨hleft, hends⟩ := hv.behindBlanks_append source
  refine ⟨⟨(onward_entered ht).inside, (onward_entered hs).inside, ?_, rfl, rfl,
    fun _ _ hr => absurd hr List.not_mem_nil⟩, ?_⟩
  · rw [hrest, hrest']
    by_cases hnil : source.behindBlanks = []
    · exact .inr ⟨hnil, hends hnil⟩
    · exact .inl (hleft hnil)
  · rw [hrest, hrest']
    exact hends

theorem Padded.finished (h : Padded v t s) (hv : v.Blank) : Padded v t.finished s.finished := by
  have halign := h.pastBlanks hv
  unfold Session.finished
  by_cases hrest : t.pastBlanks.rest = []
  · rw [if_pos hrest, if_pos (halign.ends hrest)]
    exact halign.toPadded
  · rw [if_neg hrest, if_neg (halign.rest_ne hrest)]
    exact halign.note fun _ hproblem => by cases hproblem

theorem Apart.finished (h : Apart v t s) : Apart v t.finished s.finished := by
  rwa [finished_of_rest h.inside h.rest, finished_of_rest h.inside' h.rest']

end Session

/-- The codes of the problems that were found. -/
def Parse.codes (p : Parse) : List (Option Text) := p.session.problems.map Problem.code?

/-- **Blanks around a text matter in one case only.** With any nesting limit, and whatever problems
    it has, a text has the same codes and a tree of the same shape with blanks around it as without
    them, unless there are blanks behind it and its last character is reported in a list. Then no
    expression is found between that character and the end, which is reported once more. -/
theorem parse_padded (limit : NestingLimit) {u v : Text} (hu : u.Blank) (hv : v.Blank)
    (source : Text) : ∃ p q,
      parse ⟨limit, Dialect.standard⟩ source = .ok p ∧
      parse ⟨limit, Dialect.standard⟩ (u ++ source ++ v) = .ok q ∧
      ((v = [] ∨ ∀ r ∈ p.reports, r.problem = .invalidInList →
          r.location.offset + 1 ≠ source.length) →
        q.codes = p.codes ∧ q.root.shape = p.root.shape) ∧
      (v ≠ [] → (∃ r ∈ p.reports, r.problem = .invalidInList ∧
          r.location.offset + 1 = source.length) →
        ∃ earlier later, p.codes = earlier ++ later ∧
          q.codes = earlier ++ some "P001".toList :: later) := by
  obtain ⟨levels, hlevels⟩ := Nat.exists_eq_succ_of_ne_zero (Nat.ne_of_gt limit.levels_pos)
  obtain ⟨g, t', hreads, hparse⟩ := exists_parse limit source
  have hsource : t'.finished.source = source :=
    (hreads.onward (Session.inside_start source)).finished.source
  rw [hlevels] at hreads
  have hpads : (Reads levels).Pads v := Reads.pads hv levels
  obtain ⟨h, s', hreads', htogether⟩ := hpads.read hv (Reads.missesBlanks levels) hreads
    (Session.aligned_start hu hv source)
  rw [← Nat.succ_eq_add_one, ← hlevels] at hreads'
  refine ⟨_, _, hparse, parse_eq hreads', ?_⟩
  rcases htogether with ⟨hshape, hpadded⟩ | hapart
  · have hfinished := hpadded.finished hv
    refine ⟨fun _ => ⟨congrArg (List.map Problem.code?) hfinished.problems,
      Reading.shape_node_eq hshape _ _⟩, fun hne => ?_⟩
    rintro ⟨r, hr, hproblem, hoffset⟩
    have hclosing := hfinished.closing hne r hr hproblem
    rw [hsource] at hclosing
    exact absurd hoffset hclosing
  · obtain ⟨-, -, -, -, -, hne, ⟨r, hr, hproblem, hoffset⟩, earlier, later, hplain, hmore⟩ :=
      hapart.finished
    rw [hsource] at hoffset
    refine ⟨?_, fun _ _ => ⟨earlier.map Problem.code?, later.map Problem.code?, ?_, ?_⟩⟩
    · rintro (hnil | hnone)
      · exact absurd hnil hne
      · exact absurd hoffset (hnone r hr hproblem)
    · rw [Parse.codes, hplain, List.map_append]
    · rw [Parse.codes, hmore, List.map_append]
      rfl

/-- An open list and blanks on both sides. -/
theorem parse_padded_open : ∃ p q, parse Settings.standard "2*(1".toList = .ok p ∧
    parse Settings.standard " 2*(1\n".toList = .ok q ∧ q.codes = p.codes ∧
      q.root.shape = p.root.shape := by
  have hplain : ((parse Settings.standard "2*(1".toList).toOption.map fun p =>
      p.reports.map fun r => (r.problem, r.location.offset)) = some [(.invalidInList, 4)] := by
    decide +kernel
  obtain ⟨p, q, hp, hq, hsame, -⟩ := parse_padded NestingLimit.standard (u := [' ']) (v := ['\n'])
    (by decide) (by decide) "2*(1".toList
  change parse Settings.standard _ = _ at hp
  rw [hp] at hplain
  simp only [Except.toOption, Option.map_some, Option.some.injEq] at hplain
  obtain ⟨r, rs, hreports, hr, hnil⟩ := List.map_eq_cons_iff.1 hplain
  obtain ⟨-, hoffset⟩ := Prod.mk.inj hr
  obtain rfl := List.map_eq_nil_iff.1 hnil
  refine ⟨p, q, hp, hq, hsame (.inr fun r' hr' _ => ?_)⟩
  rw [hreports] at hr'
  obtain rfl := List.mem_singleton.1 hr'
  rw [hoffset]
  decide

/-- A semicolon in a list that the text leaves open, without and with a blank behind it. -/
theorem parse_padded_differs : ∃ p q, parse Settings.standard "(1;".toList = .ok p ∧
    parse Settings.standard ("(1;".toList ++ " ".toList) = .ok q ∧ Text.Blank " ".toList ∧
      p.codes = [some "P002".toList, some "P002".toList] ∧
      q.codes = [some "P002".toList, some "P001".toList, some "P002".toList] ∧
      p.root.children.length = 1 ∧ q.root.children.length = 2 := by
  have hrun : ∀ source : Text, ∃ p, parse Settings.standard source = .ok p := fun source =>
    let ⟨_, _, _, hparse⟩ := exists_parse NestingLimit.standard source
    ⟨_, hparse⟩
  obtain ⟨p, hp⟩ := hrun "(1;".toList
  obtain ⟨q, hq⟩ := hrun ("(1;".toList ++ " ".toList)
  have hplain : ((parse Settings.standard "(1;".toList).toOption.map fun p =>
      (p.codes, p.root.children.length)) =
        some ([some "P002".toList, some "P002".toList], 1) := by decide +kernel
  have hpadded : ((parse Settings.standard ("(1;".toList ++ " ".toList)).toOption.map fun q =>
      (q.codes, q.root.children.length)) =
        some ([some "P002".toList, some "P001".toList, some "P002".toList], 2) := by decide +kernel
  rw [hp] at hplain
  rw [hq] at hpadded
  obtain ⟨hcodes, hlength⟩ := Prod.mk.inj (Option.some.inj hplain)
  obtain ⟨hcodes', hlength'⟩ := Prod.mk.inj (Option.some.inj hpadded)
  exact ⟨p, q, hp, hq, by decide, hcodes, hcodes', hlength, hlength'⟩

end Reckoner
