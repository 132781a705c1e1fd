import Reckoner.Proofs.Shape
import Reckoner.Proofs.Stretch

/-!
# Reading an excerpt

A stretch cut out of a text is read as it is read inside the text, as long as the cut separates no
tokens.

* `Node.relative` -- a tree with its places counted from some other origin;
* `Session.Excerpt` -- two sessions at one place, one of them in the text and one in the stretch cut
  out of it;
* `Text.Sealed` -- a cut behind which no word goes on;
* `Reads.carried` -- what is read in front of a sealed cut is read in the excerpt as well.
-/

namespace Reckoner

/-! ## 1. Places from another origin -/

/-- The offset from another origin; lines and columns are left out. -/
def Location.relative (origin : Int) (here : Location) : Location := ⟨0, 0, here.offset - origin⟩

/-- The label with offsets from another origin, and without its text. -/
def Label.relative (origin : Int) (label : Label) : Label :=
  { label with
    span := ⟨label.span.start.relative origin, label.span.stop.relative origin⟩
    text := [] }

theorem Label.relative_endAlong (label : Label) (source : Text) (other : Span) (origin : Int) :
    ((label.endAlong other).refresh source).relative origin =
      (label.relative origin).endAlong
        ⟨other.start.relative origin, other.stop.relative origin⟩ := rfl

namespace Node

mutual

/-- The tree with offsets from another origin. Kinds, operators, symbols, numbers and the children
    in order are kept. -/
def relative (origin : Int) : Node → Node
  | .mk label children => .mk (label.relative origin) (relatives origin children)

/-- The same for some trees. -/
def relatives (origin : Int) : List Node → List Node
  | [] => []
  | node :: rest => node.relative origin :: relatives origin rest

end

theorem relatives_eq_map (origin : Int) (nodes : List Node) :
    relatives origin nodes = nodes.map (relative origin) := by
  induction nodes with
  | nil => rfl
  | cons node rest ih => rw [relatives, ih, List.map_cons]

@[simp] theorem relative_mk (origin : Int) (label : Label) (children : List Node) :
    (mk label children).relative origin =
      .mk (label.relative origin) (children.map (relative origin)) := by
  rw [relative, relatives_eq_map]

theorem span_relative (origin : Int) (n : Node) :
    (n.relative origin).span = ⟨n.span.start.relative origin, n.span.stop.relative origin⟩ := by
  cases n
  rw [relative_mk]
  rfl

end Node

/-- The tree of a grouping from another origin is made of its operands from there. -/
theorem Grouping.relative_node (source : Text) (origin : Int) (g : Grouping Node) :
    (g.node source).relative origin = (g.map (Node.relative origin)).node [] := by
  induction g with
  | operand p => rfl
  | join link left right ihl ihr =>
      have hjoined : ∀ a b : Node, (Node.joined source link a b).relative origin =
          .joined [] link (a.relative origin) (b.relative origin) := by
        intro a b
        obtain ⟨la, ca⟩ := a
        obtain ⟨lb, cb⟩ := b
        simp [Node.joined, Label.joined, Label.relative, Label.refresh, Label.plain, Span.cut,
          Text.slice, Node.span]
      rw [node, hjoined, ihl, ihr]
      rfl

/-- A node that ends where another one does, from two origins. -/
theorem Session.relative_closedAlong {s t : Session} {a b : Int} {label label' : Label}
    {last last' : Node} (hlabel : label'.relative a = label.relative b)
    (hlast : last'.relative a = last.relative b) :
    (t.closedAlong label' [last'] last').relative a =
      (s.closedAlong label [last] last).relative b := by
  have hspan := congrArg Node.span hlast
  rw [Node.span_relative, Node.span_relative] at hspan
  unfold closedAlong
  rw [Node.relative_mk, Node.relative_mk, Label.relative_endAlong, Label.relative_endAlong, hlabel,
    hspan, List.map_singleton, List.map_singleton, hlast]

/-! ## 2. Sessions at one place -/

namespace Text

/-- The text ends in `after`, and in front of that the last word has ended unless nothing is cut
    off. -/
def Sealed (after t : Text) : Prop :=
  ∃ u, t = u ++ after ∧ (after = [] ∨ ∃ c ∈ u, isWord c = false)

variable {after t t' : Text}

theorem Sealed.suffix (h : Sealed after t) : after <:+ t := by
  obtain ⟨u, rfl, -⟩ := h
  exact List.suffix_append u after

theorem Sealed.mono (h : Sealed after t) (hsuffix : t <:+ t') : Sealed after t' := by
  obtain ⟨u, rfl, hend⟩ := h
  obtain ⟨v, rfl⟩ := hsuffix
  refine ⟨v ++ u, (List.append_assoc ..).symm, hend.imp_right ?_⟩
  rintro ⟨c, hc, hword⟩
  exact ⟨c, List.mem_append_right v hc, hword⟩

/-- A character that ends words seals whatever stands in front of it. -/
theorem sealed_of_cons {c : Char} {r : Text} (hc : c ∈ breaks) (ht : c :: r <:+ t)
    (hr : after <:+ r) : Sealed after t := by
  obtain ⟨u, rfl⟩ := hr
  have hword := Keyword.not_isWord_of_mem_breaks hc
  exact Sealed.mono ⟨c :: u, rfl, .inr ⟨c, List.mem_cons_self, hword⟩⟩ ht

/-- Where no token stands none stands in front of a sealed cut: it leaves no function name of a
    longer word. -/
theorem Sealed.match?_eq_none {kind : Token.Kind} {u : Text} (h : Sealed after (u ++ after))
    (hnone : kind.match? (u ++ after) = none) : kind.match? u = none := by
  obtain ⟨v, hv, hend⟩ := h
  obtain rfl := List.append_cancel_right hv
  rcases hend with rfl | ⟨c, hc, hword⟩
  · rwa [List.append_nil] at hnone
  · refine Token.Kind.match?_eq_none_cut hnone fun hu => ?_
    rw [Keyword.isWord_of_mem hu c hc] at hword
    cases hword

end Text

namespace Session

/-- The second session stands in a stretch cut out of the text of the first one, at the same place.
    Neither text was given up, and the second session has no reports unless the first one has. -/
structure Excerpt (before after : Text) (s t : Session) : Prop where
  inside : s.Inside
  inside' : t.Inside
  source : s.source = before ++ (t.source ++ after)
  offset : s.location.offset = before.length + t.location.offset
  abandoned : s.abandoned = false
  abandoned' : t.abandoned = false
  silent : s.reports = [] → t.reports = []

namespace Excerpt

variable {before after : Text} {s t s₁ t₁ : Session} (h : Excerpt before after s t)

include h

/-- What is left of the text is what is left of the excerpt and what was cut off. -/
theorem rest : s.rest = t.rest ++ after := by
  obtain ⟨m, hm, -, hs⟩ := Cursor.Inside.exists_offset h.inside
  obtain ⟨n, hn, hle, ht⟩ := Cursor.Inside.exists_offset h.inside'
  have hoffset : m = before.length + n := by
    have := h.offset
    unfold location at this
    omega
  have hsource : s.cursor.source = before ++ (t.cursor.source ++ after) := h.source
  show s.cursor.remaining = t.cursor.remaining ++ after
  rw [hs, ht, hsource, hoffset, List.drop_length_add_append, List.drop_append_of_le_length hle]

/-- Both sessions go on and are at one place again if the same is cut off. -/
theorem onward (hs : s.Onward s₁) (ht : t.Onward t₁) (hrest : s₁.rest = t₁.rest ++ after)
    (hmark : s₁.abandoned = s.abandoned) (hmark' : t₁.abandoned = t.abandoned)
    (hsilent : s₁.reports = [] → t₁.reports = []) : Excerpt before after s₁ t₁ := by
  refine ⟨hs.inside, ht.inside, ?_, ?_, hmark.trans h.abandoned, hmark'.trans h.abandoned', hsilent⟩
  · rw [hs.source, ht.source, h.source]
  · have hlength := hs.inside.offset_add_length
    have hlength' := ht.inside.offset_add_length
    rw [hs.source, h.source, hrest] at hlength
    rw [ht.source] at hlength'
    simp only [List.length_append] at hlength
    omega

theorem past {n : Nat} (hn : n ≤ t.rest.length) : Excerpt before after (s.past n) (t.past n) := by
  have hle : n ≤ s.rest.length := by
    rw [h.rest, List.length_append]
    omega
  refine h.onward (onward_past h.inside hle) (onward_past h.inside' hn) ?_ rfl rfl h.silent
  rw [rest_past h.inside hle, rest_past h.inside' hn, h.rest, List.drop_append_of_le_length hn]

theorem pastBlanks (hafter : after <:+ s.pastBlanks.rest) :
    Excerpt before after s.pastBlanks t.pastBlanks := by
  refine h.onward (onward_pastBlanks h.inside) (onward_pastBlanks h.inside') ?_ rfl rfl h.silent
  rw [rest_pastBlanks h.inside, h.rest] at hafter
  rw [rest_pastBlanks h.inside, rest_pastBlanks h.inside', h.rest]
  unfold Text.behindBlanks at hafter ⊢
  rw [List.dropWhile_append] at hafter ⊢
  split
  · rename_i hblank
    rw [if_pos hblank] at hafter
    rw [List.isEmpty_iff.1 hblank, List.nil_append]
    exact (List.dropWhile_suffix _).eq_of_length_le hafter.length_le
  · rfl

theorem note (problem : Problem) : Excerpt before after (s.note problem) (t.note problem) :=
  h.onward (onward_note h.inside problem) (onward_note h.inside' problem) h.rest rfl rfl
    fun hnone => absurd hnone (by simp [Session.note])

theorem begin : Excerpt before after s.begin t.begin :=
  ⟨h.inside, h.inside', h.source, h.offset, h.abandoned, h.abandoned', h.silent⟩

theorem enter : Excerpt before after s.enter t.enter :=
  ⟨h.inside, h.inside', h.source, h.offset, h.abandoned, h.abandoned', h.silent⟩

theorem leave : Excerpt before after s.leave t.leave :=
  ⟨h.inside, h.inside', h.source, h.offset, h.abandoned, h.abandoned', h.silent⟩

theorem entered (hafter : after <:+ s.entered.rest) :
    Excerpt before after s.entered t.entered :=
  h.begin.enter.pastBlanks hafter

/-- A token in front of the cut stands in the excerpt too. -/
theorem past_lexeme {x r : Text} (hrest : s.rest = x ++ r) (hafter : after <:+ r) :
    ∃ u, t.rest = x ++ u ∧ r = u ++ after ∧
      Excerpt before after (s.past x.length) (t.past x.length) := by
  obtain ⟨u, rfl⟩ := hafter
  have ht : t.rest = x ++ u := by
    rw [h.rest, ← List.append_assoc] at hrest
    exact List.append_cancel_right hrest
  exact ⟨u, ht, rfl, h.past (by rw [ht, List.length_append]; omega)⟩

theorem past_one {c : Char} {r : Text} (hrest : s.rest = c :: r) (hafter : after <:+ r) :
    ∃ u, t.rest = c :: u ∧ r = u ++ after ∧ Excerpt before after (s.past 1) (t.past 1) :=
  h.past_lexeme (x := [c]) hrest hafter

theorem rest_eq_nil (hrest : s.rest = []) : t.rest = [] :=
  (List.append_eq_nil_iff.1 (h.rest.symm.trans hrest)).1

/-- At the end of the excerpt nothing is left of it. -/
theorem rest_eq_nil_of_offset (hend : s.location.offset = before.length + t.source.length) :
    t.rest = [] := by
  have hlength := h.inside'.offset_add_length
  have hoffset := h.offset
  exact List.eq_nil_of_length_eq_zero (by omega)

/-- What is cut off is still to come for a session in front of the cut. -/
theorem suffix_of_le (hs : s.Onward s₁)
    (hle : s₁.location.offset ≤ before.length + t.source.length) : after <:+ s₁.rest := by
  have hafter : after <:+ s.rest := ⟨t.rest, h.rest.symm⟩
  refine List.suffix_of_suffix_length_le hafter hs.rest ?_
  have hlength := hs.inside.offset_add_length
  rw [hs.source, h.source] at hlength
  simp only [List.length_append] at hlength
  omega

theorem location_relative : t.location.relative 0 = s.location.relative before.length := by
  have hoffset := h.offset
  unfold Location.relative
  congr 1
  omega

theorem relative_opened (kind : Node.Kind) :
    (t.opened kind).relative 0 = (s.opened kind).relative before.length := by
  unfold opened Label.plain Label.relative Span.empty
  rw [h.location_relative]

/-- A node that ends here, from the origins of both texts. -/
theorem relative_closed {label label' : Label} {children children' : List Node}
    (hlabel : label'.relative 0 = label.relative before.length)
    (hchildren : children'.map (Node.relative 0) = children.map (Node.relative before.length)) :
    (t.closed label' children').relative 0 = (s.closed label children).relative before.length := by
  unfold closed Span.empty
  rw [Node.relative_mk, Node.relative_mk, hchildren, Label.relative_endAlong,
    Label.relative_endAlong, hlabel, h.location_relative]

/-- A sign that stands here and its operand. -/
theorem relative_prefixed {sign : Char} {operand operand' : Node} (s' t' : Session)
    (hoperand : operand'.relative 0 = operand.relative before.length) :
    (t'.closedAlong
      { t.opened .prefixOp with symbol? := some [sign], operator? := some (Token.signName sign) }
      [operand'] operand').relative 0 =
    (s'.closedAlong
      { s.opened .prefixOp with symbol? := some [sign], operator? := some (Token.signName sign) }
      [operand] operand).relative before.length := by
  refine relative_closedAlong ?_ hoperand
  exact congrArg
    (fun label : Label =>
      { label with symbol? := some [sign], operator? := some (Token.signName sign) })
    (h.relative_opened .prefixOp)

end Excerpt

end Session

/-! ## 3. What is read in an excerpt -/

namespace Reading

/-- What is read in front of a sealed cut is read in an excerpt that ends there. -/
def Carried (inner : Reading) : Prop :=
  ∀ {before after : Text} {s t : Session} {g : Grouping Node} {s' : Session}, inner s g s' →
    s.Excerpt before after t → s'.abandoned = false → Text.Sealed after s'.rest →
      ∃ g' t', inner t g' t' ∧ s'.Excerpt before after t' ∧
        g'.map (Node.relative 0) = g.map (Node.relative before.length)

theorem relative_node_eq {g g' : Grouping Node} {a b : Int}
    (h : g'.map (Node.relative a) = g.map (Node.relative b)) (source source' : Text) :
    (g'.node source').relative a = (g.node source).relative b := by
  rw [Grouping.relative_node, h, Grouping.relative_node]

variable {inner : Reading} {before after : Text} {s s' t : Session}
  (hstretch : ∀ s g s', inner s g s' → s.Stretch s')

include hstretch

/-- The end of a list seals what stands in front of it. -/
theorem Items.sealed {nodes : List Node} (h : inner.Items s nodes s') (hs : s.Inside)
    (hnot : s'.abandoned = false) (hafter : after <:+ s'.rest) : Text.Sealed after s.rest := by
  induction h with
  | givenUp _ habandoned => simp [habandoned] at hnot
  | unclosed hrest =>
      obtain rfl := List.suffix_nil.1 (hrest ▸ hafter)
      exact ⟨_, (List.append_nil _).symm, .inl rfl⟩
  | comma _ hitem hnext _ ih =>
      have h₁ := ((hstretch _ _ _ hitem).onward hs).pastBlanks
      have h₂ := (h₁.past_one (by simp [hnext])).pastBlanks
      exact (ih h₂.inside hnot hafter).mono h₂.rest
  | closed _ hitem hnext =>
      have h₁ := ((hstretch _ _ _ hitem).onward hs).pastBlanks
      rw [Session.rest_past_one h₁.inside hnext] at hafter
      exact Text.sealed_of_cons (by decide) (hnext ▸ h₁.rest) hafter
  | junk _ hitem hnext _ _ _ ih =>
      have h₁ := ((hstretch _ _ _ hitem).onward hs).pastBlanks.note .invalidInList
      have h₂ := h₁.past_one (by simp [hnext])
      exact (ih h₂.inside hnot hafter).mono h₂.rest
  | ended _ hitem _ _ ih =>
      have h₁ := ((hstretch _ _ _ hitem).onward hs).pastBlanks
      exact (ih h₁.inside hnot hafter).mono h₁.rest

variable (hinner : inner.Carried)

include hinner

/-- An item in front of what seals it. -/
theorem item_carried {g : Grouping Node} {s₁ s₂ : Session} (hitem : inner s g s₁)
    (hx : s.Excerpt before after t) (h₂ : s₁.Stretch s₂) (hnot : s₂.abandoned = false)
    (hsealed : Text.Sealed after s₂.rest) :
    ∃ g' t₁, inner t g' t₁ ∧ s₁.Excerpt before after t₁ ∧
      (t₁.pastBlanks.rest ≠ [] → t.rest ≠ []) ∧
        (g'.node t₁.source).relative 0 = (g.node s₁.source).relative before.length := by
  have h₁ := (hstretch _ _ _ hitem).onward hx.inside
  have hnext := Session.Stretch.onward h₂ h₁.inside
  obtain ⟨g', t₁, hitem', hx₁, hg⟩ :=
    hinner hitem hx (Session.Stretch.abandoned h₂ hnot) (hsealed.mono hnext.rest)
  have ht := ((hstretch _ _ _ hitem').onward hx.inside').pastBlanks.rest
  exact ⟨g', t₁, hitem', hx₁, fun hne hnil => hne (List.suffix_nil.1 (hnil ▸ ht)),
    relative_node_eq hg _ _⟩

theorem Items.carried {nodes : List Node} (h : inner.Items s nodes s')
    (hx : s.Excerpt before after t) (hnot : s'.abandoned = false) (hafter : after <:+ s'.rest) :
    ∃ nodes' t', inner.Items t nodes' t' ∧ s'.Excerpt before after t' ∧
      nodes'.map (Node.relative 0) = nodes.map (Node.relative before.length) := by
  induction h generalizing t with
  | givenUp _ habandoned => simp [habandoned] at hnot
  | unclosed hrest =>
      exact ⟨[], _, .unclosed (hx.rest_eq_nil hrest) hx.abandoned', hx.note _, rfl⟩
  | @comma s s₁ s' g r nodes _ hitem hnext hitems ih =>
      have h₁ := ((hstretch _ _ _ hitem).onward hx.inside).pastBlanks
      have h₂ := Session.onward_past_one h₁.inside (by simp [hnext])
      have h₃ := h₂.pastBlanks
      have hsteps : s₁.Stretch (s₁.pastBlanks.past 1).pastBlanks :=
        .head (.pastBlanks _) (.head (.past_one hnext) (.single (.pastBlanks _)))
      have hlater := hitems.stretch hstretch
      have hsealed := hitems.sealed hstretch h₃.inside hnot hafter
      obtain ⟨g', t₁, hitem', hx₁, ht, hg⟩ := item_carried hstretch hinner hitem hx hsteps
        (Session.Stretch.abandoned hlater hnot) hsealed
      have hrest : after <:+ r := by
        rw [← Session.rest_past_one h₁.inside hnext]
        exact hsealed.suffix.trans (Session.onward_pastBlanks h₂.inside).rest
      have hx₂ := hx₁.pastBlanks (hnext ▸ hrest.trans (List.suffix_cons _ _))
      obtain ⟨u, hu, -, hx₃⟩ := hx₂.past_one hnext hrest
      obtain ⟨nodes', t', hitems', hx', hnodes⟩ := ih (hx₃.pastBlanks hsealed.suffix) hnot hafter
      refine ⟨_, t', .comma (ht (by simp [hu])) hitem' hu hitems', hx', ?_⟩
      rw [List.map_cons, List.map_cons, hg, hnodes]
  | @closed s s₁ g r _ hitem hnext =>
      have h₁ := ((hstretch _ _ _ hitem).onward hx.inside).pastBlanks
      have hrest : after <:+ r := by rwa [← Session.rest_past_one h₁.inside hnext]
      have hclose : ')' :: r <:+ s₁.pastBlanks.rest := hnext ▸ List.suffix_rfl
      have hsealed := Text.sealed_of_cons (by decide) hclose hrest
      obtain ⟨g', t₁, hitem', hx₁, ht, hg⟩ := item_carried hstretch hinner hitem hx
        (.single (.pastBlanks s₁)) hnot hsealed
      obtain ⟨u, hu, -, hx₂⟩ := (hx₁.pastBlanks hsealed.suffix).past_one hnext hrest
      refine ⟨_, _, .closed (ht (by simp [hu])) hitem' hu, hx₂, ?_⟩
      rw [List.map_singleton, List.map_singleton, hg]
  | @junk s s₁ s' g c r nodes _ hitem hnext hcomma hclose hitems ih =>
      have h₁ := ((hstretch _ _ _ hitem).onward hx.inside).pastBlanks.note .invalidInList
      have h₂ := Session.onward_past_one h₁.inside (by simp [hnext])
      have hsteps : s₁.Stretch ((s₁.pastBlanks.note .invalidInList).past 1) :=
        .head (.pastBlanks _) (.head (.misplaced hnext) (.single (.past_one hnext)))
      have hlater := hitems.stretch hstretch
      have hsealed := hitems.sealed hstretch h₂.inside hnot hafter
      obtain ⟨g', t₁, hitem', hx₁, ht, hg⟩ := item_carried hstretch hinner hitem hx hsteps
        (Session.Stretch.abandoned hlater hnot) hsealed
      have hrest : after <:+ r := by
        rw [← Session.rest_past_one h₁.inside hnext]
        exact hsealed.suffix
      have hx₂ := hx₁.pastBlanks (hnext ▸ hrest.trans (List.suffix_cons _ _))
      obtain ⟨u, hu, -, hx₃⟩ := (hx₂.note .invalidInList).past_one hnext hrest
      obtain ⟨nodes', t', hitems', hx', hnodes⟩ := ih hx₃ hnot hafter
      have hnext' : t₁.pastBlanks.rest = c :: u := hu
      refine ⟨_, t', .junk (ht (by simp [hnext'])) hitem' hnext' hcomma hclose hitems', hx', ?_⟩
      rw [List.map_cons, List.map_cons, hg, hnodes]
  | @ended s s₁ s' g nodes hrest hitem hnext hitems ih =>
      have h₁ := ((hstretch _ _ _ hitem).onward hx.inside).pastBlanks
      have hlater := hitems.stretch hstretch
      have hsealed := hitems.sealed hstretch h₁.inside hnot hafter
      obtain ⟨g', t₁, hitem', hx₁, -, hg⟩ := item_carried hstretch hinner hitem hx
        (.single (.pastBlanks s₁)) (Session.Stretch.abandoned hlater hnot) hsealed
      have hx₂ := hx₁.pastBlanks hsealed.suffix
      obtain ⟨nodes', t', hitems', hx', hnodes⟩ := ih hx₂ hnot hafter
      -- the text has ended, so nothing is cut off behind the excerpt
      obtain rfl : after = [] := List.suffix_nil.1 (hnext ▸ hsealed.suffix)
      have hne : t.rest ≠ [] := by rwa [hx.rest, List.append_nil] at hrest
      refine ⟨_, t', .ended hne hitem' (hx₂.rest_eq_nil hnext) hitems', hx', ?_⟩
      rw [List.map_cons, List.map_cons, hg, hnodes]

theorem Paren.carried {node : Node} (h : inner.Paren s node s') (hx : s.Excerpt before after t)
    (hnot : s'.abandoned = false) (hafter : after <:+ s'.rest) :
    ∃ node' t', inner.Paren t node' t' ∧ s'.Excerpt before after t' ∧
      node'.relative 0 = node.relative before.length := by
  obtain ⟨hrest, hitems⟩ := h
  have h₁ := Session.onward_past_one hx.inside (by simp [hrest])
  have h₂ := h₁.pastBlanks
  have h₃ := Session.Stretch.onward (hitems.stretch hstretch) h₂.inside
  have hpast := Session.rest_past_one hx.inside hrest
  have hblanks := hafter.trans h₃.rest
  obtain ⟨u, hu, -, hx₁⟩ := hx.past_one hrest
    (hpast ▸ hblanks.trans (Session.onward_pastBlanks h₁.inside).rest)
  obtain ⟨children', t', hitems', hx', hchildren⟩ :=
    hitems.carried hstretch hinner (hx₁.pastBlanks hblanks) hnot hafter
  exact ⟨_, t', .list hu hitems', hx', hx'.relative_closed (hx.relative_opened .paren) hchildren⟩

theorem Arguments.carried {node : Node} (h : inner.Arguments s node s')
    (hx : s.Excerpt before after t) (hnot : s'.abandoned = false) (hafter : after <:+ s'.rest) :
    ∃ node' t', inner.Arguments t node' t' ∧ s'.Excerpt before after t' ∧
      node'.relative 0 = node.relative before.length := by
  cases h with
  | given hparen =>
      obtain ⟨node', t', hparen', hx', hnode⟩ :=
        hparen.carried hstretch hinner hx hnot hafter
      exact ⟨node', t', .given hparen', hx', hnode⟩
  | missing hrest =>
      have hrest' : t.rest.head? ≠ some '(' := by
        intro hhead
        rw [hx.rest, List.head?_append, hhead] at hrest
        exact hrest rfl
      have hx' := hx.note .invalidExpression
      exact ⟨_, _, .missing hrest', hx', hx'.relative_closed (hx.relative_opened .expression) rfl⟩

/-- What is left empty, and what stands behind a sign, needs the cut to be sealed; everything else
    ends by itself. -/
theorem Primary.carried {node : Node} (h : inner.Primary s node s')
    (hx : s.Excerpt before after t) (hnot : s'.abandoned = false) (hafter : after <:+ s'.rest)
    (hsealed : node.kind = .expression ∨ node.kind = .prefixOp → Text.Sealed after s'.rest) :
    ∃ node' t', inner.Primary t node' t' ∧ s'.Excerpt before after t' ∧
      node'.relative 0 = node.relative before.length := by
  cases h with
  | exhausted hrest =>
      have hx' := hx.note .invalidExpression
      exact ⟨_, _, .exhausted (hx.rest_eq_nil hrest), hx',
        hx'.relative_closed (hx.relative_opened .expression) rfl⟩
  | invalid hrest hnone =>
      have hsealed := hsealed (.inl rfl)
      obtain ⟨c, r, hc⟩ := List.exists_cons_of_ne_nil hrest
      have hpast : ((s.note .invalidExpression).past 1).rest = r :=
        Session.rest_past_one (s := s.note .invalidExpression) hx.inside hc
      obtain ⟨u, hu, -, hx'⟩ := (hx.note .invalidExpression).past_one hc (hpast ▸ hafter)
      have hu' : t.rest = c :: u := hu
      have hfront : Text.Sealed after (t.rest ++ after) := by
        rw [← hx.rest, hc]
        exact (hpast ▸ hsealed).mono (List.suffix_cons c r)
      refine ⟨_, _, .invalid (by simp [hu']) (fun kind hkind => ?_), hx',
        hx'.relative_closed (hx.relative_opened .expression) rfl⟩
      exact hfront.match?_eq_none (hx.rest ▸ hnone kind hkind)
  | @number x hmatch =>
      obtain ⟨r, hr⟩ := (Numeral.isNumeral_of_lexeme? hmatch).2
      rw [Session.rest_past_append hx.inside hr.symm] at hafter
      obtain ⟨u, hu, -, hx'⟩ := hx.past_lexeme hr.symm hafter
      have hmatch' : Numeral.lexeme? t.rest = some x :=
        Numeral.lexeme?_cut (hx.rest ▸ hmatch) (by rw [hu, List.length_append]; omega)
      refine ⟨_, _, .number hmatch', hx', hx'.relative_closed ?_ rfl⟩
      exact congrArg (fun label : Label => { label with number? := some (Number.ofLexeme x) })
        (hx.relative_opened .number)
  | list hparen =>
      obtain ⟨node', t', hparen', hx', hnode⟩ :=
        hparen.carried hstretch hinner hx hnot hafter
      exact ⟨node', t', .list hparen', hx', hnode⟩
  | @placeholder r hrest =>
      obtain ⟨u, hu, hend⟩ := hsealed (.inl rfl)
      obtain rfl : u = t.rest := List.append_cancel_right (hu.symm.trans hx.rest)
      have hcomma : ∃ u, t.rest = ',' :: u := by
        rw [hx.rest] at hrest
        cases hleft : t.rest with
        | nil =>
            rw [hleft] at hend hrest
            rcases hend with rfl | ⟨c, hc, -⟩
            · cases hrest
            · cases hc
        | cons c u =>
            rw [hleft] at hrest
            obtain ⟨rfl, -⟩ := List.cons.inj hrest
            exact ⟨u, rfl⟩
      obtain ⟨u, hu'⟩ := hcomma
      exact ⟨_, t, .placeholder hu', hx, hx.relative_closed (hx.relative_opened .expression) rfl⟩
  | @prefixed _ sign r g hrest hsign hoperand =>
      have h₁ := (hstretch _ _ _ hoperand).onward
        (Session.onward_past_one hx.inside (by simp [hrest])).inside
      have hpast := Session.rest_past_one hx.inside hrest
      obtain ⟨u, hu, -, hx₁⟩ := hx.past_one hrest (hpast ▸ hafter.trans h₁.rest)
      obtain ⟨g', t', hoperand', hx', hg⟩ := hinner hoperand hx₁ hnot (hsealed (.inr rfl))
      exact ⟨_, t', .prefixed hu hsign hoperand', hx',
        hx.relative_prefixed _ _ (relative_node_eq hg _ _)⟩
  | @call _ kind x node hkind hmatch hgiven =>
      obtain ⟨r, hr⟩ := Token.Kind.prefix_of_match? hmatch
      have h₁ := Session.onward_past_prefix hx.inside (Token.Kind.prefix_of_match? hmatch)
      have h₂ := Session.onward_pastBlanks h₁.inside
      have hblanks := hafter.trans (Session.Stretch.onward (hgiven.stretch hstretch) h₂.inside).rest
      have hpast := Session.rest_past_append hx.inside hr.symm
      obtain ⟨u, hu, -, hx₁⟩ := hx.past_lexeme hr.symm (hpast ▸ hblanks.trans h₂.rest)
      have hmatch' : kind.match? t.rest = some x :=
        Token.Kind.match?_cut (hx.rest ▸ hmatch) (by rw [hu, List.length_append]; omega)
      obtain ⟨node', t', hgiven', hx', hnode⟩ :=
        hgiven.carried hstretch hinner (hx₁.pastBlanks hblanks) hnot hafter
      refine ⟨_, t', .call hkind hmatch' hgiven', hx', ?_⟩
      refine Session.relative_closedAlong ?_ hnode
      exact congrArg (fun label : Label => { label with operator? := some x })
        (hx.relative_opened (Rule.functionKind ⟨kind, x, s.location⟩))

theorem Tail.carried {first first' : Node} {g : Grouping Node} (h : inner.Tail s first g s')
    (hx : s.Excerpt before after t) (hnot : s'.abandoned = false)
    (hsealed : Text.Sealed after s'.rest)
    (hfirst : first'.relative 0 = first.relative before.length) :
    ∃ g' t', inner.Tail t first' g' t' ∧ s'.Excerpt before after t' ∧
      g'.map (Node.relative 0) = g.map (Node.relative before.length) := by
  cases h with
  | stop hnone =>
      refine ⟨_, t, .stop (Link.next?_eq_none_cut (hx.rest ▸ hnone)), hx, ?_⟩
      rw [Grouping.map, Grouping.map, hfirst]
  | @link _ _ link g hnext hright =>
      obtain ⟨r, hr⟩ := Link.symbol_prefix_of_next? hnext
      have h₁ := Session.onward_past_prefix hx.inside (Link.symbol_prefix_of_next? hnext)
      have hlater := (Session.Stretch.onward (hstretch _ _ _ hright) h₁.inside).rest
      rw [Session.rest_past_append hx.inside hr.symm] at hlater
      obtain ⟨u, hu, -, hx₁⟩ := hx.past_lexeme hr.symm (hsealed.suffix.trans hlater)
      have hnext' : Link.next? t.rest = some link :=
        Link.next?_cut (hx.rest ▸ hnext) (by rw [hu, List.length_append]; omega)
      obtain ⟨g', t', hright', hx', hg⟩ := hinner hright hx₁ hnot hsealed
      refine ⟨_, t', .link hnext' hright', hx', ?_⟩
      rw [Grouping.map_settle, Grouping.map_settle, hfirst, hg]

end Reading

/-- **What is read in front of a sealed cut is read in the excerpt as well**, at places counted from
    its start. -/
theorem Reads.carried (levels : Nat) : (Reads levels).Carried := by
  induction levels with
  | zero =>
      rintro before after s t g s' ⟨-, rfl⟩ - hnot
      simp at hnot
  | succ levels ih =>
      rintro before after s t g s' ⟨first, s₁, s₂, hprimary, htail, rfl⟩ hx hnot hsealed
      have hstretch : ∀ s g s', Reads levels s g s' → s.Stretch s' := fun _ _ _ => Reads.stretch
      have h₁ := (Session.onward_entered hx.inside).inside
      have h₂ := Session.Stretch.onward (hprimary.stretch hstretch) h₁
      have h₃ := Session.onward_pastBlanks h₂.inside
      have hlater := htail.stretch hstretch
      have hnot₁ : s₁.pastBlanks.abandoned = false := Session.Stretch.abandoned hlater hnot
      have hblanks := hsealed.mono (Session.Stretch.onward hlater h₃.inside).rest
      have hsealed₁ := hblanks.mono h₃.rest
      obtain ⟨first', t₁, hprimary', hx₁, hfirst⟩ := hprimary.carried hstretch ih
        (hx.entered (hsealed₁.mono h₂.rest).suffix) hnot₁ hsealed₁.suffix fun _ => hsealed₁
      obtain ⟨g', t₂, htail', hx₂, hg⟩ :=
        htail.carried hstretch ih (hx₁.pastBlanks hblanks.suffix) hnot hsealed hfirst
      exact ⟨g', t₂.leave, ⟨first', t₁, t₂, hprimary', htail', rfl⟩, hx₂.leave, hg⟩

end Reckoner
