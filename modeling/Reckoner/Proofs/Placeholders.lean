import Reckoner.Proofs.Silent
import Reckoner.Proofs.Stretch
import Reckoner.Proofs.Throughout

/-!
# Empty places without a report

The rules leave an expression empty in several places, but only one of them does not report it: the
one in front of a comma.

* `Session.Quiet` -- a stretch that adds no report to a text that was not given up; each part of it
  is quiet again;
* `Node.BeforeComma` -- an empty node takes no character and stands in front of a comma;
* `Reads.beforeComma` -- which holds of all that is read quietly.
-/

namespace Reckoner

/-! ## 1. Quiet stretches -/

namespace Session

/-- From a session whose text was not given up no report is added. -/
structure Quiet (s s' : Session) : Prop where
  abandoned : s.abandoned = false
  reports : s'.reports = s.reports

variable {s s₁ s' : Session}

theorem not_quiet_note (s : Session) (problem : Problem) : ¬ s.Quiet (s.note problem) := by
  intro h
  have hlength := congrArg List.length h.reports
  simp [note] at hlength

theorem Step.not_abandoned (h : Step s s') (hquiet : s.Quiet s') : s'.abandoned = false := by
  cases h with
  | abandon =>
      have hreports := hquiet.reports
      rw [reports_abandon, hquiet.abandoned] at hreports
      exact absurd ⟨hquiet.abandoned, hreports⟩ (not_quiet_note s .nestedTooDeeply)
  | _ => exact hquiet.abandoned

theorem Stretch.not_abandoned (h : s.Stretch s') (hs : s.Inside) (hquiet : s.Quiet s') :
    s'.abandoned = false := by
  induction h with
  | refl => exact hquiet.abandoned
  | @tail s₁ s₂ hstretch hstep ih =>
      have h₁ := Stretch.onward hstretch hs
      obtain ⟨hfirst, hlast⟩ := h₁.reports_eq (hstep.onward h₁.inside) hquiet.reports
      exact hstep.not_abandoned ⟨ih ⟨hquiet.abandoned, hfirst⟩, hlast⟩

/-- **Both parts of a quiet stretch are quiet.** -/
theorem Quiet.split (hquiet : s.Quiet s') (h : s.Stretch s₁) (h' : s₁.Stretch s') (hs : s.Inside) :
    s.Quiet s₁ ∧ s₁.Quiet s' := by
  have h₁ := Stretch.onward h hs
  obtain ⟨hfirst, hlast⟩ := h₁.reports_eq (Stretch.onward h' h₁.inside) hquiet.reports
  have hquiet₁ : s.Quiet s₁ := ⟨hquiet.abandoned, hfirst⟩
  exact ⟨hquiet₁, Stretch.not_abandoned h hs hquiet₁, hlast⟩

end Session

/-! ## 2. Empty places in front of commas -/

/-- If the node is empty it takes no character and stands in front of a comma. -/
def Node.BeforeComma (source : Text) (n : Node) : Prop :=
  n.kind = .expression →
    n.span.stop = n.span.start ∧ source.charAt? n.span.start.offset = some ','

namespace Reading

variable {inner : Reading} {s s' : Session}
  (hstretch : ∀ s g s', inner s g s' → s.Stretch s')
  (hinner : ∀ s g s', inner s g s' → s.Inside → s.Quiet s' →
    ∀ p ∈ g.chain.operands, p.Throughout (Node.BeforeComma s.source))

include hstretch hinner

omit hstretch in
theorem item_beforeComma {g : Grouping Node} {s₁ : Session} (h : inner s g s₁) (hs : s.Inside)
    (hquiet : s.Quiet s₁) (source : Text) :
    (g.node source).Throughout (Node.BeforeComma s.source) := by
  refine Grouping.throughout_node (fun n hkind hhole => ?_) (hinner _ _ _ h hs hquiet)
  simp [hkind] at hhole

/-- An item and what follows it in a list. -/
theorem items_beforeComma_cons {g : Grouping Node} {s₁ t : Session} {nodes : List Node}
    (hitem : inner s g s₁) (hs : s.Inside) (hquiet : s.Quiet s') (h₁ : s₁.Stretch t)
    (h' : t.Stretch s')
    (ih : t.Inside → t.Quiet s' → ∀ n ∈ nodes, n.Throughout (Node.BeforeComma t.source)) :
    ∀ n ∈ g.node s₁.source :: nodes, n.Throughout (Node.BeforeComma s.source) := by
  have hfirst := hstretch _ _ _ hitem
  have ht := Session.Stretch.onward (hfirst.trans h₁) hs
  have hquiet₁ := (hquiet.split hfirst (h₁.trans h') hs).1
  have hquiet₂ := (hquiet.split (hfirst.trans h₁) h' hs).2
  have hothers := ih ht.inside hquiet₂
  rw [ht.source] at hothers
  exact List.forall_mem_cons.2 ⟨item_beforeComma hinner hitem hs hquiet₁ _, hothers⟩

theorem Items.beforeComma {nodes : List Node} (h : inner.Items s nodes s') (hs : s.Inside)
    (hquiet : s.Quiet s') : ∀ n ∈ nodes, n.Throughout (Node.BeforeComma s.source) := by
  induction h with
  | givenUp => simp
  | unclosed => simp
  | comma _ hitem hnext hitems ih =>
      refine items_beforeComma_cons hstretch hinner hitem hs hquiet ?_ (hitems.stretch hstretch) ih
      exact .head (.pastBlanks _) (.head (.past_one hnext) (.single (.pastBlanks _)))
  | closed _ hitem hnext =>
      refine items_beforeComma_cons hstretch hinner hitem hs hquiet ?_ .refl (by simp)
      exact .head (.pastBlanks _) (.single (.past_one hnext))
  | junk _ hitem hnext _ _ hitems ih =>
      refine items_beforeComma_cons hstretch hinner hitem hs hquiet ?_ (hitems.stretch hstretch) ih
      exact .head (.pastBlanks _) (.head (.misplaced hnext) (.single (.past_one hnext)))
  | ended _ hitem _ hitems ih =>
      exact items_beforeComma_cons hstretch hinner hitem hs hquiet (.single (.pastBlanks _))
        (hitems.stretch hstretch) ih

theorem Paren.beforeComma {node : Node} (h : inner.Paren s node s') (hs : s.Inside)
    (hquiet : s.Quiet s') : node.Throughout (Node.BeforeComma s.source) := by
  obtain ⟨hrest, hitems⟩ := h
  have h₁ : s.Stretch (s.past 1).pastBlanks :=
    .head (.past_one hrest) (.single (.pastBlanks _))
  have honward := Session.Stretch.onward h₁ hs
  have hquiet₁ := (hquiet.split h₁ (hitems.stretch hstretch) hs).2
  have hchildren := hitems.beforeComma hstretch hinner honward.inside hquiet₁
  rw [honward.source] at hchildren
  exact .node (fun hkind => by cases hkind) hchildren

theorem Arguments.beforeComma {node : Node} (h : inner.Arguments s node s') (hs : s.Inside)
    (hquiet : s.Quiet s') : node.Throughout (Node.BeforeComma s.source) := by
  cases h with
  | given hparen => exact hparen.beforeComma hstretch hinner hs hquiet
  | missing => exact absurd hquiet (Session.not_quiet_note s .invalidExpression)

theorem Primary.beforeComma {node : Node} (h : inner.Primary s node s') (hs : s.Inside)
    (hquiet : s.Quiet s') : node.Throughout (Node.BeforeComma s.source) := by
  cases h with
  | exhausted => exact absurd hquiet (Session.not_quiet_note s .invalidExpression)
  | invalid =>
      have hquiet' : s.Quiet (s.note .invalidExpression) := ⟨hquiet.abandoned, hquiet.reports⟩
      exact absurd hquiet' (Session.not_quiet_note s .invalidExpression)
  | number => exact .node (fun hkind => by cases hkind) (List.forall_mem_nil _)
  | list hparen => exact hparen.beforeComma hstretch hinner hs hquiet
  | placeholder hrest =>
      refine .node (fun _ => ⟨rfl, ?_⟩) (List.forall_mem_nil _)
      have hcurrent : s.cursor.current? = s.rest.head? := Cursor.Inside.current?_eq hs
      rw [hrest] at hcurrent
      exact hcurrent
  | @prefixed _ sign _ g hrest _ hoperand =>
      have h₁ : s.Stretch (s.past 1) := .single (.past_one hrest)
      have honward := Session.Stretch.onward h₁ hs
      have hquiet₁ := (hquiet.split h₁ (hstretch _ _ _ hoperand) hs).2
      have hchild := item_beforeComma hinner hoperand honward.inside hquiet₁ s'.source
      rw [honward.source] at hchild
      exact .node (fun hkind => by cases hkind) (List.forall_mem_singleton.2 hchild)
  | @call _ kind x _ _ hmatch hgiven =>
      have h₁ : s.Stretch (s.past x.length).pastBlanks :=
        .head (.past_lexeme (Token.Kind.prefix_of_match? hmatch)) (.single (.pastBlanks _))
      have honward := Session.Stretch.onward h₁ hs
      have hquiet₁ := (hquiet.split h₁ (hgiven.stretch hstretch) hs).2
      have hchild := hgiven.beforeComma hstretch hinner honward.inside hquiet₁
      rw [honward.source] at hchild
      refine .node (fun hkind => ?_) (List.forall_mem_singleton.2 hchild)
      have hfunction : Rule.functionKind ⟨kind, x, s.location⟩ ≠ .expression := by
        unfold Rule.functionKind
        split <;> simp
      exact absurd hkind hfunction

theorem Tail.beforeComma {first : Node} {g : Grouping Node} (h : inner.Tail s first g s')
    (hs : s.Inside) (hquiet : s.Quiet s')
    (hfirst : first.Throughout (Node.BeforeComma s.source)) :
    ∀ p ∈ g.chain.operands, p.Throughout (Node.BeforeComma s.source) := by
  cases h with
  | stop => exact List.forall_mem_singleton.2 hfirst
  | @link _ _ link g hnext hright =>
      have h₁ : s.Stretch (s.past link.symbol.length) :=
        .single (.past_lexeme (Link.symbol_prefix_of_next? hnext))
      have honward := Session.Stretch.onward h₁ hs
      have hquiet₁ := (hquiet.split h₁ (hstretch _ _ _ hright) hs).2
      have hothers := hinner _ _ _ hright honward.inside hquiet₁
      rw [honward.source] at hothers
      rw [Grouping.chain_settle]
      exact List.forall_mem_cons.2 ⟨hfirst, hothers⟩

end Reading

/-- **What is left out without a report is left out in front of a comma.** -/
theorem Reads.beforeComma {levels : Nat} {s s' : Session} {g : Grouping Node}
    (h : Reads levels s g s') (hs : s.Inside) (hquiet : s.Quiet s') :
    ∀ p ∈ g.chain.operands, p.Throughout (Node.BeforeComma s.source) := by
  induction levels generalizing s g s' with
  | zero =>
      obtain ⟨-, rfl⟩ := h
      have h₁ : s.Stretch s.begin := .single (.begin s)
      have hquiet₁ := (hquiet.split h₁ (.single (.abandon _)) hs).2
      have hgiven := Session.Step.not_abandoned (.abandon s.begin) hquiet₁
      simp at hgiven
  | succ levels ih =>
      obtain ⟨first, s₁, s₂, hprimary, htail, rfl⟩ := h
      have hstretch : ∀ s g s', Reads levels s g s' → s.Stretch s' := fun _ _ _ => Reads.stretch
      have hinner : ∀ s g s', Reads levels s g s' → s.Inside → s.Quiet s' →
          ∀ p ∈ g.chain.operands, p.Throughout (Node.BeforeComma s.source) := fun _ _ _ => ih
      have hquiet' : s.entered.Quiet s₂ := ⟨hquiet.abandoned, hquiet.reports⟩
      have h₁ := Session.onward_entered hs
      have h₂ : s.entered.Stretch s₁.pastBlanks :=
        (hprimary.stretch hstretch).tail (.pastBlanks _)
      have honward := Session.Stretch.onward h₂ h₁.inside
      obtain ⟨hquiet₁, hquiet₂⟩ := hquiet'.split h₂ (htail.stretch hstretch) h₁.inside
      have hfirst := hprimary.beforeComma hstretch hinner h₁.inside
        ⟨hquiet₁.abandoned, hquiet₁.reports⟩
      rw [← honward.source] at hfirst
      have hall := htail.beforeComma hstretch hinner honward.inside hquiet₂ hfirst
      rwa [honward.source, h₁.source] at hall

end Reckoner
