import LetWhile.Proofs.Grammar.Unique
import LetWhile.Proofs.Grammar.Feed

/-!
# Parsing expressions

The parser folds operators by their power; the grammar has a tier for each power. An expression that
is parsed is derived from the tokens it took (`unary_sound`, `binary_sound`, `expr_sound`), and every
derived expression is parsed (`phrase_folds`, `expr_complete`).
-/

namespace LetWhile

namespace Feed

theorem tokens_eq_cons {f : Feed} (h : f.head.kind ≠ .eof) :
    f.tokens = f.head :: f.advance.tokens := by
  unfold head advance at *
  split at h
  · exact absurd rfl h
  · rename_i t ts heq
    simp [heq]

theorem head_of_tokens {f : Feed} {t : Token} {ts : List Token} (h : f.tokens = t :: ts) :
    f.head = t ∧ f.advance.tokens = ts := by
  unfold head advance
  rw [h]
  exact ⟨rfl, rfl⟩

end Feed

/-- The value and the rest, if there is a value. -/
def Reply.done? {α : Type} {n : Nat} : Reply α n → Option (α × Feed)
  | .done a rest _ => some (a, rest)
  | .failed _ _ _ => none

namespace Reply

variable {α β : Type} {n m : Nat}

theorem size_lt {r : Reply α n} {a : α} {g : Feed} (h : r.done? = some (a, g)) : g.size < n := by
  cases r with
  | failed e rest bound => cases h
  | done a' g' lt =>
    cases h
    exact lt

theorem andThen_eq_some {r : Reply α n}
    {next : α → (rest : Feed) → rest.size < n → Reply β (rest.size + 1)} {le : n ≤ m}
    {b : β} {g : Feed} (h : (r.andThen next le).done? = some (b, g)) :
    ∃ a f lt, r.done? = some (a, f) ∧ (next a f lt).done? = some (b, g) := by
  unfold andThen at h
  cases r with
  | failed e rest bound => cases h
  | done a f lt =>
    refine ⟨a, f, lt, rfl, ?_⟩
    dsimp only at h
    split at h <;> rename_i heq <;> rw [heq] <;> exact h

theorem andThen_of_done {r : Reply α n}
    {next : α → (rest : Feed) → rest.size < n → Reply β (rest.size + 1)} {le : n ≤ m}
    {a : α} {f : Feed} {result : Option (β × Feed)} (h : r.done? = some (a, f))
    (then_ : ∀ lt, (next a f lt).done? = result) : (r.andThen next le).done? = result := by
  cases r with
  | failed e rest bound => cases h
  | done a' f' lt =>
    cases h
    rw [← then_ lt]
    unfold andThen
    dsimp only
    split <;> rename_i heq <;> rw [heq] <;> rfl

end Reply

theorem Op.power_le (op : Op) : op.power ≤ Grammar.Tier.unary.level + 1 := by
  cases op <;> simp [Op.power, Grammar.Tier.level]

namespace Grammar

theorem Tier.exists_operator {kind : Token.Kind} {op : Op} (h : Op.ofKind? kind = some op) :
    ∃ tier : Tier, tier ≠ .unary ∧ tier.operator? kind = some op := by
  unfold Op.ofKind? at h
  split at h <;> cases h
  · exact ⟨.sum, by decide, rfl⟩
  · exact ⟨.sum, by decide, rfl⟩
  · exact ⟨.product, by decide, rfl⟩
  · exact ⟨.product, by decide, rfl⟩
  · exact ⟨.and, by decide, rfl⟩
  · exact ⟨.or, by decide, rfl⟩
  · exact ⟨.compare, by decide, rfl⟩
  · exact ⟨.compare, by decide, rfl⟩
  · exact ⟨.compare, by decide, rfl⟩

/-- One more operand at the end. -/
def Links.snoc {tier : Tier} (joint : Joint tier) (operand : Phrase tier.tighter) :
    Links tier → Links tier
  | .nil _ => .cons tier joint operand (.nil tier)
  | .cons _ joint' operand' more => .cons tier joint' operand' (more.snoc joint operand)

theorem Links.tokens_snoc {tier : Tier} (joint : Joint tier) (operand : Phrase tier.tighter) :
    (more : Links tier) →
      (more.snoc joint operand).tokens = more.tokens ++ joint.token :: operand.tokens
  | .nil _ => by simp [snoc, tokens]
  | .cons _ joint' operand' more => by
    simp [snoc, tokens, more.tokens_snoc joint operand]

theorem Links.fold_snoc {tier : Tier} (joint : Joint tier) (operand : Phrase tier.tighter) :
    (more : Links tier) → (left : Expr) →
      (more.snoc joint operand).fold left = .binary joint.op (more.fold left) operand.tree
  | .nil _, _ => rfl
  | .cons _ _ _ more, _ => more.fold_snoc joint operand _

/-- An expression with one more operand, joined by an operator that binds no tighter than those it
may end with. -/
theorem Phrase.exists_extended {tier tier' : Tier} (joins : tier ≠ .unary) (d : Phrase tier')
    (le : tier.level ≤ tier'.level) (joint : Joint tier) (operand : Phrase tier.tighter) :
    ∃ d' : Phrase tier, d'.tokens = d.tokens ++ joint.token :: operand.tokens ∧
      d'.tree = .binary joint.op d.tree operand.tree := by
  obtain ⟨d', htokens, htree⟩ := d.exists_loosened tier le
  cases d' with
  | chain _ _ first more =>
    refine ⟨.chain tier joins first (more.snoc joint operand), ?_, ?_⟩
    · rw [← htokens]
      simp [Phrase.tokens, Links.tokens_snoc]
    · rw [← htree]
      exact more.fold_snoc joint operand _
  | _ => exact absurd rfl joins

end Grammar

namespace Parse

open Grammar

theorem expect_eq_some {wanted : Wanted} {f g : Feed} {t : Token}
    (h : (expect wanted f).done? = some (t, g)) :
    t.kind = wanted.kind ∧ f.tokens = t :: g.tokens := by
  unfold expect at h
  split at h
  · rename_i hkind
    cases h
    refine ⟨hkind, Feed.tokens_eq_cons ?_⟩
    rw [hkind]
    cases wanted <;> nofun
  · cases h

theorem expect_of_tokens (wanted : Wanted) {f : Feed} {t : Token} {ts : List Token}
    (hkind : t.kind = wanted.kind) (h : f.tokens = t :: ts) :
    ∃ g, (expect wanted f).done? = some (t, g) ∧ g.tokens = ts := by
  obtain ⟨hhead, hrest⟩ := Feed.head_of_tokens h
  refine ⟨f.advance, ?_, hrest⟩
  unfold expect
  rw [dif_pos (by rw [hhead, hkind])]
  exact congrArg (fun t => some (t, f.advance)) hhead

theorem ends_iff {tier : Tier} {f : Feed} :
    Ends tier f.tokens ↔ ∀ op, Op.ofKind? f.head.kind = some op → op.power ≤ tier.level := by
  unfold Ends Feed.head
  cases f.tokens with
  | nil => exact ⟨fun _ _ hop => (by cases hop), fun _ t ht => (by cases ht)⟩
  | cons t ts => simp

/-! ## What is parsed is derived -/

/-- What parsing an operand from `f` may give. -/
def UnarySound (f : Feed) : Prop :=
  ∀ e g, (unary f).done? = some (e, g) →
    ∃ d : Phrase .unary, d.tokens ++ g.tokens = f.tokens ∧ d.tree = e

/-- What folding operators from `f` onto an expression may give. The first of them may belong to the
last chain of the expression. -/
def BinarySound (f : Feed) : Prop :=
  ∀ (tier tier' : Tier) (d : Phrase tier') e g, tier.level ≤ tier'.level →
    (∀ op, Op.ofKind? f.head.kind = some op → op.power ≤ tier'.level + 1) →
    (binary d.tree tier.level f).done? = some (e, g) →
    ∃ d' : Phrase tier, d'.tokens ++ g.tokens = d.tokens ++ f.tokens ∧ d'.tree = e ∧
      Ends tier g.tokens

theorem expr_sound_of {f : Feed} (first : UnarySound f)
    (more : ∀ g : Feed, g.size < f.size → BinarySound g) {e : Expr} {g : Feed}
    (h : (expr f).done? = some (e, g)) :
    ∃ d : Phrase .or, d.tokens ++ g.tokens = f.tokens ∧ d.tree = e ∧ Ends .or g.tokens := by
  rw [expr] at h
  obtain ⟨left, f₁, lt, hleft, hmore⟩ := Reply.andThen_eq_some h
  obtain ⟨d, htokens, rfl⟩ := first left f₁ hleft
  obtain ⟨d', htokens', htree', hends⟩ :=
    more f₁ lt .or .unary d e g (by decide) (fun op _ => op.power_le) hmore
  exact ⟨d', htokens'.trans htokens, htree', hends⟩

theorem unarySound_step {f : Feed} (first : ∀ g : Feed, g.size < f.size → UnarySound g)
    (more : ∀ g : Feed, g.size < f.size → BinarySound g) : UnarySound f := by
  intro e g h
  rw [unary] at h
  split at h
  · rename_i hkind
    have hcons := Feed.tokens_eq_cons (f := f) (by simp [hkind])
    have hlt := Feed.size_advance_lt (f := f) (by simp [hkind])
    obtain ⟨e', g', -, hoperand, hdone⟩ := Reply.andThen_eq_some h
    cases hdone
    obtain ⟨d, htokens, rfl⟩ := first f.advance hlt e' g hoperand
    exact ⟨.minus ⟨f.head, hkind⟩ d, by simp [Phrase.tokens, hcons, htokens], rfl⟩
  · rename_i hkind
    have hcons := Feed.tokens_eq_cons (f := f) (by simp [hkind])
    have hlt := Feed.size_advance_lt (f := f) (by simp [hkind])
    obtain ⟨e', g', -, hinner, hclose⟩ := Reply.andThen_eq_some h
    obtain ⟨t, g'', -, hexpect, hdone⟩ := Reply.andThen_eq_some hclose
    cases hdone
    obtain ⟨d, htokens, rfl, -⟩ :=
      expr_sound_of (first f.advance hlt) (fun g hg => more g (by omega)) hinner
    obtain ⟨hright, hrest⟩ := expect_eq_some hexpect
    exact ⟨.group ⟨f.head, hkind⟩ d ⟨t, hright⟩, by simp [Phrase.tokens, hcons, ← htokens, hrest],
      rfl⟩
  · rename_i hkind
    cases h
    exact ⟨.name ⟨f.head, hkind⟩, (Feed.tokens_eq_cons (by simp [hkind])).symm, rfl⟩
  · rename_i hkind
    split at h
    · rename_i x hx
      cases h
      exact ⟨.number ⟨f.head, x, hkind, hx⟩, (Feed.tokens_eq_cons (by simp [hkind])).symm, rfl⟩
    · cases h
  · rename_i hkind
    cases h
    exact ⟨.trueWord ⟨f.head, hkind⟩, (Feed.tokens_eq_cons (by simp [hkind])).symm, rfl⟩
  · rename_i hkind
    cases h
    exact ⟨.falseWord ⟨f.head, hkind⟩, (Feed.tokens_eq_cons (by simp [hkind])).symm, rfl⟩
  · cases h

theorem binarySound_step {f : Feed} (first : ∀ g : Feed, g.size < f.size → UnarySound g)
    (more : ∀ g : Feed, g.size < f.size → BinarySound g) : BinarySound f := by
  intro tier tier' d e g le hhead h
  rw [binary] at h
  split at h
  · rename_i hnone
    cases h
    obtain ⟨d', htokens, htree⟩ := d.exists_loosened tier le
    refine ⟨d', by rw [htokens], htree, ends_iff.2 ?_⟩
    simp [hnone]
  · rename_i op hop
    split at h
    · rename_i hweak
      cases h
      obtain ⟨d', htokens, htree⟩ := d.exists_loosened tier le
      refine ⟨d', by rw [htokens], htree, ends_iff.2 ?_⟩
      intro op' hop'
      cases hop.symm.trans hop'
      exact hweak
    · rename_i hstrong
      have hkind : f.head.kind ≠ .eof := by
        intro hk
        rw [hk] at hop
        cases hop
      have hcons := Feed.tokens_eq_cons hkind
      have hlt := Feed.size_advance_lt hkind
      obtain ⟨tierOp, joins, hjoint⟩ := Tier.exists_operator hop
      have hpower := (Tier.operator?_eq_some_iff.1 hjoint).2
      have hlevel := Tier.level_tighter joins
      have hsame : op.power = tierOp.tighter.level := by omega
      obtain ⟨right, f₁, lt₁, hright, h⟩ := Reply.andThen_eq_some h
      obtain ⟨right', f₂, lt₂, hright', h⟩ := Reply.andThen_eq_some h
      obtain ⟨dr, htokens₁, rfl⟩ := first f.advance hlt right f₁ hright
      rw [hsame] at hright'
      obtain ⟨dr', htokens₂, rfl, hends⟩ := more f₁ (by omega) tierOp.tighter .unary dr right' f₂
        (by cases tierOp <;> decide) (fun op _ => op.power_le) hright'
      -- The chain grows by one operand; the rest goes on from there.
      obtain ⟨d₁, htokens₃, htree₃⟩ :=
        d.exists_extended joins (by have := hhead op hop; omega) ⟨f.head, op, hjoint⟩ dr'
      rw [← htree₃] at h
      obtain ⟨d', htokens', htree', hends'⟩ := more f₂ (by omega) tier tierOp d₁ e g (by omega)
        (fun op' hop' => by have := ends_iff.1 hends op' hop'; omega) h
      refine ⟨d', ?_, htree', hends'⟩
      rw [htokens', htokens₃, List.append_assoc, List.cons_append, htokens₂, htokens₁, hcons]

theorem expression_sound (f : Feed) : UnarySound f ∧ BinarySound f := by
  generalize hn : f.size = n
  induction n using Nat.strongRecOn generalizing f with
  | ind n ih =>
    subst hn
    have first (g : Feed) (lt : g.size < f.size) := (ih g.size lt g rfl).1
    have more (g : Feed) (lt : g.size < f.size) := (ih g.size lt g rfl).2
    exact ⟨unarySound_step first more, binarySound_step first more⟩

/-- An expression that is parsed is derived from the tokens it took, and what is left does not go on
with it. -/
theorem expr_sound {f g : Feed} {e : Expr} (h : (expr f).done? = some (e, g)) :
    ∃ d : Phrase .or, d.tokens ++ g.tokens = f.tokens ∧ d.tree = e :=
  have ⟨d, htokens, htree, _⟩ :=
    expr_sound_of (expression_sound f).1 (fun g _ => (expression_sound g).2) h
  ⟨d, htokens, htree⟩

/-! ## What is derived is parsed -/

theorem binary_of_ends (left : Expr) {tier : Tier} {f : Feed} (h : Ends tier f.tokens) :
    (binary left tier.level f).done? = some (left, f) := by
  rw [binary]
  split
  · rfl
  · rename_i op hop
    rw [if_pos (ends_iff.1 h op hop)]
    rfl

theorem unary_minus {f : Feed} (h : f.head.kind = .minus) {e : Expr} {g : Feed}
    (operand : (unary f.advance).done? = some (e, g)) :
    (unary f).done? = some (.binary .sub (.number 0) e, g) := by
  rw [unary]
  split
  case h_1 => exact Reply.andThen_of_done operand fun _ => rfl
  all_goals simp_all

theorem unary_group {f : Feed} (h : f.head.kind = .openParen) {e : Expr} {g g' : Feed} {t : Token}
    (inner : (expr f.advance).done? = some (e, g)) (close : (expect .closeGroup g).done? = some (t, g')) :
    (unary f).done? = some (e, g') := by
  rw [unary]
  split
  case h_2 =>
    exact Reply.andThen_of_done inner fun _ => Reply.andThen_of_done close fun _ => rfl
  all_goals simp_all

theorem unary_name {f : Feed} (h : f.head.kind = .identifier) :
    (unary f).done? = some (.variable f.head.text, f.advance) := by
  rw [unary]
  split
  case h_3 => rfl
  all_goals simp_all

theorem unary_number {f : Feed} (h : f.head.kind = .number) {x : Float}
    (hx : Number.read? f.head.text = some x) : (unary f).done? = some (.number x, f.advance) := by
  rw [unary]
  split
  case h_4 =>
    simp only [hx]
    rfl
  all_goals simp_all

theorem unary_true {f : Feed} (h : f.head.kind = .true) :
    (unary f).done? = some (.bool true, f.advance) := by
  rw [unary]
  split
  case h_5 => rfl
  all_goals simp_all

theorem unary_false {f : Feed} (h : f.head.kind = .false) :
    (unary f).done? = some (.bool false, f.advance) := by
  rw [unary]
  split
  case h_6 => rfl
  all_goals simp_all

theorem binary_step {f f₁ f₂ : Feed} {op : Op} {left right right' : Expr} {least : Nat}
    (hop : Op.ofKind? f.head.kind = some op) (strong : least < op.power)
    (operand : (unary f.advance).done? = some (right, f₁))
    (more : (binary right op.power f₁).done? = some (right', f₂)) :
    (binary left least f).done? = (binary (.binary op left right') least f₂).done? := by
  rw [binary]
  split
  · rename_i hnone
    cases hnone.symm.trans hop
  · rename_i op' hop'
    cases hop.symm.trans hop'
    rw [if_neg (by omega)]
    exact Reply.andThen_of_done operand fun _ => Reply.andThen_of_done more fun _ => rfl

/-- How an expression of the tier that `f` starts with is parsed: its first operand `first`, and then
operators are folded onto that until they are folded onto the whole expression. -/
def Folds (tier : Tier) (e : Expr) (f g : Feed) : Prop :=
  ∃ first f₁, (unary f).done? = some (first, f₁) ∧
    (∀ loose : Tier, loose.level ≤ tier.level →
      (binary first loose.level f₁).done? = (binary e loose.level g).done?) ∧
    (tier = .unary → first = e ∧ f₁ = g)

theorem Folds.unary {e : Expr} {f g : Feed} (h : (unary f).done? = some (e, g)) :
    Folds .unary e f g :=
  ⟨e, g, h, fun _ _ => rfl, fun _ => ⟨rfl, rfl⟩⟩

theorem Folds.expr {e : Expr} {f g : Feed} (h : Folds .or e f g) (ends : Ends .or g.tokens) :
    (expr f).done? = some (e, g) := by
  obtain ⟨first, f₁, hfirst, hmore, -⟩ := h
  rw [Parse.expr]
  refine Reply.andThen_of_done hfirst fun _ => ?_
  rw [← binary_of_ends _ ends]
  exact hmore .or (Nat.le_refl _)

mutual

theorem phrase_folds {tier : Tier} : (d : Phrase tier) → {f : Feed} → {ts : List Token} →
    f.tokens = d.tokens ++ ts → Ends tier ts → ∃ g, g.tokens = ts ∧ Folds tier d.tree f g
  | .name t, f, ts, eq, h => by
    obtain ⟨hhead, hrest⟩ := Feed.head_of_tokens eq
    have hdone := unary_name (f := f) (by rw [hhead, t.property])
    rw [hhead] at hdone
    exact ⟨f.advance, hrest, .unary hdone⟩
  | .number n, f, ts, eq, h => by
    obtain ⟨hhead, hrest⟩ := Feed.head_of_tokens eq
    have hdone := unary_number (f := f) (by rw [hhead, n.kind]) (by rw [hhead, n.read])
    exact ⟨f.advance, hrest, .unary hdone⟩
  | .trueWord t, f, ts, eq, h => by
    obtain ⟨hhead, hrest⟩ := Feed.head_of_tokens eq
    exact ⟨f.advance, hrest, .unary (unary_true (by rw [hhead, t.property]))⟩
  | .falseWord t, f, ts, eq, h => by
    obtain ⟨hhead, hrest⟩ := Feed.head_of_tokens eq
    exact ⟨f.advance, hrest, .unary (unary_false (by rw [hhead, t.property]))⟩
  | .minus sign operand, f, ts, eq, h => by
    obtain ⟨hhead, hrest⟩ := Feed.head_of_tokens eq
    obtain ⟨g, hg, first, f₁, hfirst, -, hsame⟩ := phrase_folds operand hrest h
    obtain ⟨rfl, rfl⟩ := hsame rfl
    exact ⟨f₁, hg, .unary (unary_minus (by rw [hhead, sign.property]) hfirst)⟩
  | .group left inner right, f, ts, eq, h => by
    simp only [Phrase.tokens, List.cons_append, List.append_assoc, List.nil_append] at eq
    obtain ⟨hhead, hrest⟩ := Feed.head_of_tokens eq
    obtain ⟨g, hg, hinner⟩ := phrase_folds inner hrest (right.ends ts rfl)
    obtain ⟨g', hclose, hg'⟩ := expect_of_tokens .closeGroup right.property hg
    have hexpr := hinner.expr (hg ▸ right.ends ts rfl)
    exact ⟨g', hg', .unary (unary_group (by rw [hhead, left.property]) hexpr hclose)⟩
  | .chain tier joins first more, f, ts, eq, h => by
    have level := Tier.level_tighter joins
    rw [Phrase.tokens, List.append_assoc] at eq
    obtain ⟨g₁, hg₁, e, f₁, hfirst, hmore, -⟩ := phrase_folds first eq (more.ends joins h)
    obtain ⟨g, hg, hlinks⟩ := links_folds joins more first.tree hg₁ h
    refine ⟨g, hg, e, f₁, hfirst, ?_, fun hu => absurd hu joins⟩
    intro loose le
    rw [hmore loose (by omega)]
    exact hlinks loose le

theorem links_folds {tier : Tier} (joins : tier ≠ .unary) : (more : Links tier) → (left : Expr) →
    {f : Feed} → {ts : List Token} → f.tokens = more.tokens ++ ts → Ends tier ts →
    ∃ g, g.tokens = ts ∧ ∀ loose : Tier, loose.level ≤ tier.level →
      (binary left loose.level f).done? = (binary (more.fold left) loose.level g).done?
  | .nil _, left, f, ts, eq, h => ⟨f, eq, fun _ _ => rfl⟩
  | .cons _ joint operand more, left, f, ts, eq, h => by
    have level := Tier.level_tighter joins
    obtain ⟨hkind, hpower⟩ := Tier.operator?_eq_some_iff.1 joint.fits
    simp only [Links.tokens, List.cons_append, List.append_assoc] at eq
    obtain ⟨hhead, hrest⟩ := Feed.head_of_tokens eq
    have hends := more.ends joins h
    obtain ⟨g₁, hg₁, e, f₁, hfirst, hmore, -⟩ := phrase_folds operand hrest hends
    obtain ⟨g, hg, hlinks⟩ := links_folds joins more (.binary joint.op left operand.tree) hg₁ h
    -- The operand ends where the chain goes on, so nothing more is folded onto it.
    have hoperand : (binary e joint.op.power f₁).done? = some (operand.tree, g₁) := by
      rw [hpower, ← level, hmore tier.tighter (Nat.le_refl _)]
      exact binary_of_ends _ (hg₁ ▸ hends)
    refine ⟨g, hg, ?_⟩
    intro loose le
    rw [binary_step (by rw [hhead, hkind]) (by omega) hfirst hoperand]
    exact hlinks loose le

end

/-- A derived expression is parsed, if what follows does not go on with it. -/
theorem expr_complete {d : Phrase .or} {f : Feed} {ts : List Token} (eq : f.tokens = d.tokens ++ ts)
    (h : Ends .or ts) : ∃ g, g.tokens = ts ∧ (expr f).done? = some (d.tree, g) := by
  obtain ⟨g, rfl, hfolds⟩ := phrase_folds d eq h
  exact ⟨g, rfl, hfolds.expr h⟩

end Parse

end LetWhile
