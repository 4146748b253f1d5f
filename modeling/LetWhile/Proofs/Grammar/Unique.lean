import LetWhile.Proofs.Grammar

/-!
# The grammar is unambiguous

Two derivations with the same tokens are the same. For the parts of a program this holds of any two
texts that start with them, as long as what follows does not go on with the part: an operator of the
tier or a tighter one goes on with an expression, `else` goes on with an `if`.
-/

namespace LetWhile.Grammar

namespace Tier

/-- How tightly the operators outside an expression of the tier may bind. -/
def level : Tier → Nat
  | .or => 0
  | .and => 1
  | .compare => 2
  | .sum => 3
  | .product => 4
  | .unary => 5

theorem level_tighter {tier : Tier} (joins : tier ≠ .unary) :
    tier.tighter.level = tier.level + 1 := by
  cases tier <;> first | rfl | exact absurd rfl joins

theorem operator?_eq_some_iff {tier : Tier} {kind : Token.Kind} {op : Op} :
    tier.operator? kind = some op ↔ Op.ofKind? kind = some op ∧ op.power = tier.level + 1 := by
  constructor
  · intro h
    unfold operator? at h
    split at h <;> cases h <;> exact ⟨rfl, rfl⟩
  · rintro ⟨h, hp⟩
    unfold Op.ofKind? at h
    split at h <;> cases h <;> cases tier <;> first | rfl | cases hp

end Tier

/-- The text does not go on with an expression of the tier. -/
def Ends (tier : Tier) (ts : List Token) : Prop :=
  ∀ t ∈ ts.head?, ∀ op, Op.ofKind? t.kind = some op → op.power ≤ tier.level

theorem Ends.mono {tier tier' : Tier} {ts : List Token} (le : tier.level ≤ tier'.level)
    (h : Ends tier ts) : Ends tier' ts :=
  fun t ht op hop => Nat.le_trans (h t ht op hop) le

theorem Ends.cons {tier : Tier} {t : Token} (ts : List Token) (h : Op.ofKind? t.kind = none) :
    Ends tier (t :: ts) := by
  intro u hu op hop
  cases hu
  rw [h] at hop
  cases hop

/-- What follows the first operand of a chain does not go on with that operand. -/
theorem Links.ends {tier : Tier} (joins : tier ≠ .unary) (more : Links tier) {ts : List Token}
    (h : Ends tier ts) : Ends tier.tighter (more.tokens ++ ts) := by
  have level := Tier.level_tighter joins
  cases more with
  | nil => exact h.mono (by omega)
  | cons _ joint operand more =>
    intro t ht op hop
    cases ht
    obtain ⟨hkind, hpower⟩ := Tier.operator?_eq_some_iff.1 joint.fits
    rw [hkind] at hop
    cases hop
    omega

/-- A chain that has stopped does not go on. -/
theorem Ends.ne_cons {tier : Tier} {ts us : List Token} (h : Ends tier ts) (joint : Joint tier) :
    ts ≠ joint.token :: us := by
  rintro rfl
  obtain ⟨hkind, hpower⟩ := Tier.operator?_eq_some_iff.1 joint.fits
  have := h joint.token rfl joint.op hkind
  omega

/-- The kind of the first token. -/
def Phrase.leader {tier : Tier} : Phrase tier → Token.Kind
  | .name _ => .identifier
  | .number _ => .number
  | .trueWord _ => .true
  | .falseWord _ => .false
  | .minus _ _ => .minus
  | .group _ _ _ => .openParen
  | .chain _ _ first _ => first.leader

theorem Phrase.tokens_eq_cons {tier : Tier} :
    (d : Phrase tier) → ∃ t rest, d.tokens = t :: rest ∧ t.kind = d.leader
  | .name t => ⟨_, _, rfl, t.property⟩
  | .number n => ⟨_, _, rfl, n.kind⟩
  | .trueWord t => ⟨_, _, rfl, t.property⟩
  | .falseWord t => ⟨_, _, rfl, t.property⟩
  | .minus sign _ => ⟨_, _, rfl, sign.property⟩
  | .group left _ _ => ⟨_, _, rfl, left.property⟩
  | .chain _ _ first more => by
    obtain ⟨t, rest, htokens, hkind⟩ := first.tokens_eq_cons
    exact ⟨t, rest ++ more.tokens, by simp [Phrase.tokens, htokens], hkind⟩

theorem Phrase.leader_eq {tier tier' : Tier} {d : Phrase tier} {d' : Phrase tier'}
    {ts ts' : List Token} (eq : d.tokens ++ ts = d'.tokens ++ ts') : d.leader = d'.leader := by
  obtain ⟨t, rest, htokens, hkind⟩ := d.tokens_eq_cons
  obtain ⟨t', rest', htokens', hkind'⟩ := d'.tokens_eq_cons
  rw [htokens, htokens'] at eq
  rw [← hkind, ← hkind', (List.cons.inj eq).1]

theorem Numeral.eq_of_token {n n' : Numeral} (h : n.token = n'.token) : n = n' := by
  obtain ⟨token, value, kind, read⟩ := n
  obtain ⟨token', value', kind', read'⟩ := n'
  cases h
  cases read.symm.trans read'
  rfl

theorem Joint.eq_of_token {tier : Tier} {j j' : Joint tier} (h : j.token = j'.token) : j = j' := by
  obtain ⟨token, op, fits⟩ := j
  obtain ⟨token', op', fits'⟩ := j'
  cases h
  cases fits.symm.trans fits'
  rfl

theorem Terminal.ends {tier : Tier} {kind : Token.Kind} (t : Terminal kind) (ts : List Token)
    (h : Op.ofKind? kind = none) : Ends tier (t.val :: ts) :=
  .cons ts (by rw [t.property, h])

mutual

theorem Phrase.unique {tier : Tier} : (d d' : Phrase tier) → {ts ts' : List Token} →
    d.tokens ++ ts = d'.tokens ++ ts' → Ends tier ts → Ends tier ts' → d = d' ∧ ts = ts'
  | .name t, d', ts, ts', eq, h, h' => by
    have lead := Phrase.leader_eq eq
    cases d' with
    | name t' =>
      obtain ⟨ht, rfl⟩ := List.cons.inj eq
      exact ⟨by rw [Subtype.ext ht], rfl⟩
    | chain _ joins => exact absurd rfl joins
    | _ => cases lead
  | .number n, d', ts, ts', eq, h, h' => by
    have lead := Phrase.leader_eq eq
    cases d' with
    | number n' =>
      obtain ⟨hn, rfl⟩ := List.cons.inj eq
      exact ⟨by rw [Numeral.eq_of_token hn], rfl⟩
    | chain _ joins => exact absurd rfl joins
    | _ => cases lead
  | .trueWord t, d', ts, ts', eq, h, h' => by
    have lead := Phrase.leader_eq eq
    cases d' with
    | trueWord t' =>
      obtain ⟨ht, rfl⟩ := List.cons.inj eq
      exact ⟨by rw [Subtype.ext ht], rfl⟩
    | chain _ joins => exact absurd rfl joins
    | _ => cases lead
  | .falseWord t, d', ts, ts', eq, h, h' => by
    have lead := Phrase.leader_eq eq
    cases d' with
    | falseWord t' =>
      obtain ⟨ht, rfl⟩ := List.cons.inj eq
      exact ⟨by rw [Subtype.ext ht], rfl⟩
    | chain _ joins => exact absurd rfl joins
    | _ => cases lead
  | .minus sign operand, d', ts, ts', eq, h, h' => by
    have lead := Phrase.leader_eq eq
    cases d' with
    | minus sign' operand' =>
      obtain ⟨hsign, heq⟩ := List.cons.inj eq
      obtain ⟨rfl, rfl⟩ := Phrase.unique operand operand' heq h h'
      exact ⟨by rw [Subtype.ext hsign], rfl⟩
    | chain _ joins => exact absurd rfl joins
    | _ => cases lead
  | .group left inner right, d', ts, ts', eq, h, h' => by
    have lead := Phrase.leader_eq eq
    cases d' with
    | group left' inner' right' =>
      simp only [Phrase.tokens, List.cons_append, List.append_assoc, List.cons.injEq,
        List.nil_append] at eq
      obtain ⟨hleft, heq⟩ := eq
      obtain ⟨rfl, hrest⟩ :=
        Phrase.unique inner inner' heq (right.ends ts rfl) (right'.ends ts' rfl)
      obtain ⟨hright, rfl⟩ := List.cons.inj hrest
      exact ⟨by rw [Subtype.ext hleft, Subtype.ext hright], rfl⟩
    | chain _ joins => exact absurd rfl joins
    | _ => cases lead
  | .chain tier joins first more, d', ts, ts', eq, h, h' => by
    cases d' with
    | chain _ _ first' more' =>
      simp only [Phrase.tokens, List.append_assoc] at eq
      obtain ⟨rfl, hrest⟩ := Phrase.unique first first' eq (more.ends joins h) (more'.ends joins h')
      obtain ⟨rfl, rfl⟩ := Links.unique joins more more' hrest h h'
      exact ⟨rfl, rfl⟩
    | _ => exact absurd rfl joins

theorem Links.unique {tier : Tier} (joins : tier ≠ .unary) : (d d' : Links tier) →
    {ts ts' : List Token} → d.tokens ++ ts = d'.tokens ++ ts' → Ends tier ts → Ends tier ts' →
    d = d' ∧ ts = ts'
  | .nil _, d', ts, ts', eq, h, h' => by
    cases d' with
    | nil => exact ⟨rfl, eq⟩
    | cons _ joint operand more => exact absurd eq (h.ne_cons joint)
  | .cons _ joint operand more, d', ts, ts', eq, h, h' => by
    cases d' with
    | nil => exact absurd eq.symm (h'.ne_cons joint)
    | cons _ joint' operand' more' =>
      simp only [Links.tokens, List.cons_append, List.append_assoc, List.cons.injEq] at eq
      obtain ⟨hjoint, heq⟩ := eq
      obtain ⟨rfl, hrest⟩ :=
        Phrase.unique operand operand' heq (more.ends joins h) (more'.ends joins h')
      obtain ⟨rfl, rfl⟩ := Links.unique joins more more' hrest h h'
      exact ⟨by rw [Joint.eq_of_token hjoint], rfl⟩

end

/-- An expression of a tier is one of every looser tier too. -/
theorem Phrase.exists_loosened {tier' : Tier} (d : Phrase tier') (tier : Tier)
    (le : tier.level ≤ tier'.level) :
    ∃ d' : Phrase tier, d'.tokens = d.tokens ∧ d'.tree = d.tree := by
  generalize hn : tier'.level - tier.level = n
  induction n generalizing tier with
  | zero =>
    have same : tier = tier' := by
      have : tier.level = tier'.level := by omega
      cases tier <;> cases tier' <;> first | rfl | cases this
    subst same
    exact ⟨d, rfl, rfl⟩
  | succ n ih =>
    have joins : tier ≠ .unary := by
      rintro rfl
      have : tier'.level ≤ Tier.unary.level := by cases tier' <;> decide
      omega
    have level := Tier.level_tighter joins
    obtain ⟨d', htokens, htree⟩ := ih tier.tighter (by omega) (by omega)
    exact ⟨.chain tier joins d' (.nil tier), by simp [Phrase.tokens, Links.tokens, htokens],
      by simp [Phrase.tree, Links.fold, htree]⟩

/-- The kinds that an expression can start with. -/
def isLeader : Token.Kind → Bool
  | .identifier | .number | .true | .false | .minus | .openParen => true
  | _ => false

theorem Phrase.isLeader_leader {tier : Tier} : (d : Phrase tier) → isLeader d.leader = true
  | .name _ => rfl
  | .number _ => rfl
  | .trueWord _ => rfl
  | .falseWord _ => rfl
  | .minus _ _ => rfl
  | .group _ _ _ => rfl
  | .chain _ _ first _ => first.isLeader_leader

theorem Phrase.leader_ne {tier : Tier} {kind : Token.Kind} (d : Phrase tier)
    (h : isLeader kind = false) : kind ≠ d.leader := by
  rintro rfl
  rw [d.isLeader_leader] at h
  cases h

def Sentence.leader : Sentence → Token.Kind
  | .declare .. => .let
  | .assign .. => .identifier
  | .branch .. => .if
  | .branchElse .. => .if
  | .loop .. => .while
  | .print .. => .print
  | .result .. => .return
  | .eval value _ => value.leader

theorem Sentence.tokens_eq_cons (s : Sentence) :
    ∃ t rest, s.tokens = t :: rest ∧ t.kind = s.leader := by
  cases s with
  | declare keyword => exact ⟨_, _, rfl, keyword.property⟩
  | assign name => exact ⟨_, _, rfl, name.property⟩
  | branch keyword => exact ⟨_, _, rfl, keyword.property⟩
  | branchElse keyword => exact ⟨_, _, rfl, keyword.property⟩
  | loop keyword => exact ⟨_, _, rfl, keyword.property⟩
  | print keyword => exact ⟨_, _, rfl, keyword.property⟩
  | result keyword => exact ⟨_, _, rfl, keyword.property⟩
  | eval value stop =>
    obtain ⟨t, rest, htokens, hkind⟩ := value.tokens_eq_cons
    exact ⟨t, rest ++ [stop.val], by simp [Sentence.tokens, htokens], hkind⟩

theorem Sentence.leader_eq {s s' : Sentence} {ts ts' : List Token}
    (eq : s.tokens ++ ts = s'.tokens ++ ts') : s.leader = s'.leader := by
  obtain ⟨t, rest, htokens, hkind⟩ := s.tokens_eq_cons
  obtain ⟨t', rest', htokens', hkind'⟩ := s'.tokens_eq_cons
  rw [htokens, htokens'] at eq
  rw [← hkind, ← hkind', (List.cons.inj eq).1]

/-- No statement starts with a brace, with `else` or at the end. -/
theorem Sentence.leader_ne (s : Sentence) :
    s.leader ≠ .closeCurly ∧ s.leader ≠ .else ∧ s.leader ≠ .eof := by
  cases s with
  | eval value _ =>
    exact ⟨(value.leader_ne rfl).symm, (value.leader_ne rfl).symm, (value.leader_ne rfl).symm⟩
  | _ => exact ⟨nofun, nofun, nofun⟩

/-- The text does not go on with an `if`. -/
def NoElse (ts : List Token) : Prop := ∀ t ∈ ts.head?, t.kind ≠ .else

/-- The text does not go on with statements. -/
def Closes (ts : List Token) : Prop := ∀ t ∈ ts.head?, t.kind = .closeCurly

theorem Closes.nil : Closes [] := nofun

theorem Terminal.closes (t : Terminal .closeCurly) (ts : List Token) : Closes (t.val :: ts) := by
  intro u hu
  cases hu
  exact t.property

theorem Closes.noElse {ts : List Token} (h : Closes ts) : NoElse ts := by
  intro t ht he
  rw [h t ht] at he
  cases he

theorem Closes.ne_sentence {ts us : List Token} (h : Closes ts) (s : Sentence) :
    ts ≠ s.tokens ++ us := by
  rintro rfl
  obtain ⟨t, rest, htokens, hkind⟩ := s.tokens_eq_cons
  have := h t (by simp [htokens])
  exact s.leader_ne.1 (hkind.symm.trans this)

theorem Derivation.noElse (d : Derivation) {ts : List Token} (h : Closes ts) :
    NoElse (Derivation.tokens d ++ ts) := by
  cases d with
  | nil => exact h.noElse
  | cons s rest =>
    obtain ⟨t, more, htokens, hkind⟩ := s.tokens_eq_cons
    intro u hu
    simp only [Derivation.tokens, htokens, List.cons_append, List.head?_cons] at hu
    cases hu
    rw [hkind]
    exact s.leader_ne.2.1

/-- An assignment is no expression. -/
theorem Phrase.ne_assign {d : Phrase .or} {name : Terminal .identifier} {sign : Terminal .assign}
    {stop : Terminal .semicolon} {ts us : List Token} :
    d.tokens ++ stop.val :: ts ≠ name.val :: sign.val :: us := by
  intro eq
  obtain ⟨d', htokens, -⟩ := (Phrase.name name).exists_loosened .or (by decide)
  have eq' : d.tokens ++ stop.val :: ts = d'.tokens ++ sign.val :: us := by
    rw [eq, htokens]
    rfl
  have same := (Phrase.unique d d' eq' (stop.ends ts rfl) (sign.ends us rfl)).2
  have := congrArg Token.kind (List.cons.inj same).1
  rw [stop.property, sign.property] at this
  cases this

/-- Two expressions in front of tokens that cannot go on with them are the same. -/
theorem Phrase.unique_before {kind : Token.Kind} (closer : Op.ofKind? kind = none)
    {d d' : Phrase .or} {t t' : Terminal kind} {ts ts' : List Token}
    (eq : d.tokens ++ t.val :: ts = d'.tokens ++ t'.val :: ts') : d = d' ∧ t = t' ∧ ts = ts' := by
  obtain ⟨rfl, rest⟩ := Phrase.unique d d' eq (t.ends ts closer) (t'.ends ts' closer)
  obtain ⟨ht, rfl⟩ := List.cons.inj rest
  exact ⟨rfl, Subtype.ext ht, rfl⟩

/-- Two tests with their blocks are the same if the blocks are, whatever follows. -/
theorem unique_tested {test test' : Phrase .or} {right right' : Terminal .closeParen}
    {start start' : Terminal .openCurly} {body body' : List Sentence}
    {finish finish' : Terminal .closeCurly} {ts ts' : List Token}
    (unique : ∀ {ts ts' : List Token},
      Derivation.tokens body ++ ts = Derivation.tokens body' ++ ts' → Closes ts → Closes ts' →
        body = body' ∧ ts = ts')
    (eq : test.tokens ++ right.val :: start.val :: (Derivation.tokens body ++ finish.val :: ts) =
      test'.tokens ++ right'.val :: start'.val :: (Derivation.tokens body' ++ finish'.val :: ts')) :
    test = test' ∧ right = right' ∧ start = start' ∧ body = body' ∧ finish = finish' ∧
      ts = ts' := by
  obtain ⟨rfl, rfl, hbody⟩ := Phrase.unique_before rfl eq
  obtain ⟨hstart, hbody⟩ := List.cons.inj hbody
  obtain ⟨rfl, hend⟩ := unique hbody (finish.closes ts) (finish'.closes ts')
  obtain ⟨hfinish, rfl⟩ := List.cons.inj hend
  exact ⟨rfl, rfl, Subtype.ext hstart, rfl, Subtype.ext hfinish, rfl⟩

mutual

theorem Sentence.unique : (s s' : Sentence) → {ts ts' : List Token} →
    s.tokens ++ ts = s'.tokens ++ ts' → NoElse ts → NoElse ts' → s = s' ∧ ts = ts'
  | .declare keyword name sign value stop, s', ts, ts', eq, h, h' => by
    have lead := Sentence.leader_eq eq
    cases s' with
    | declare keyword' name' sign' value' stop' =>
      simp only [Sentence.tokens, List.cons_append, List.append_assoc, List.nil_append,
        List.cons.injEq] at eq
      obtain ⟨hkeyword, hname, hsign, hrest⟩ := eq
      obtain ⟨rfl, rfl, rfl⟩ := Phrase.unique_before rfl hrest
      exact ⟨by rw [Subtype.ext hkeyword, Subtype.ext hname, Subtype.ext hsign], rfl⟩
    | eval value' => exact absurd lead (value'.leader_ne rfl)
    | _ => cases lead
  | .assign name sign value stop, s', ts, ts', eq, h, h' => by
    have lead := Sentence.leader_eq eq
    cases s' with
    | assign name' sign' value' stop' =>
      simp only [Sentence.tokens, List.cons_append, List.append_assoc, List.nil_append,
        List.cons.injEq] at eq
      obtain ⟨hname, hsign, hrest⟩ := eq
      obtain ⟨rfl, rfl, rfl⟩ := Phrase.unique_before rfl hrest
      exact ⟨by rw [Subtype.ext hname, Subtype.ext hsign], rfl⟩
    | eval value' stop' =>
      simp only [Sentence.tokens, List.cons_append, List.append_assoc, List.nil_append] at eq
      exact absurd eq.symm Phrase.ne_assign
    | _ => cases lead
  | .branch keyword left test right start yes finish, s', ts, ts', eq, h, h' => by
    have lead := Sentence.leader_eq eq
    cases s' with
    | branch keyword' left' test' right' start' yes' finish' =>
      simp only [Sentence.tokens, List.cons_append, List.append_assoc, List.nil_append,
        List.cons.injEq] at eq
      obtain ⟨hkeyword, hleft, hrest⟩ := eq
      obtain ⟨rfl, rfl, rfl, rfl, rfl, rfl⟩ := unique_tested (Derivation.unique yes yes') hrest
      exact ⟨by rw [Subtype.ext hkeyword, Subtype.ext hleft], rfl⟩
    | branchElse keyword' left' test' right' start' yes' finish' other' =>
      simp only [Sentence.tokens, List.cons_append, List.append_assoc, List.nil_append,
        List.cons.injEq] at eq
      obtain ⟨-, -, hrest⟩ := eq
      obtain ⟨-, -, -, -, -, rfl⟩ := unique_tested (Derivation.unique yes yes') hrest
      exact absurd other'.property (h other'.val rfl)
    | eval value' => exact absurd lead (value'.leader_ne rfl)
    | _ => cases lead
  | .branchElse keyword left test right start yes finish other start₂ no finish₂, s', ts, ts', eq,
      h, h' => by
    have lead := Sentence.leader_eq eq
    cases s' with
    | branch keyword' left' test' right' start' yes' finish' =>
      simp only [Sentence.tokens, List.cons_append, List.append_assoc, List.nil_append,
        List.cons.injEq] at eq
      obtain ⟨-, -, hrest⟩ := eq
      obtain ⟨-, -, -, -, -, rfl⟩ := unique_tested (Derivation.unique yes yes') hrest
      exact absurd other.property (h' other.val rfl)
    | branchElse keyword' left' test' right' start' yes' finish' other' start₂' no' finish₂' =>
      simp only [Sentence.tokens, List.cons_append, List.append_assoc, List.nil_append,
        List.cons.injEq] at eq
      obtain ⟨hkeyword, hleft, hrest⟩ := eq
      obtain ⟨rfl, rfl, rfl, rfl, rfl, hmore⟩ := unique_tested (Derivation.unique yes yes') hrest
      simp only [List.cons.injEq] at hmore
      obtain ⟨hother, hstart, hbody⟩ := hmore
      obtain ⟨rfl, hend⟩ :=
        Derivation.unique no no' hbody (finish₂.closes ts) (finish₂'.closes ts')
      obtain ⟨hfinish, rfl⟩ := List.cons.inj hend
      exact ⟨by rw [Subtype.ext hkeyword, Subtype.ext hleft, Subtype.ext hother,
        Subtype.ext hstart, Subtype.ext hfinish], rfl⟩
    | eval value' => exact absurd lead (value'.leader_ne rfl)
    | _ => cases lead
  | .loop keyword left test right start body finish, s', ts, ts', eq, h, h' => by
    have lead := Sentence.leader_eq eq
    cases s' with
    | loop keyword' left' test' right' start' body' finish' =>
      simp only [Sentence.tokens, List.cons_append, List.append_assoc, List.nil_append,
        List.cons.injEq] at eq
      obtain ⟨hkeyword, hleft, hrest⟩ := eq
      obtain ⟨rfl, rfl, rfl, rfl, rfl, rfl⟩ := unique_tested (Derivation.unique body body') hrest
      exact ⟨by rw [Subtype.ext hkeyword, Subtype.ext hleft], rfl⟩
    | eval value' => exact absurd lead (value'.leader_ne rfl)
    | _ => cases lead
  | .print keyword left value right stop, s', ts, ts', eq, h, h' => by
    have lead := Sentence.leader_eq eq
    cases s' with
    | print keyword' left' value' right' stop' =>
      simp only [Sentence.tokens, List.cons_append, List.append_assoc, List.nil_append,
        List.cons.injEq] at eq
      obtain ⟨hkeyword, hleft, hrest⟩ := eq
      obtain ⟨rfl, rfl, hend⟩ := Phrase.unique_before rfl hrest
      obtain ⟨hstop, rfl⟩ := List.cons.inj hend
      exact ⟨by rw [Subtype.ext hkeyword, Subtype.ext hleft, Subtype.ext hstop], rfl⟩
    | eval value' => exact absurd lead (value'.leader_ne rfl)
    | _ => cases lead
  | .result keyword value stop, s', ts, ts', eq, h, h' => by
    have lead := Sentence.leader_eq eq
    cases s' with
    | result keyword' value' stop' =>
      simp only [Sentence.tokens, List.cons_append, List.append_assoc, List.nil_append,
        List.cons.injEq] at eq
      obtain ⟨hkeyword, hrest⟩ := eq
      obtain ⟨rfl, rfl, rfl⟩ := Phrase.unique_before rfl hrest
      exact ⟨by rw [Subtype.ext hkeyword], rfl⟩
    | eval value' => exact absurd lead (value'.leader_ne rfl)
    | _ => cases lead
  | .eval value stop, s', ts, ts', eq, h, h' => by
    have lead := Sentence.leader_eq eq
    cases s' with
    | eval value' stop' =>
      simp only [Sentence.tokens, List.append_assoc, List.cons_append, List.nil_append] at eq
      obtain ⟨rfl, rfl, rfl⟩ := Phrase.unique_before rfl eq
      exact ⟨rfl, rfl⟩
    | assign name' sign' value' stop' =>
      simp only [Sentence.tokens, List.cons_append, List.append_assoc, List.nil_append] at eq
      exact absurd eq Phrase.ne_assign
    | _ => exact absurd lead.symm (value.leader_ne rfl)

theorem Derivation.unique : (d d' : List Sentence) → {ts ts' : List Token} →
    Derivation.tokens d ++ ts = Derivation.tokens d' ++ ts' → Closes ts → Closes ts' →
    d = d' ∧ ts = ts'
  | [], [], ts, ts', eq, h, h' => ⟨rfl, eq⟩
  | [], s' :: rest', ts, ts', eq, h, h' => by
    simp only [Derivation.tokens, List.nil_append, List.append_assoc] at eq
    exact absurd eq (h.ne_sentence s')
  | s :: rest, [], ts, ts', eq, h, h' => by
    simp only [Derivation.tokens, List.nil_append, List.append_assoc] at eq
    exact absurd eq.symm (h'.ne_sentence s)
  | s :: rest, s' :: rest', ts, ts', eq, h, h' => by
    simp only [Derivation.tokens, List.append_assoc] at eq
    obtain ⟨rfl, hrest⟩ := Sentence.unique s s' eq (Derivation.noElse rest h)
      (Derivation.noElse rest' h')
    obtain ⟨rfl, rfl⟩ := Derivation.unique rest rest' hrest h h'
    exact ⟨rfl, rfl⟩

end

end LetWhile.Grammar
