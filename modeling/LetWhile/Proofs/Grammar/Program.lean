import LetWhile.Proofs.Grammar.Reader

/-!
# Parsing programs

A program parses without an error exactly if the grammar derives its tokens, and then its statements
are the tree of the one derivation.
-/

namespace LetWhile

namespace Parse

open Grammar

/-! ## What is parsed is derived -/

theorem terminated_sound {f g : Feed} {e : Expr} (h : (terminated f).done? = some (e, g)) :
    ∃ (d : Phrase .or) (stop : Terminal .semicolon),
      f.tokens = d.tokens ++ stop.val :: g.tokens ∧ d.tree = e := by
  unfold terminated at h
  obtain ⟨e', f₁, -, hexpr, h⟩ := Reply.andThen_eq_some h
  obtain ⟨t, f₂, -, hstop, hdone⟩ := Reply.andThen_eq_some h
  cases hdone
  obtain ⟨d, htokens, htree⟩ := expr_sound hexpr
  obtain ⟨hkind, hrest⟩ := expect_eq_some hstop
  exact ⟨d, ⟨t, hkind⟩, by rw [← htokens, hrest], htree⟩

theorem condition_sound {f g : Feed} {e : Expr} (h : (condition f).done? = some (e, g)) :
    ∃ (left : Terminal .openParen) (d : Phrase .or) (right : Terminal .closeParen),
      f.tokens = left.val :: (d.tokens ++ right.val :: g.tokens) ∧ d.tree = e := by
  unfold condition at h
  obtain ⟨t, f₁, -, hleft, h⟩ := Reply.andThen_eq_some h
  obtain ⟨e', f₂, -, hexpr, h⟩ := Reply.andThen_eq_some h
  obtain ⟨t', f₃, -, hright, hdone⟩ := Reply.andThen_eq_some h
  cases hdone
  obtain ⟨hkind, hrest⟩ := expect_eq_some hleft
  obtain ⟨d, htokens, htree⟩ := expr_sound hexpr
  obtain ⟨hkind', hrest'⟩ := expect_eq_some hright
  exact ⟨⟨t, hkind⟩, d, ⟨t', hkind'⟩, by rw [hrest, ← htokens, hrest'], htree⟩

/-- What parsing a statement from `f` may give. -/
def StatementSound (f : Feed) : Prop :=
  ∀ s g, (statement f).done? = some (s, g) →
    ∃ d : Sentence, f.tokens = d.tokens ++ g.tokens ∧ d.tree = s

/-- What parsing statements up to a brace from `f` may give. -/
def StatementsSound (f : Feed) : Prop :=
  ∀ b g, (statements f).done? = some (b, g) →
    ∃ (d : Derivation) (finish : Terminal .closeCurly),
      f.tokens = Derivation.tokens d ++ finish.val :: g.tokens ∧ Derivation.tree d = b

theorem block_sound_of {f g : Feed} {b : Block} (more : ∀ g : Feed, g.size < f.size → StatementsSound g)
    (h : (block f).done? = some (b, g)) :
    ∃ (start : Terminal .openCurly) (d : Derivation) (finish : Terminal .closeCurly),
      f.tokens = start.val :: (Derivation.tokens d ++ finish.val :: g.tokens) ∧
        Derivation.tree d = b := by
  rw [block] at h
  obtain ⟨t, f₁, lt₁, hstart, h⟩ := Reply.andThen_eq_some h
  obtain ⟨b', f₂, -, hbody, hdone⟩ := Reply.andThen_eq_some h
  cases hdone
  obtain ⟨hkind, hrest⟩ := expect_eq_some hstart
  obtain ⟨d, finish, htokens, htree⟩ := more f₁ lt₁ b g hbody
  exact ⟨⟨t, hkind⟩, d, finish, by rw [hrest, htokens], htree⟩

theorem statementSound_step {f : Feed} (more : ∀ g : Feed, g.size < f.size → StatementsSound g) :
    StatementSound f := by
  intro s g h
  rw [statement] at h
  split at h
  · rename_i hkind
    have hcons := Feed.tokens_eq_cons (f := f) (by simp [hkind])
    obtain ⟨t, f₁, -, hname, h⟩ := Reply.andThen_eq_some h
    obtain ⟨t', f₂, -, hsign, h⟩ := Reply.andThen_eq_some h
    obtain ⟨e, f₃, -, hvalue, hdone⟩ := Reply.andThen_eq_some h
    cases hdone
    obtain ⟨hnamed, hrest⟩ := expect_eq_some hname
    obtain ⟨hsigned, hrest'⟩ := expect_eq_some hsign
    obtain ⟨d, stop, htokens, rfl⟩ := terminated_sound hvalue
    exact ⟨.declare ⟨f.head, hkind⟩ ⟨t, hnamed⟩ ⟨t', hsigned⟩ d stop,
      by simp [Sentence.tokens, hcons, hrest, hrest', htokens], rfl⟩
  · rename_i hkind
    have hcons := Feed.tokens_eq_cons (f := f) (by simp [hkind])
    have hlt := Feed.size_advance_lt (f := f) (by simp [hkind])
    obtain ⟨e, f₁, lt₁, htest, h⟩ := Reply.andThen_eq_some h
    obtain ⟨yes, f₂, lt₂, hyes, h⟩ := Reply.andThen_eq_some h
    obtain ⟨left, d, right, htokens, rfl⟩ := condition_sound htest
    obtain ⟨start, dy, finish, hbody, rfl⟩ := block_sound_of (fun g hg => more g (by omega)) hyes
    split at h
    · rename_i helse
      have hcons₂ := Feed.tokens_eq_cons (f := f₂) (by simp [helse])
      have hlt₂ := Feed.size_advance_lt (f := f₂) (by simp [helse])
      obtain ⟨no, f₃, -, hno, hdone⟩ := Reply.andThen_eq_some h
      cases hdone
      obtain ⟨start', dn, finish', hbody', rfl⟩ :=
        block_sound_of (fun g hg => more g (by omega)) hno
      exact ⟨.branchElse ⟨f.head, hkind⟩ left d right start dy finish ⟨f₂.head, helse⟩ start' dn
        finish', by simp [Sentence.tokens, hcons, htokens, hbody, hcons₂, hbody'], rfl⟩
    · cases h
      exact ⟨.branch ⟨f.head, hkind⟩ left d right start dy finish,
        by simp [Sentence.tokens, hcons, htokens, hbody], rfl⟩
  · rename_i hkind
    have hcons := Feed.tokens_eq_cons (f := f) (by simp [hkind])
    have hlt := Feed.size_advance_lt (f := f) (by simp [hkind])
    obtain ⟨e, f₁, lt₁, htest, h⟩ := Reply.andThen_eq_some h
    obtain ⟨body, f₂, -, hbody, hdone⟩ := Reply.andThen_eq_some h
    cases hdone
    obtain ⟨left, d, right, htokens, rfl⟩ := condition_sound htest
    obtain ⟨start, db, finish, hrest, rfl⟩ := block_sound_of (fun g hg => more g (by omega)) hbody
    exact ⟨.loop ⟨f.head, hkind⟩ left d right start db finish,
      by simp [Sentence.tokens, hcons, htokens, hrest], rfl⟩
  · rename_i hkind
    have hcons := Feed.tokens_eq_cons (f := f) (by simp [hkind])
    obtain ⟨e, f₁, -, hvalue, h⟩ := Reply.andThen_eq_some h
    obtain ⟨t, f₂, -, hstop, hdone⟩ := Reply.andThen_eq_some h
    cases hdone
    obtain ⟨left, d, right, htokens, rfl⟩ := condition_sound hvalue
    obtain ⟨hstopped, hrest⟩ := expect_eq_some hstop
    exact ⟨.print ⟨f.head, hkind⟩ left d right ⟨t, hstopped⟩,
      by simp [Sentence.tokens, hcons, htokens, hrest], rfl⟩
  · rename_i hkind
    have hcons := Feed.tokens_eq_cons (f := f) (by simp [hkind])
    obtain ⟨e, f₁, -, hvalue, hdone⟩ := Reply.andThen_eq_some h
    cases hdone
    obtain ⟨d, stop, htokens, rfl⟩ := terminated_sound hvalue
    exact ⟨.result ⟨f.head, hkind⟩ d stop, by simp [Sentence.tokens, hcons, htokens], rfl⟩
  · rename_i hkind
    have hcons := Feed.tokens_eq_cons (f := f) (by simp [hkind])
    dsimp only at h
    split at h
    · rename_i hsign
      have hcons' := Feed.tokens_eq_cons (f := f.advance) (by simp [hsign])
      obtain ⟨e, f₁, -, hvalue, hdone⟩ := Reply.andThen_eq_some h
      cases hdone
      obtain ⟨d, stop, htokens, rfl⟩ := terminated_sound hvalue
      exact ⟨.assign ⟨f.head, hkind⟩ ⟨f.advance.head, hsign⟩ d stop,
        by simp [Sentence.tokens, hcons, hcons', htokens], rfl⟩
    · obtain ⟨e, f₁, -, hvalue, h⟩ := Reply.andThen_eq_some h
      obtain ⟨t, f₂, -, hstop, hdone⟩ := Reply.andThen_eq_some h
      cases hdone
      -- The name is the first operand of the expression.
      obtain ⟨d, htokens, rfl, -⟩ := (expression_sound f.advance).2 .or .unary
        (.name ⟨f.head, hkind⟩) e f₁ (by decide) (fun op _ => op.power_le) hvalue
      obtain ⟨hstopped, hrest⟩ := expect_eq_some hstop
      refine ⟨.eval d ⟨t, hstopped⟩, ?_, rfl⟩
      rw [hcons, Sentence.tokens, List.append_assoc]
      exact htokens.symm.trans (by rw [hrest]; rfl)
  · obtain ⟨e, f₁, -, hvalue, hdone⟩ := Reply.andThen_eq_some h
    cases hdone
    obtain ⟨d, stop, htokens, rfl⟩ := terminated_sound hvalue
    exact ⟨.eval d stop, by simp [Sentence.tokens, htokens], rfl⟩

theorem statementsSound_step {f : Feed} (first : StatementSound f)
    (more : ∀ g : Feed, g.size < f.size → StatementsSound g) : StatementsSound f := by
  intro b g h
  rw [statements] at h
  split at h
  · rename_i hkind
    cases h
    exact ⟨[], ⟨f.head, hkind⟩, Feed.tokens_eq_cons (by simp [hkind]), rfl⟩
  · split at h
    · cases h
    · obtain ⟨s, f₁, lt₁, hs, h⟩ := Reply.andThen_eq_some h
      obtain ⟨b', f₂, -, hb, hdone⟩ := Reply.andThen_eq_some h
      cases hdone
      obtain ⟨d, htokens, rfl⟩ := first s f₁ hs
      obtain ⟨ds, finish, hrest, rfl⟩ := more f₁ lt₁ b' g hb
      exact ⟨d :: ds, finish, by simp [Derivation.tokens, htokens, hrest], rfl⟩

theorem statement_sound (f : Feed) : StatementSound f ∧ StatementsSound f := by
  generalize hn : f.size = n
  induction n using Nat.strongRecOn generalizing f with
  | ind n ih =>
    subst hn
    have more (g : Feed) (lt : g.size < f.size) := (ih g.size lt g rfl).2
    have first := statementSound_step more
    exact ⟨first, statementsSound_step first more⟩

/-! ## What is derived is parsed -/

theorem terminated_complete {d : Phrase .or} {stop : Terminal .semicolon} {f : Feed}
    {ts : List Token} (eq : f.tokens = d.tokens ++ stop.val :: ts) :
    ∃ g, g.tokens = ts ∧ (terminated f).done? = some (d.tree, g) := by
  obtain ⟨f₁, hf₁, hexpr⟩ := expr_complete eq (stop.ends ts rfl)
  obtain ⟨g, hstop, hg⟩ := expect_of_tokens .semicolon stop.property hf₁
  refine ⟨g, hg, ?_⟩
  unfold terminated
  exact Reply.andThen_of_done hexpr fun _ => Reply.andThen_of_done hstop fun _ => rfl

theorem condition_complete {left : Terminal .openParen} {d : Phrase .or}
    {right : Terminal .closeParen} {f : Feed} {ts : List Token}
    (eq : f.tokens = left.val :: (d.tokens ++ right.val :: ts)) :
    ∃ g, g.tokens = ts ∧ (condition f).done? = some (d.tree, g) := by
  obtain ⟨f₁, hleft, hf₁⟩ := expect_of_tokens .openTest left.property eq
  obtain ⟨f₂, hf₂, hexpr⟩ := expr_complete hf₁ (right.ends ts rfl)
  obtain ⟨g, hright, hg⟩ := expect_of_tokens .closeTest right.property hf₂
  refine ⟨g, hg, ?_⟩
  unfold condition
  exact Reply.andThen_of_done hleft fun _ => Reply.andThen_of_done hexpr fun _ =>
    Reply.andThen_of_done hright fun _ => rfl

theorem block_of_statements {start : Terminal .openCurly} {f f₁ g : Feed} {b : Block}
    (hstart : (expect .openBlock f).done? = some (start.val, f₁))
    (body : (statements f₁).done? = some (b, g)) : (block f).done? = some (b, g) := by
  rw [block]
  exact Reply.andThen_of_done hstart fun _ => Reply.andThen_of_done body fun _ => rfl

theorem statement_declare {f f₁ f₂ g : Feed} {t t' : Token} {e : Expr} (h : f.head.kind = .let)
    (name : (expect .name f.advance).done? = some (t, f₁))
    (sign : (expect .assign f₁).done? = some (t', f₂)) (value : (terminated f₂).done? = some (e, g)) :
    (statement f).done? = some (.declare t.text e, g) := by
  rw [statement]
  split
  case h_1 =>
    exact Reply.andThen_of_done name fun _ => Reply.andThen_of_done sign fun _ =>
      Reply.andThen_of_done value fun _ => rfl
  all_goals simp_all

theorem statement_branch {f f₁ g : Feed} {e : Expr} {yes : Block} (h : f.head.kind = .if)
    (test : (condition f.advance).done? = some (e, f₁)) (body : (block f₁).done? = some (yes, g))
    (last : g.head.kind ≠ .else) : (statement f).done? = some (.branch e yes none, g) := by
  rw [statement]
  split
  case h_2 =>
    refine Reply.andThen_of_done test fun _ => Reply.andThen_of_done body fun _ => ?_
    rw [dif_neg last]
    rfl
  all_goals simp_all

theorem statement_branchElse {f f₁ f₂ g : Feed} {e : Expr} {yes no : Block}
    (h : f.head.kind = .if) (test : (condition f.advance).done? = some (e, f₁))
    (body : (block f₁).done? = some (yes, f₂)) (other : f₂.head.kind = .else)
    (body' : (block f₂.advance).done? = some (no, g)) :
    (statement f).done? = some (.branch e yes (some no), g) := by
  rw [statement]
  split
  case h_2 =>
    refine Reply.andThen_of_done test fun _ => Reply.andThen_of_done body fun _ => ?_
    rw [dif_pos other]
    exact Reply.andThen_of_done body' fun _ => rfl
  all_goals simp_all

theorem statement_loop {f f₁ g : Feed} {e : Expr} {b : Block} (h : f.head.kind = .while)
    (test : (condition f.advance).done? = some (e, f₁)) (body : (block f₁).done? = some (b, g)) :
    (statement f).done? = some (.loop e b, g) := by
  rw [statement]
  split
  case h_3 => exact Reply.andThen_of_done test fun _ => Reply.andThen_of_done body fun _ => rfl
  all_goals simp_all

theorem statement_print {f f₁ g : Feed} {t : Token} {e : Expr} (h : f.head.kind = .print)
    (value : (condition f.advance).done? = some (e, f₁))
    (stop : (expect .semicolon f₁).done? = some (t, g)) :
    (statement f).done? = some (.print e, g) := by
  rw [statement]
  split
  case h_4 => exact Reply.andThen_of_done value fun _ => Reply.andThen_of_done stop fun _ => rfl
  all_goals simp_all

theorem statement_result {f g : Feed} {e : Expr} (h : f.head.kind = .return)
    (value : (terminated f.advance).done? = some (e, g)) :
    (statement f).done? = some (.result e, g) := by
  rw [statement]
  split
  case h_5 => exact Reply.andThen_of_done value fun _ => rfl
  all_goals simp_all

theorem statement_assign {f g : Feed} {e : Expr} (h : f.head.kind = .identifier)
    (sign : f.advance.head.kind = .assign)
    (value : (terminated f.advance.advance).done? = some (e, g)) :
    (statement f).done? = some (.assign f.head.text e, g) := by
  rw [statement]
  split
  case h_6 =>
    dsimp only
    rw [dif_pos sign]
    exact Reply.andThen_of_done value fun _ => rfl
  all_goals simp_all

/-- A statement that is only an expression, whatever the expression starts with. -/
theorem statement_eval {f f₁ g : Feed} {t : Token} {e : Expr} (h : isLeader f.head.kind = true)
    (value : (expr f).done? = some (e, f₁)) (stop : (expect .semicolon f₁).done? = some (t, g)) :
    (statement f).done? = some (.eval e, g) := by
  rw [statement]
  split
  case h_6 hkind =>
    rw [expr] at value
    obtain ⟨left, f', -, hname, hmore⟩ := Reply.andThen_eq_some value
    rw [unary_name hkind] at hname
    cases hname
    have unsigned : f.advance.head.kind ≠ .assign := by
      -- Behind the name no operator would follow, and no semicolon either.
      intro hsign
      have ends : Ends .or f.advance.tokens := ends_iff.2 (by simp [hsign, Op.ofKind?])
      have hdone := binary_of_ends (.variable f.head.text) ends
      cases hmore.symm.trans hdone
      obtain ⟨hkind', hrest⟩ := expect_eq_some stop
      rw [(Feed.head_of_tokens hrest).1] at hsign
      cases hkind'.symm.trans hsign
    dsimp only
    rw [dif_neg unsigned]
    exact Reply.andThen_of_done hmore fun _ => Reply.andThen_of_done stop fun _ => rfl
  case h_7 =>
    refine Reply.andThen_of_done ?_ fun _ => rfl
    unfold terminated
    exact Reply.andThen_of_done value fun _ => Reply.andThen_of_done stop fun _ => rfl
  all_goals simp_all [isLeader]

theorem statements_nil {f : Feed} (h : f.head.kind = .closeCurly) :
    (statements f).done? = some ([], f.advance) := by
  rw [statements, dif_pos h]
  rfl

theorem statements_cons {f f₁ g : Feed} {s : Stmt} {b : Block} (unclosed : f.head.kind ≠ .closeCurly)
    (more : f.head.kind ≠ .eof) (first : (statement f).done? = some (s, f₁))
    (others : (statements f₁).done? = some (b, g)) : (statements f).done? = some (s :: b, g) := by
  rw [statements, dif_neg unclosed, if_neg more]
  exact Reply.andThen_of_done first fun _ => Reply.andThen_of_done others fun _ => rfl

theorem noElse_head {f : Feed} (h : NoElse f.tokens) : f.head.kind ≠ .else := by
  unfold NoElse at h
  unfold Feed.head
  cases hts : f.tokens with
  | nil => nofun
  | cons t ts => exact h t (by simp [hts])

mutual

/-- A derived statement is parsed, if no `else` follows. -/
theorem statement_complete : (d : Sentence) → {f : Feed} → {ts : List Token} →
    f.tokens = d.tokens ++ ts → NoElse ts →
    ∃ g, g.tokens = ts ∧ (statement f).done? = some (d.tree, g)
  | .declare keyword name sign value stop, f, ts, eq, h => by
    simp only [Sentence.tokens, List.cons_append, List.append_assoc, List.nil_append] at eq
    obtain ⟨hhead, hrest⟩ := Feed.head_of_tokens eq
    obtain ⟨f₁, hname, hf₁⟩ := expect_of_tokens .name name.property hrest
    obtain ⟨f₂, hsign, hf₂⟩ := expect_of_tokens .assign sign.property hf₁
    obtain ⟨g, hg, hvalue⟩ := terminated_complete hf₂
    exact ⟨g, hg, statement_declare (by rw [hhead, keyword.property]) hname hsign hvalue⟩
  | .assign name sign value stop, f, ts, eq, h => by
    simp only [Sentence.tokens, List.cons_append, List.append_assoc, List.nil_append] at eq
    obtain ⟨hhead, hrest⟩ := Feed.head_of_tokens eq
    obtain ⟨hhead', hrest'⟩ := Feed.head_of_tokens hrest
    obtain ⟨g, hg, hvalue⟩ := terminated_complete hrest'
    have hdone := statement_assign (by rw [hhead, name.property]) (by rw [hhead', sign.property])
      hvalue
    rw [hhead] at hdone
    exact ⟨g, hg, hdone⟩
  | .branch keyword left test right start yes finish, f, ts, eq, h => by
    simp only [Sentence.tokens, List.cons_append, List.append_assoc, List.nil_append] at eq
    obtain ⟨hhead, hrest⟩ := Feed.head_of_tokens eq
    obtain ⟨f₁, hf₁, htest⟩ := condition_complete hrest
    obtain ⟨f₂, hstart, hf₂⟩ := expect_of_tokens .openBlock start.property hf₁
    obtain ⟨g, rfl, hyes⟩ := statements_complete yes hf₂
    exact ⟨g, rfl, statement_branch (by rw [hhead, keyword.property]) htest
      (block_of_statements hstart hyes) (noElse_head h)⟩
  | .branchElse keyword left test right start yes finish other start' no finish', f, ts, eq, h => by
    simp only [Sentence.tokens, List.cons_append, List.append_assoc, List.nil_append] at eq
    obtain ⟨hhead, hrest⟩ := Feed.head_of_tokens eq
    obtain ⟨f₁, hf₁, htest⟩ := condition_complete hrest
    obtain ⟨f₂, hstart, hf₂⟩ := expect_of_tokens .openBlock start.property hf₁
    obtain ⟨f₃, hf₃, hyes⟩ := statements_complete yes hf₂
    obtain ⟨hother, hrest'⟩ := Feed.head_of_tokens hf₃
    obtain ⟨f₄, hstart', hf₄⟩ := expect_of_tokens .openBlock start'.property hrest'
    obtain ⟨g, hg, hno⟩ := statements_complete no hf₄
    exact ⟨g, hg, statement_branchElse (by rw [hhead, keyword.property]) htest
      (block_of_statements hstart hyes) (by rw [hother, other.property])
      (block_of_statements hstart' hno)⟩
  | .loop keyword left test right start body finish, f, ts, eq, h => by
    simp only [Sentence.tokens, List.cons_append, List.append_assoc, List.nil_append] at eq
    obtain ⟨hhead, hrest⟩ := Feed.head_of_tokens eq
    obtain ⟨f₁, hf₁, htest⟩ := condition_complete hrest
    obtain ⟨f₂, hstart, hf₂⟩ := expect_of_tokens .openBlock start.property hf₁
    obtain ⟨g, hg, hbody⟩ := statements_complete body hf₂
    exact ⟨g, hg, statement_loop (by rw [hhead, keyword.property]) htest
      (block_of_statements hstart hbody)⟩
  | .print keyword left value right stop, f, ts, eq, h => by
    simp only [Sentence.tokens, List.cons_append, List.append_assoc, List.nil_append] at eq
    obtain ⟨hhead, hrest⟩ := Feed.head_of_tokens eq
    obtain ⟨f₁, hf₁, hvalue⟩ := condition_complete hrest
    obtain ⟨g, hstop, hg⟩ := expect_of_tokens .semicolon stop.property hf₁
    exact ⟨g, hg, statement_print (by rw [hhead, keyword.property]) hvalue hstop⟩
  | .result keyword value stop, f, ts, eq, h => by
    simp only [Sentence.tokens, List.cons_append, List.append_assoc, List.nil_append] at eq
    obtain ⟨hhead, hrest⟩ := Feed.head_of_tokens eq
    obtain ⟨g, hg, hvalue⟩ := terminated_complete hrest
    exact ⟨g, hg, statement_result (by rw [hhead, keyword.property]) hvalue⟩
  | .eval value stop, f, ts, eq, h => by
    simp only [Sentence.tokens, List.append_assoc, List.cons_append, List.nil_append] at eq
    obtain ⟨f₁, hf₁, hvalue⟩ := expr_complete eq (stop.ends ts rfl)
    obtain ⟨g, hstop, hg⟩ := expect_of_tokens .semicolon stop.property hf₁
    obtain ⟨t, rest, htokens, hkind⟩ := value.tokens_eq_cons
    rw [htokens] at eq
    have hleader : isLeader f.head.kind = true := by
      rw [(Feed.head_of_tokens eq).1, hkind, value.isLeader_leader]
    exact ⟨g, hg, statement_eval hleader hvalue hstop⟩

/-- Derived statements before a brace are parsed up to it. -/
theorem statements_complete : (d : List Sentence) → {finish : Terminal .closeCurly} → {f : Feed} →
    {ts : List Token} → f.tokens = Derivation.tokens d ++ finish.val :: ts →
    ∃ g, g.tokens = ts ∧ (statements f).done? = some (Derivation.tree d, g)
  | [], finish, f, ts, eq => by
    obtain ⟨hhead, hrest⟩ := Feed.head_of_tokens eq
    exact ⟨f.advance, hrest, statements_nil (by rw [hhead, finish.property])⟩
  | s :: rest, finish, f, ts, eq => by
    rw [Derivation.tokens, List.append_assoc] at eq
    obtain ⟨f₁, hf₁, hfirst⟩ :=
      statement_complete s eq (Derivation.noElse rest (finish.closes ts))
    obtain ⟨g, hg, hothers⟩ := statements_complete rest hf₁
    obtain ⟨t, more, htokens, hkind⟩ := s.tokens_eq_cons
    rw [htokens] at eq
    have hhead := (Feed.head_of_tokens eq).1
    exact ⟨g, hg, statements_cons (by rw [hhead, hkind]; exact s.leader_ne.1)
      (by rw [hhead, hkind]; exact s.leader_ne.2.2) hfirst hothers⟩

end

end Parse

namespace Parsed

open Grammar

theorem ofFeed_done {report : List SyntaxError} {f rest : Feed} {s : Stmt} (nonempty : f.size ≠ 0)
    (h : (Parse.statement f).done? = some (s, rest)) :
    ofFeed report f = ⟨s :: (ofFeed report rest).statements, (ofFeed report rest).errors⟩ := by
  rw [ofFeed, dif_neg nonempty]
  split
  · rename_i s' rest' lt hs
    rw [hs] at h
    cases h
    rfl
  · rename_i e rest' le hs
    rw [hs] at h
    cases h

/-- Tokens that parse without an error are derived. -/
theorem ofFeed_sound (f : Feed) (h : (ofFeed [] f).errors = []) :
    ∃ d : Derivation, Derivation.tokens d = f.tokens := by
  generalize hn : f.size = n
  induction n using Nat.strongRecOn generalizing f with
  | ind n ih =>
    subst hn
    by_cases hempty : f.size = 0
    · exact ⟨[], (List.length_eq_zero_iff.1 hempty).symm⟩
    · cases hs : Parse.statement f with
      | done s rest lt =>
        have hdone : (Parse.statement f).done? = some (s, rest) := by rw [hs]; rfl
        rw [ofFeed_done hempty hdone] at h
        obtain ⟨d, htokens⟩ := ih rest.size lt rest h rfl
        obtain ⟨first, hfirst, -⟩ := (Parse.statement_sound f).1 s rest hdone
        exact ⟨first :: d, by rw [Derivation.tokens, hfirst, htokens]⟩
      | failed e rest le =>
        rw [ofFeed, dif_neg hempty, hs] at h
        dsimp only at h
        split at h <;> simp at h

/-- Derived tokens parse without an error, to the tree of the derivation. -/
theorem ofFeed_complete (d : Derivation) {f : Feed} (eq : f.tokens = Derivation.tokens d) :
    ofFeed [] f = ⟨Derivation.tree d, []⟩ := by
  induction d generalizing f with
  | nil =>
    have hempty : f.size = 0 := List.length_eq_zero_iff.2 eq
    rw [ofFeed, dif_pos hempty]
    rfl
  | cons s rest ih =>
    have noElse : NoElse (Derivation.tokens rest) := by
      have := Derivation.noElse rest Closes.nil
      rwa [List.append_nil] at this
    obtain ⟨g, hg, hfirst⟩ := Parse.statement_complete s eq noElse
    have nonempty : f.size ≠ 0 := by
      have := Reply.size_lt hfirst
      omega
    rw [ofFeed_done nonempty hfirst, ih hg]
    rfl

theorem ofTokens_append_end {ts : List Token} {finish : Token}
    (ordinary : ∀ t ∈ ts, t.isOrdinary = true ∧ t.isComment = false) (last : finish.kind = .eof) :
    ofTokens (ts ++ [finish]) = ofFeed [] { tokens := ts, finish := finish.loc } := by
  have stops : finish.isOrdinary = false := by simp [Token.isOrdinary, last]
  have proper : (ts.filter fun t => !t.isComment) = ts :=
    List.filter_eq_self.2 fun t ht => by simp [(ordinary t ht).2]
  have before : ∀ t ∈ ts, t.isOrdinary = true := fun t ht => (ordinary t ht).1
  rw [ofTokens_eq_ofFeed, Feed.ofStream, Reader.pending_append before stops,
    Reader.ending_append before stops, proper]
  simp [last]

/-- **The parser accepts exactly its grammar.** Tokens up to the end, none of them a comment or an
error, parse without an error exactly if the grammar derives them; then the statements are the tree
of the derivation, and there is only one. -/
theorem accepts_iff_derived {ts : List Token} (finish : Token)
    (ordinary : ∀ t ∈ ts, t.isOrdinary = true ∧ t.isComment = false) (last : finish.kind = .eof) :
    ((ofTokens (ts ++ [finish])).errors = [] ↔ ∃ d : Derivation, Derivation.tokens d = ts) ∧
    ∀ d : Derivation, Derivation.tokens d = ts →
      (ofTokens (ts ++ [finish])).statements = Derivation.tree d ∧
      ∀ d' : Derivation, Derivation.tokens d' = ts → d' = d := by
  rw [ofTokens_append_end ordinary last]
  refine ⟨⟨fun h => ofFeed_sound _ h, ?_⟩, ?_⟩
  · rintro ⟨d, htokens⟩
    rw [ofFeed_complete d htokens.symm]
  · intro d htokens
    refine ⟨by rw [ofFeed_complete d htokens.symm], ?_⟩
    intro d' htokens'
    have eq : Derivation.tokens d' ++ [] = Derivation.tokens d ++ [] := by rw [htokens', htokens]
    exact (Derivation.unique d' d eq .nil .nil).1

/-- The tokens of `let x = -y;`. -/
def negation : List Token := [⟨.let, "let", none⟩, ⟨.identifier, "x", none⟩, ⟨.assign, "=", none⟩,
  ⟨.minus, "-", none⟩, ⟨.identifier, "y", none⟩, ⟨.semicolon, ";", none⟩]

theorem accepts_iff_derived_negation :
    (∀ t ∈ negation, t.isOrdinary = true ∧ t.isComment = false) ∧
    (ofTokens (negation ++ [⟨.eof, "", none⟩])).errors = [] ∧
    (ofTokens (negation ++ [⟨.eof, "", none⟩])).statements =
      [.declare "x" (.binary .sub (.number 0) (.variable "y"))] := by
  have ordinary : ∀ t ∈ negation, t.isOrdinary = true ∧ t.isComment = false := by decide
  let operand : Phrase .unary :=
    .minus ⟨⟨.minus, "-", none⟩, rfl⟩ (.name ⟨⟨.identifier, "y", none⟩, rfl⟩)
  obtain ⟨value, htokens, htree⟩ := operand.exists_loosened .or (by decide)
  let d : Derivation := [.declare ⟨⟨.let, "let", none⟩, rfl⟩ ⟨⟨.identifier, "x", none⟩, rfl⟩
    ⟨⟨.assign, "=", none⟩, rfl⟩ value ⟨⟨.semicolon, ";", none⟩, rfl⟩]
  have derived : Derivation.tokens d = negation := by
    simp [d, negation, operand, Derivation.tokens, Sentence.tokens, htokens, Phrase.tokens]
  obtain ⟨accepts, reads⟩ := accepts_iff_derived ⟨.eof, "", none⟩ ordinary rfl
  refine ⟨ordinary, accepts.2 ⟨d, derived⟩, ?_⟩
  rw [(reads d derived).1]
  simp [d, operand, Derivation.tree, Sentence.tree, htree, Phrase.tree]

end Parsed

end LetWhile
