import GoSyntax.Proofs.Context.Endings
import GoSyntax.Proofs.Same
import GoSyntax.Proofs.Unbounded

/-!
# How statements end

The last token of most statements is one at which a line break ends a statement, as it is for expressions. What the parser gives is known
well enough to tell: an assignment has values, a specification has a name, and behind an `else` there is a block or another `if`. Only an
empty statement, a `goto` without a label and a label in front of one of these end otherwise.
-/

namespace GoSyntax

open Parse Layout

namespace Layout

variable {φ : TokenKind → Prop}

theorem endsIn_maybe {l : Option Layout} (h : ∀ l' ∈ l, l'.EndsIn φ) :
    ∀ w ∈ (maybe l).words, w = [] ∨ ∃ kind, w.getLast? = some kind ∧ φ kind := by
  cases l with
  | none =>
    rintro _ rfl
    exact .inl rfl
  | some l => exact fun w hw => .inr (h l rfl w hw)

theorem endsIn_joined {ls : List Layout} (hne : ls ≠ []) (h : ∀ l ∈ ls, l.EndsIn φ) : (joined ls).EndsIn φ := by
  induction ls with
  | nil => exact absurd rfl hne
  | cons l ls ih =>
    cases ls with
    | nil => exact endsIn_append_or (h l List.mem_cons_self) fun _ hw => .inl hw
    | cons l' ls => exact endsIn_append _ (ih (List.cons_ne_nil l' ls) fun m hm => h m (List.mem_cons_of_mem l hm))

end Layout

theorem Expr.endsIn_joined {es : List Expr} (hne : es ≠ []) : (joined (layoutsOfExprs es)).EndsIn TokenKind.Arms := by
  rw [layoutsOfExprs_eq]
  refine Layout.endsIn_joined (by simpa using hne) fun l hl => ?_
  obtain ⟨e, -, rfl⟩ := List.mem_map.1 hl
  exact e.endsIn_layout

theorem Name.endsIn_joined {ns : List Name} (hne : ns ≠ []) : (ofNames ns).EndsIn TokenKind.Arms := by
  refine Layout.endsIn_joined (by simpa using hne) fun l hl => ?_
  obtain ⟨n, -, rfl⟩ := List.mem_map.1 hl
  exact endsIn_token rfl

/-- At the end of the statement a line break ends a statement. -/
def Stmt.Closes (s : Stmt) : Prop := s.layout.EndsIn TokenKind.Arms

namespace Stmt

variable (loc : Location)

theorem closes_bad : (bad loc).Closes := endsIn_impossible

theorem closes_assign (op : Operator) (left : List Expr) {right : List Expr} (hne : right ≠ []) : (assign loc op left right).Closes :=
  endsIn_append _ (Expr.endsIn_joined hne)

theorem closes_return (values : List Expr) : (Stmt.return loc values).Closes := by
  refine endsIn_append_or (endsIn_token rfl) fun w hw => ?_
  cases values with
  | nil => exact .inl hw
  | cons e es => exact .inr (Expr.endsIn_joined (List.cons_ne_nil e es) w hw)

theorem closes_branch {keyword : Keyword} (h : keyword.endsStatement = true) (label : Option Name) : (branch loc keyword label).Closes := by
  refine endsIn_append_or (endsIn_token h) (endsIn_maybe fun l hl => ?_)
  obtain ⟨n, -, rfl⟩ := Option.map_eq_some_iff.1 hl
  exact endsIn_token rfl

theorem closes_if (init : Option Stmt) (cond : Expr) (body : Block) {otherwise : Option Stmt} (h : ∀ s ∈ otherwise, s.Closes) :
    (Stmt.if loc init cond body otherwise).Closes := by
  cases otherwise with
  | none => exact endsIn_append _ body.endsIn_layout
  | some s => exact endsIn_append _ (h s rfl)

end Stmt

namespace Grammar

open Gives

variable (p : Productions)

/-! ## Declarations -/

theorem importSpec_gives : Gives (·.layout.EndsIn TokenKind.Arms) importSpec :=
  .step fun _ => .step fun path => .pure <| endsIn_append _ <| by
    unfold ofPath
    split
    · exact endsIn_impossible
    · exact endsIn_token rfl

theorem valueSpec_gives (keyword : Keyword) (isFirst : Bool) (loc : Location) :
    Gives (·.layout.EndsIn TokenKind.Arms) (valueSpec p keyword isFirst loc) := by
  have hnames : Gives (· ≠ []) names := .step fun (first, others) => .pure (List.cons_ne_nil first others)
  refine .bind hnames fun ns hns => .step fun t => .step fun es => .pure ?_
  refine endsIn_append_or (endsIn_append_or (Name.endsIn_joined hns) (endsIn_maybe fun l hl => ?_)) fun w hw => ?_
  · cases t with
    | none => nomatch hl
    | some t =>
      obtain rfl := Option.some.inj hl
      exact t.endsIn_layout
  · cases es with
    | nil => exact .inl hw
    | cons e es => exact .inr (endsIn_append _ (Expr.endsIn_joined (List.cons_ne_nil e es)) w hw)

theorem spec_gives (keyword : Keyword) (isFirst : Bool) : Gives (·.layout.EndsIn TokenKind.Arms) (spec p keyword isFirst) := by
  refine .step fun here => ?_
  split
  · exact .bind importSpec_gives fun _ h => .pure h
  · exact .step fun _ => .step fun t => .pure (endsIn_append _ t.endsIn_layout)
  · exact valueSpec_gives p _ _ _

theorem declGroup_gives (keyword : Keyword) : Gives (·.layout.EndsIn TokenKind.Arms) (declGroup p keyword) :=
  .step fun _ => .step fun _ => .ite (.step fun _ => .pure (endsIn_append _ (endsIn_inParens _ rfl)))
    (.bind (spec_gives p keyword true) fun _ h => .pure (endsIn_append _ h))

/-! ## Control statements -/

theorem selectStmt_gives : Gives Stmt.Closes (selectStmt p) := .step fun _ => .step fun _ => .pure (endsIn_append _ (endsIn_inBraces _ rfl))

theorem switchStmt_gives : Gives Stmt.Closes (switchStmt p) := by
  refine .step fun _ => .step fun (init, tag) => ?_
  cases tag with
  | none => exact .step fun _ => .pure (endsIn_append _ (endsIn_inBraces _ rfl))
  | some s =>
    exact .ite (.step fun _ => .pure (endsIn_append _ (endsIn_inBraces _ rfl)))
      (.step fun _ => .step fun _ => .pure (endsIn_append _ (endsIn_inBraces _ rfl)))

theorem forStmt_gives : Gives Stmt.Closes (forStmt p) := by
  refine .step fun _ => .step fun head => .step fun body => ?_
  match head with
  | .range _ _ _ | .clauses _ none _ => exact .pure (endsIn_append _ body.endsIn_layout)
  | .clauses _ (some _) _ => exact .step fun _ => .pure (endsIn_append _ body.endsIn_layout)

theorem block_gives : Gives Stmt.Closes (Stmt.block <$> block p) := fun _ => endsIn_inBraces _ rfl

/-- At an `if` the statements of the productions end where a line break ends a statement. -/
def ClosesIf : Prop := ∀ c : Cursor, c.here.kind = .keyword .if → (p.stmt c).1.Closes

variable {p}

theorem otherwise_gives (h : ClosesIf p) : Gives Stmt.Closes (otherwise p) := fun c => by
  change (((if c.here.kind.sameKind Keyword.if then p.stmt else _ : Parse Stmt) (Parse.current c).2).1).Closes
  split
  · next hif => exact h _ ((congrArg Token.kind (Cursor.here_peek 0 c)).trans ((TokenKind.Bare.sameKind_iff _).1 hif))
  · refine Gives.step (f := Parse.isAt _) (fun _ => .ite (block_gives p) ?_) _
    exact .step fun here => .step fun _ => .pure (Stmt.closes_bad _)

theorem ifStmt_gives (h : ClosesIf p) : Gives Stmt.Closes (ifStmt p) :=
  .step fun _ => .step fun (_, _) => .step fun _ => .step fun _ => .ite
    (.bind (otherwise_gives h) fun _ hs => .pure (Stmt.closes_if _ _ _ _ (by simpa using hs))) (.pure (Stmt.closes_if _ _ _ _ (by simp)))

/-! ## Simple statements -/

section Simple

variable (p : Productions) (level : Int) (first : Expr) (others : List Expr) (loc : Location)

/-- A statement that closes, or no statement. -/
def Simple.Closes (r : Simple) : Prop := ∀ s, r = .stmt s → s.Closes

theorem send_gives : Gives Stmt.Closes (send p level first others loc) :=
  .step fun _ => .step fun _ => .step fun value => .pure (endsIn_append _ value.endsIn_layout)

theorem incDec_gives {op : Operator} (hop : op.family = .incDec) : Gives Stmt.Closes (incDec op first others loc) :=
  .step fun _ => .step fun _ => .pure (endsIn_append _ (endsIn_token (beq_iff_eq.2 hop)))

theorem assignment_gives (op : Operator) (targets : List Expr) : Gives Stmt.Closes (assignment p level op targets loc) :=
  .step fun (value, values) => .step fun _ => .pure (Stmt.closes_assign _ _ _ (List.cons_ne_nil value values))

theorem assignmentOrRange_gives (position : SimplePosition) (op : Operator) (targets : List Expr) :
    Gives Simple.Closes (assignmentOrRange p position level op targets loc) :=
  .step fun _ => .step fun _ => .ite (.step fun _ => .step fun _ => .pure nofun)
    ((assignment_gives p level loc op targets).map fun _ h _ hs => Simple.stmt.inj hs ▸ h)

theorem alone_gives : Gives Stmt.Closes (alone first others loc) :=
  .ite (.pure first.endsIn_layout) (.step fun _ => .pure first.endsIn_layout)

/-- A single name in front of a colon is a label. -/
def IsLabel (c : Cursor) : Prop := (∃ loc name, first = .ident loc name) ∧ others = [] ∧ c.here.kind = .punctuation .colon

variable (c : Cursor)

theorem bare_closes : IsLabel first others c ∨ (bare p .block first others loc c).1.Closes := by
  have halone : (alone first others loc c).1.Closes := alone_gives first others loc c
  obtain ⟨labelLoc, label, rfl, rfl, heq⟩ | heq := bare_cases .block first others loc
  · rw [heq]
    change _ ∨ ((if c.here.kind.sameKind Punctuation.colon = true then labeled p ⟨labelLoc, label⟩ loc
      else alone (.ident labelLoc label) [] loc : Parse Stmt) (Parse.current c).2).1.Closes
    split
    · next hcolon => exact .inl ⟨⟨labelLoc, label, rfl⟩, rfl, (TokenKind.Bare.sameKind_iff _).1 hcolon⟩
    · exact .inr halone
  · rw [heq]
    exact .inr halone

theorem simpleBy_gives (op : Operator) : simpleBy p .block level op first others loc = Simple.stmt <$> bare p .block first others loc
    ∨ Gives Simple.Closes (simpleBy p .block level op first others loc) := by
  rw [simpleBy]
  cases hop : op.family with
  | incDec => exact .inr ((incDec_gives first others loc hop).map fun _ h _ hs => Simple.stmt.inj hs ▸ h)
  | assignment => exact .inr (assignmentOrRange_gives p level loc .block op _)
  | _ => exact .inl rfl

/-- What is made of the first expressions of a statement of a block, told by what comes next. -/
def simpleOf (kind : TokenKind) : Parse Simple :=
  match kind with
  | .operator .arrow => .stmt <$> send p level first others loc
  | .operator op => simpleBy p .block level op first others loc
  | _ => .stmt <$> bare p .block first others loc

theorem simpleOf_gives (kind : TokenKind) : simpleOf p level first others loc kind = Simple.stmt <$> bare p .block first others loc
    ∨ Gives Simple.Closes (simpleOf p level first others loc kind) := by
  unfold simpleOf
  split
  · exact .inr ((send_gives p level first others loc).map fun _ h _ hs => Simple.stmt.inj hs ▸ h)
  · exact simpleBy_gives p level first others loc _
  · exact .inl rfl

theorem simpleFrom_closes : IsLabel first others c ∨ (simpleFrom p .block level first others loc c).1.Closes := by
  change _ ∨ (simpleOf p level first others loc c.here.kind (Parse.current c).2).1.Closes
  rcases simpleOf_gives p level first others loc c.here.kind with hbare | hcloses
  · rw [hbare]
    refine (bare_closes p first others loc (Parse.current c).2).imp (fun ⟨hfirst, hothers, hcolon⟩ => ⟨hfirst, hothers, ?_⟩) fun h _ hs =>
      Simple.stmt.inj hs ▸ h
    rw [← hcolon]
    exact congrArg Token.kind (Cursor.here_peek 0 c).symm
  · exact .inr (hcloses _)

/-- Where a statement has been read up to and with its first expressions. -/
def afterFirst : (Expr × List Expr) × Cursor := exprList p 0 (Parse.current c).2

theorem simple_eq (position : SimplePosition) : simple p position level
    = Parse.current >>= fun here => exprList p level >>= fun r => simpleFrom p position level r.1 r.2 here.loc := rfl

/-- The statement; a range clause is none. -/
def Simple.orBad (loc : Location) : Simple → Stmt
  | .stmt s => s
  | .range _ _ _ => .bad loc

theorem simpleStmt_eq (position : SimplePosition) : simpleStmt p position level
    = Parse.current >>= fun here => simple p position level >>= fun r => Pure.pure (r.orBad here.loc) :=
  congrArg (Parse.current >>= ·) <| funext fun here => congrArg (simple p position level >>= ·) <| funext fun r => by cases r <;> rfl

theorem simpleStmt_block : simpleStmt p .block 0 c = ((simpleFrom p .block 0 (afterFirst p c).1.1 (afterFirst p c).1.2 c.here.loc
    (afterFirst p c).2).1.orBad c.here.loc, (simpleFrom p .block 0 (afterFirst p c).1.1 (afterFirst p c).1.2 c.here.loc
    (afterFirst p c).2).2) := by
  have hhere : (Parse.current c).1 = c.here := rfl
  rw [simpleStmt_eq, bind_apply, bind_apply, simple_eq, bind_apply, Cursor.current_current, bind_apply, hhere, afterFirst]
  dsimp only
  rfl

/-- A label and the statement behind it. -/
theorem simpleStmt_label (h : IsLabel (afterFirst p c).1.1 (afterFirst p c).1.2 (afterFirst p c).2) : ∃ loc name,
    (afterFirst p c).1 = (.ident loc name, [])
      ∧ simpleStmt p .block 0 c = labeled p ⟨loc, name⟩ c.here.loc (Parse.current (afterFirst p c).2).2 := by
  obtain ⟨⟨labelLoc, label, hfirst⟩, hothers, hcolon⟩ := h
  refine ⟨labelLoc, label, Prod.ext hfirst hothers, ?_⟩
  rw [simpleStmt_block, hfirst, hothers]
  generalize (afterFirst p c).2 = d at hcolon
  have hhere : (Parse.current d).2.here.kind = .punctuation .colon := (congrArg Token.kind (Cursor.here_peek 0 d)).trans hcolon
  have hfrom : simpleFrom p .block 0 (.ident labelLoc label) [] c.here.loc d
      = (Simple.stmt <$> labeled p ⟨labelLoc, label⟩ c.here.loc : Parse Simple) (Parse.current d).2 := by
    change simpleOf p 0 (.ident labelLoc label) [] c.here.loc d.here.kind (Parse.current d).2 = _
    rw [hcolon]
    change (Simple.stmt <$> (if (Parse.current d).2.here.kind.sameKind Punctuation.colon then labeled p ⟨labelLoc, label⟩ c.here.loc
      else alone (.ident labelLoc label) [] c.here.loc : Parse Stmt) : Parse Simple) (Parse.current (Parse.current d).2).2 = _
    rw [hhere, Cursor.current_current]
    rfl
  rw [hfrom]
  rfl

theorem simpleStmt_closes :
    IsLabel (afterFirst p c).1.1 (afterFirst p c).1.2 (afterFirst p c).2 ∨ (simpleStmt p .block 0 c).1.Closes := by
  refine (simpleFrom_closes p 0 (afterFirst p c).1.1 (afterFirst p c).1.2 c.here.loc (afterFirst p c).2).imp_right fun h => ?_
  rw [simpleStmt_block]
  generalize (simpleFrom p .block 0 (afterFirst p c).1.1 (afterFirst p c).1.2 c.here.loc (afterFirst p c).2).1 = r at h ⊢
  cases r with
  | stmt s => exact h s rfl
  | range _ _ _ => exact Stmt.closes_bad _

end Simple

/-! ## All statements -/

theorem badStmt_gives : Gives Stmt.Closes badStmt := .step fun _ => .step fun _ => .step fun _ => .pure (Stmt.closes_bad _)

/-- What starts with a keyword closes unless it is a `goto` or a simple statement. -/
theorem keywordStmt_closes (h : ClosesIf p) (keyword : Keyword) :
    keyword = .goto ∨ keywordStmt p keyword = simpleStmt p .block 0 ∨ Gives Stmt.Closes (keywordStmt p keyword) := by
  have hdeclaration : ∀ k, Gives Stmt.Closes (do return Stmt.declaration (← Parse.current).loc (← declGroup p k)) := fun k =>
    .step fun _ => .bind (declGroup_gives p k) fun _ hd => .pure hd
  have hreturn : Gives Stmt.Closes (returnStmt p) :=
    .step fun _ => .step fun _ => .ite (.pure (Stmt.closes_return _ _)) (.step fun _ => .pure (Stmt.closes_return _ _))
  have hbranch : ∀ k : Keyword, k.endsStatement = true → Gives Stmt.Closes (branchStmt k) := fun k hk =>
    .step fun _ => .step fun _ => .ite (.step fun _ => .pure (Stmt.closes_branch _ hk _)) (.pure (Stmt.closes_branch _ hk _))
  cases keyword with
  | goto => exact .inl rfl
  | func | struct | map | chan | interface => exact .inr (.inl rfl)
  | const | type | var => exact .inr (.inr (hdeclaration _))
  | go | defer => exact .inr (.inr (.step fun _ => .step fun call => .pure (endsIn_append _ call.endsIn_layout)))
  | «return» => exact .inr (.inr hreturn)
  | «break» | «continue» => exact .inr (.inr (hbranch _ rfl))
  | «fallthrough» => exact .inr (.inr (.step fun _ => .pure (Stmt.closes_branch _ rfl _)))
  | «if» => exact .inr (.inr (ifStmt_gives h))
  | switch => exact .inr (.inr (switchStmt_gives p))
  | select => exact .inr (.inr (selectStmt_gives p))
  | «for» => exact .inr (.inr (forStmt_gives p))
  | _ => exact .inr (.inr badStmt_gives)

/-- What starts with a token, from in front of it on. -/
def stmtFrom (p : Productions) (here : Token) : Parse Stmt :=
  match here.kind with
  | .keyword keyword => keywordStmt p keyword
  | .punctuation .lBrace => .block <$> block p
  | .punctuation .semicolon | .punctuation .rBrace => return .empty here.loc
  | kind => if startsSimple kind then simpleStmt p .block 0 else badStmt

/-- The kind of the first token says how a statement is read. -/
theorem stmtFrom_closes (h : ClosesIf p) (kind : TokenKind) :
    kind = .keyword .goto ∨ (∀ loc, stmtFrom p ⟨kind, loc⟩ = Pure.pure (.empty loc))
    ∨ (∀ loc, stmtFrom p ⟨kind, loc⟩ = simpleStmt p .block 0) ∨ ∀ loc, Gives Stmt.Closes (stmtFrom p ⟨kind, loc⟩) := by
  have hother : (∀ loc, stmtFrom p ⟨kind, loc⟩ = if startsSimple kind then simpleStmt p .block 0 else badStmt) →
      (∀ loc, stmtFrom p ⟨kind, loc⟩ = simpleStmt p .block 0) ∨ ∀ loc, Gives Stmt.Closes (stmtFrom p ⟨kind, loc⟩) := fun heq => by
    by_cases hstart : startsSimple kind = true
    · exact .inl fun loc => (heq loc).trans (if_pos hstart)
    · exact .inr fun loc => by
        rw [heq, if_neg hstart]
        exact badStmt_gives
  cases kind with
  | keyword keyword =>
    rcases keywordStmt_closes h keyword with rfl | hsimple | hcloses
    · exact .inl rfl
    · exact .inr (.inr (.inl fun _ => hsimple))
    · exact .inr (.inr (.inr fun _ => hcloses))
  | punctuation mark =>
    cases mark with
    | lBrace => exact .inr (.inr (.inr fun _ => block_gives p))
    | semicolon | rBrace => exact .inr (.inl fun _ => rfl)
    | _ => exact .inr (.inr (hother fun _ => rfl))
  | _ => exact .inr (.inr (hother fun _ => rfl))

theorem closesIf_deepen (h : ClosesIf p) : ClosesIf p.deepen := fun c hc => by
  change (stmtFrom p c.here (Parse.current c).2).1.Closes
  have hif : stmtFrom p c.here = ifStmt p := by
    rw [stmtFrom, hc]
    rfl
  rw [hif]
  exact ifStmt_gives h _

theorem closesIf_full : ClosesIf .full := fun c hc => by
  have hdepth : ∀ d, ClosesIf (.ofDepth d) := fun d => by
    induction d with
    | zero => exact fun c _ => Stmt.closes_bad _
    | succ d ih => exact closesIf_deepen ih
  exact hdepth (c.kinds.length + 1) c hc

end Grammar

end GoSyntax
