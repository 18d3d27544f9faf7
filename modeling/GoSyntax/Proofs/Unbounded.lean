import GoSyntax.Proofs.Acceptance

/-!
# The grammar without a bound

A parser is run at a depth that the number of tokens bounds, and its loops make at most one pass more than there are tokens. Neither
bound is ever met: what stands below the depth is not reached, so the grammar has exactly one solution without a depth, and a pass of
a loop that asks for another one has taken a token, so each loop runs until a pass ends it.
-/

namespace GoSyntax

open Parse

/-! ## Productions at a cursor -/

namespace Productions

/-- Two sets of productions do the same at a cursor. -/
structure SameAt (c : Cursor) (p q : Productions) : Prop where
  type? : p.type? c = q.type? c
  expr : ∀ level, p.expr level c = q.expr level c
  unary : ∀ level, p.unary level c = q.unary level c
  elementValue : ∀ level, p.elementValue level c = q.elementValue level c
  stmt : p.stmt c = q.stmt c

theorem SameAt.refl (c : Cursor) (p : Productions) : SameAt c p p :=
  ⟨rfl, fun _ => rfl, fun _ => rfl, fun _ => rfl, rfl⟩

theorem SameAt.symm {c : Cursor} {p q : Productions} (h : SameAt c p q) : SameAt c q p :=
  ⟨h.type?.symm, fun level => (h.expr level).symm, fun level => (h.unary level).symm, fun level => (h.elementValue level).symm,
    h.stmt.symm⟩

theorem SameAt.trans {c : Cursor} {p q r : Productions} (h : SameAt c p q) (h' : SameAt c q r) : SameAt c p r :=
  ⟨h.type?.trans h'.type?, fun level => (h.expr level).trans (h'.expr level), fun level => (h.unary level).trans (h'.unary level),
    fun level => (h.elementValue level).trans (h'.elementValue level), h.stmt.trans h'.stmt⟩

theorem eq_of_sameAt {p q : Productions} (h : ∀ c, SameAt c p q) : p = q :=
  Productions.ext (funext fun c => (h c).type?) (funext fun level => funext fun c => (h c).expr level)
    (funext fun level => funext fun c => (h c).unary level) (funext fun level => funext fun c => (h c).elementValue level)
    (funext fun c => (h c).stmt)

end Productions

open Productions

variable {n : Nat} {p p' q q' : Productions} {c : Cursor}

theorem Agrees.sameAt (h : Agrees n p q) (hc : c.kinds.length < n) : SameAt c p q where
  type? := (h.type? n le_rfl c 1 c (.refl hc trivial)).1
  expr level := (h.expr level n le_rfl c 1 c (.refl hc trivial)).1
  unary level := (h.unary level n le_rfl c 1 c (.refl hc trivial)).1
  elementValue level := (h.elementValue level n le_rfl c 1 c (.refl hc trivial)).1
  stmt := (h.stmt n le_rfl c 1 c (.refl hc trivial)).1

/-- What has been shown of parsers holds of parsers that do the same where they start. -/
theorem Same.congr {α : Type} {P : Cursor → Prop} {f g f' g' : Parse α} {Q : α → Cursor → Prop} (h : Same P f g Q)
    (hf : ∀ c, P c → f c = f' c) (hg : ∀ c, P c → g c = g' c) : Same P f' g' Q := fun c hc => by
  rw [← hf c hc, ← hg c hc]
  exact h c hc

theorem Agrees.congr (h : Agrees n p q) (hp : ∀ c, c.kinds.length < n → SameAt c p p')
    (hq : ∀ c, c.kinds.length < n → SameAt c q q') : Agrees n p' q' where
  type? m hm start t := (h.type? m hm start t).congr (fun c hc => (hp c (hc.room.trans_le hm)).type?)
    fun c hc => (hq c (hc.room.trans_le hm)).type?
  noType m hm start t := (h.noType m hm start t).congr (fun c hc => (hp c (hc.room.trans_le hm)).type?)
    fun c hc => (hq c (hc.room.trans_le hm)).type?
  expr level m hm start t := (h.expr level m hm start t).congr (fun c hc => (hp c (hc.room.trans_le hm)).expr level)
    fun c hc => (hq c (hc.room.trans_le hm)).expr level
  unary level m hm start t := (h.unary level m hm start t).congr (fun c hc => (hp c (hc.room.trans_le hm)).unary level)
    fun c hc => (hq c (hc.room.trans_le hm)).unary level
  elementValue level m hm start t := (h.elementValue level m hm start t).congr
    (fun c hc => (hp c (hc.room.trans_le hm)).elementValue level) fun c hc => (hq c (hc.room.trans_le hm)).elementValue level
  stmt m hm start t := (h.stmt m hm start t).congr (fun c hc => (hp c (hc.room.trans_le hm)).stmt)
    fun c hc => (hq c (hc.room.trans_le hm)).stmt
  keywordStmt k hk m hm start t := (h.keywordStmt k hk m hm start t).congr
    (fun c hc => (hp c (hc.room.trans_le (Nat.succ_le_of_lt (hm.trans_lt hk)))).stmt)
    fun c hc => (hq c (hc.room.trans_le (Nat.succ_le_of_lt (hm.trans_lt hk)))).stmt

namespace Productions

/-! ## The productions without a depth -/

/-- A depth above the number of tokens left is not noticed: what stands below it is never entered. -/
theorem sameAt_deepenBy (p q : Productions) {d : Nat} {c : Cursor} (hc : c.kinds.length < d) :
    SameAt c (p.deepenBy d) (q.deepenBy d) := (Agrees.deepenBy p q d).sameAt hc

theorem deepenBy_add (p : Productions) (d e : Nat) : p.deepenBy (d + e) = (p.deepenBy e).deepenBy d := by
  induction d with
  | zero => rw [Nat.zero_add]; rfl
  | succ d ih => rw [Nat.succ_add]; exact congrArg deepen ih

/-- The productions of the grammar: at each cursor those of a depth above the number of its tokens. -/
def full : Productions where
  type? c := (ofDepth (c.kinds.length + 1)).type? c
  expr level c := (ofDepth (c.kinds.length + 1)).expr level c
  unary level c := (ofDepth (c.kinds.length + 1)).unary level c
  elementValue level c := (ofDepth (c.kinds.length + 1)).elementValue level c
  stmt c := (ofDepth (c.kinds.length + 1)).stmt c

theorem sameAt_full (p : Productions) {d : Nat} {c : Cursor} (hc : c.kinds.length < d) : SameAt c (p.deepenBy d) full := by
  obtain ⟨e, rfl⟩ := Nat.exists_eq_add_of_le (Nat.succ_le_of_lt hc)
  rw [deepenBy_add]
  have h := sameAt_deepenBy (p.deepenBy e) .exhausted (Nat.lt_succ_self c.kinds.length)
  exact ⟨h.type?, h.expr, h.unary, h.elementValue, h.stmt⟩

theorem agrees_deepenBy_full (p : Productions) (n : Nat) : Agrees n (p.deepenBy n) full :=
  (Agrees.deepenBy p p n).congr (fun c _ => .refl c _) fun _ => sameAt_full p

theorem agrees_full (n : Nat) : Agrees n full full :=
  (agrees_deepenBy_full .exhausted n).congr (fun _ => sameAt_full _) fun c _ => .refl c _

/-- The grammar is a solution of its own equations. -/
theorem deepen_full : full.deepen = full := eq_of_sameAt fun c => by
  have hdeep : Agrees (c.kinds.length + 1) (exhausted.deepenBy (c.kinds.length + 1)) full.deepen :=
    (agrees_deepenBy_full .exhausted c.kinds.length).deepen
  exact (hdeep.sameAt (Nat.lt_succ_self _)).symm.trans (sameAt_full .exhausted (Nat.lt_succ_self _))

theorem deepenBy_of_deepen {p : Productions} (h : p.deepen = p) (d : Nat) : p.deepenBy d = p := by
  induction d with
  | zero => rfl
  | succ d ih => exact (congrArg deepen ih).trans h

/-- It is the only one. -/
theorem deepen_eq_self_iff (p : Productions) : p.deepen = p ↔ p = full := by
  refine ⟨fun h => eq_of_sameAt fun c => ?_, fun h => h ▸ deepen_full⟩
  have hfull := sameAt_full p (Nat.lt_succ_self c.kinds.length)
  rwa [deepenBy_of_deepen h] at hfull

end Productions

/-- A parser that is run at the depth of its source is the parser without a depth. -/
theorem Grammar.run_eq {α : Type} {parser : Productions → Parse α} {Q : Cursor → Nat → α → Cursor → Prop}
    (h : ∀ n p q, Agrees n p q → ∀ start, Same (Reached start n 1 ⊤) (parser p) (parser q) (Q start n)) (c : Cursor) :
    run parser c = parser .full c := by
  have hlen : c.kinds.length = c.feed.items.length := by simp [Cursor.kinds, Cursor.tokens]
  exact (h _ _ _ (agrees_deepenBy_full .exhausted (c.feed.items.length + 1)) c c (.refl (Nat.lt_succ_of_le hlen.le) trivial)).1

/-! ## Loops -/

namespace Parse

variable {α β : Type}

/-- A pass that asks for another one has taken a token. -/
def Advances (pass : α → Parse (ForInStep α)) : Prop :=
  ∀ a c a', (pass a c).1 = .yield a' → (pass a c).2.kinds.length < c.kinds.length

/-- A pass that asks for another one has taken a token, so that the loop goes on until a pass ends it. -/
structure Ends (pass : α → Parse (ForInStep α)) : Prop where
  advances : Advances pass
  unrolls : ∀ a, loop a pass = do
    match ← pass a with
    | .yield a => loop a pass
    | .done a => return a

theorem passes_yield {pass : α → Parse (ForInStep α)} {a a' : α} {c : Cursor} (h : (pass a c).1 = .yield a') (n : Noted Token)
    (ns : List (Noted Token)) : passes pass (n :: ns) a c = passes pass ns a' (pass a c).2 := by
  change (match (pass a c).1 with
    | .yield a' => passes pass ns a'
    | .done a' => Pure.pure a' : Parse α) (pass a c).2 = _
  rw [h]

theorem passes_done {pass : α → Parse (ForInStep α)} {a a' : α} {c : Cursor} (h : (pass a c).1 = .done a')
    (ns : List (Noted Token)) : passes pass ns a c = (a', (pass a c).2) := by
  cases ns with
  | nil =>
    change ((pass a c).1.value, (pass a c).2) = _
    rw [h]
    rfl
  | cons n ns =>
    change (match (pass a c).1 with
      | .yield a' => passes pass ns a'
      | .done a' => Pure.pure a' : Parse α) (pass a c).2 = _
    rw [h]
    rfl

/-- As many passes as tokens are left are enough. -/
theorem passes_eq_of_advances {pass : α → Parse (ForInStep α)} (h : Advances pass) (ns ns' : List (Noted Token)) (a : α) (c : Cursor)
    (hc : c.kinds.length ≤ ns.length) (hc' : c.kinds.length ≤ ns'.length) : passes pass ns a c = passes pass ns' a c := by
  induction ns generalizing ns' a c with
  | nil =>
    cases hr : (pass a c).1 with
    | done a' => rw [passes_done hr, passes_done hr]
    | yield a' => exact absurd ((h a c a' hr).trans_le hc) (Nat.not_lt_zero _)
  | cons n ns ih =>
    cases hr : (pass a c).1 with
    | done a' => rw [passes_done hr, passes_done hr]
    | yield a' =>
      have hlt := h a c a' hr
      cases ns' with
      | nil => exact absurd (hlt.trans_le hc') (Nat.not_lt_zero _)
      | cons n' ns' =>
        rw [passes_yield hr, passes_yield hr]
        exact ih ns' a' _ (Nat.le_of_lt_succ (hlt.trans_le hc)) (Nat.le_of_lt_succ (hlt.trans_le hc'))

theorem Advances.ends {pass : α → Parse (ForInStep α)} (h : Advances pass) : Ends pass := by
  refine ⟨h, fun a => funext fun c => ?_⟩
  have hlen : ∀ c : Cursor, c.kinds.length = c.feed.items.length := fun c => by simp [Cursor.kinds, Cursor.tokens]
  change passes pass c.feed.items a c = (match (pass a c).1 with
    | .yield a' => loop a' pass
    | .done a' => Pure.pure a' : Parse α) (pass a c).2
  cases hr : (pass a c).1 with
  | done a' => exact passes_done hr _
  | yield a' =>
    have hlt := h a c a' hr
    rw [hlen c] at hlt
    cases hitems : c.feed.items with
    | nil =>
      rw [hitems] at hlt
      exact absurd hlt (Nat.not_lt_zero _)
    | cons n ns =>
      rw [hitems] at hlt
      rw [passes_yield hr]
      exact passes_eq_of_advances h _ _ _ _ (Nat.le_of_lt_succ hlt) (hlen _).le

/-- A pass whose invariant holds with a token less if the loop goes on has taken a token. -/
theorem ends_of_same {pass : α → Parse (ForInStep α)} {goesOn ended : Cursor → α → Cursor → Prop}
    (h : ∀ c a, Same (Reached c (c.kinds.length + 1) ⊤ ⊤) (pass a) (pass a) (Continues (goesOn c) (ended c)))
    (hroom : ∀ c a c', goesOn c a c' → c'.kinds.length < c.kinds.length) : Ends pass := by
  refine Advances.ends fun a c a' hyield => ?_
  obtain ⟨_, hQ⟩ := h c a c ((Reached.refl (Nat.lt_succ_self _) trivial).mono le_rfl le_top id)
  rw [hyield] at hQ
  exact hroom c a' _ hQ

end Parse

open Parse

variable {α : Type}

theorem Passes.ends {pass : α → Parse (ForInStep α)} (h : ∀ n, Passes n (fun _ => ⊤) (fun _ => ⊤) pass pass) : Ends pass :=
  ends_of_same (fun c a => h _ _ (Nat.lt_succ_self c.kinds.length) c a) fun _ _ _ hc => hc.room

theorem PassesTo.ends {pass : α → Parse (ForInStep α)} {U : α → Tally} {χ : Token → Prop}
    (h : ∀ n, PassesTo n (fun _ => ⊤) U χ pass pass) : Ends pass :=
  ends_of_same (fun c a => (h _).step _ (Nat.lt_succ_self c.kinds.length) c a) fun _ _ _ hc => hc.elim Reached.room Reached.room

theorem skipPass_passes (n : Nat) (stop : TokenSet) : Passes n (fun _ => ⊤) (fun _ => ⊤) (skipPass stop) (skipPass stop) := by
  intro m _ start _
  refine (skipPass_same stop).conseq (fun _ hc => hc) fun r _ hr => ?_
  cases r with
  | yield _ => exact Reached.done hr le_top
  | done _ => exact Reached.done hr le_top

namespace Productions

open Grammar

/-- Every pass of every loop over the productions either takes a token before the next one or is the last. -/
structure LoopsEnd (p : Productions) : Prop where
  skips : ∀ stop, Ends (skipPass stop)
  names : Ends (separatedPass name)
  types : Ends (separatedPass (type p))
  exprs : ∀ level, Ends (separatedPass (Grammar.expr p level))
  operands : ∀ level (families : List Operator.Family) family, Ends (binaryPass family (families.foldr binaryLevel (Grammar.unary p level)))
  suffixes : ∀ level, Ends (suffix p level)
  arguments : ∀ level, Ends (memberPass Punctuation.rParen (argument p level))
  elements : ∀ level, Ends (memberPass Punctuation.rBrace (element p level))
  entries : ∀ variadic, Ends (entryPass p variadic)
  parameters : ∀ variadic, Ends (groupPass p variadic)
  fields : Ends (itemPass startsField (field p) .expectedField)
  methods : Ends (itemPass TokenKind.isIdent (interfaceElem p) .expectedMethodSpec)
  statements : Ends (statementPass p)
  cases : ∀ ofTypes, Ends (clausePass (caseClause p ofTypes))
  comms : Ends (clausePass (commClause p))
  specs : ∀ keyword, Ends (specPass p keyword)
  declarations : Ends (declPass p)

theorem loopsEnd_full : full.LoopsEnd where
  skips stop := Passes.ends fun n => skipPass_passes n stop
  names := Passes.ends fun n => separatedPass_passes (name_reads n) fun _ _ => le_top
  types := Passes.ends fun n => separatedPass_passes (type_reads (agrees_full n)) fun _ _ => le_top
  exprs level := Passes.ends fun n => separatedPass_passes ((expr_reads (agrees_full n) level).mono (Nat.le_succ n)) fun _ _ => le_top
  operands level families family := Passes.ends fun n =>
    binaryPass_passes ((foldr_binaryLevel_reads (unary_reads (agrees_full n) level) families).mono (Nat.le_succ n)) grows_top family
  suffixes level := Passes.ends fun n m hm => suffix_passes (agrees_full n) grows_top level m (Nat.lt_succ_of_lt hm)
  arguments level := Passes.ends fun n =>
    memberPass_passes (argument_reads (agrees_full n) level) (fun _ _ => le_top) (fun _ _ => le_top) fun _ => le_top
  elements level := Passes.ends fun n =>
    memberPass_passes (element_reads (agrees_full n) level) (fun _ _ => le_top) (fun _ _ => le_top) fun _ => le_top
  entries variadic := ends_of_same (fun c xs => entryPass_same (agrees_full _) variadic (T := fun _ => ⊤) (U := fun _ => ⊤)
    (fun _ _ => le_top) (fun _ _ => le_top) (Nat.lt_succ_self c.kinds.length) xs) fun _ _ _ hc => hc.room
  parameters variadic := Passes.ends fun n => groupPass_passes (agrees_full n) variadic (fun _ _ => le_top) fun _ => le_top
  fields := PassesTo.ends fun n =>
    itemPass_passesTo (field_takes (agrees_full n)) (fun _ => rfl) (fun _ _ => le_top) (fun _ _ => le_top) fun _ => le_top
  methods := PassesTo.ends fun n =>
    itemPass_passesTo (interfaceElem_takes (agrees_full n)) (fun _ => rfl) (fun _ _ => le_top) (fun _ _ => le_top) fun _ => le_top
  statements := PassesTo.ends fun n =>
    statementPass_passesTo (agrees_full n) (fun _ _ => le_top) (fun _ _ => le_top) fun _ => le_top
  cases ofTypes := Passes.ends fun n => clausePass_passes (caseClause_takes (agrees_full n) ofTypes) fun _ _ => le_top
  comms := Passes.ends fun n => clausePass_passes (commClause_takes (agrees_full n)) fun _ _ => le_top
  specs keyword := PassesTo.ends fun n => specPass_passesTo (agrees_full n) keyword (T := fun _ => ⊤) (U := fun _ => ⊤)
    (fun _ _ => le_top) (fun _ _ => le_top) fun _ => le_top
  declarations := ends_of_same (fun c ds => declPass_same (agrees_full _) (T := fun _ => ⊤) (fun _ _ => le_top)
    (Nat.lt_succ_self c.kinds.length) ds) fun _ _ _ hc => hc.room

end Productions

/-! ## Parsing ends -/

/-- Parsing needs no bound. Productions are entered again only behind a token, so a depth above the number of tokens is not noticed
and the grammar has exactly one solution without a depth; every loop over it runs until a pass ends it, and each pass but the last
takes a token. What is parsed is what this solution gives, and a file is read up to the end of the input. -/
theorem parsing_unbounded :
    (∀ (p q : Productions) (d : Nat) (c : Cursor), c.kinds.length < d → SameAt c (p.deepenBy d) (q.deepenBy d))
      ∧ (∀ p : Productions, p.deepen = p ↔ p = full) ∧ full.LoopsEnd
      ∧ ∀ path bytes, parseFile path bytes = .ofParse (Grammar.sourceFile full) path bytes
        ∧ parseExpr path bytes = .ofParse (Grammar.exprFragment full) path bytes
        ∧ parseStmt path bytes = .ofParse (Grammar.stmtFragment full) path bytes
        ∧ (Grammar.sourceFile full (.start path bytes)).2.here.kind = .eof
        ∧ (Grammar.sourceFile full (.start path bytes)).2.kinds = [] := by
  refine ⟨fun p q _ _ => sameAt_deepenBy p q, deepen_eq_self_iff, loopsEnd_full, fun path bytes => ?_⟩
  have hfile : Grammar.run Grammar.sourceFile = Grammar.sourceFile full :=
    funext (Grammar.run_eq fun _ _ _ h _ => Grammar.sourceFile_same h le_rfl)
  have hexpr : Grammar.run Grammar.exprFragment = Grammar.exprFragment full :=
    funext (Grammar.run_eq fun n _ _ h start => Grammar.exprFragment_reads h n le_rfl start 1)
  have hstmt : Grammar.run Grammar.stmtFragment = Grammar.stmtFragment full :=
    funext (Grammar.run_eq fun n _ _ h start => Grammar.stmtFragment_reads h n le_rfl start 1)
  have hend := (Grammar.sourceFile_reached (.start path bytes)).face
  rw [hfile] at hend
  refine ⟨?_, ?_, ?_, hend, Cursor.kinds_eq_nil hend⟩
  · rw [parseFile, Parsed.ofBytes, hfile]
  · rw [parseExpr, Parsed.ofBytes, hexpr]
  · rw [parseStmt, Parsed.ofBytes, hstmt]

/-- `package p;` has three tokens, so what stands below a depth of four is never entered. -/
theorem parsing_unbounded_package :
    (Cursor.start ⟨0, "p.go"⟩ [112, 97, 99, 107, 97, 103, 101, 32, 112, 59]).kinds.length < 4
      ∧ SameAt (.start ⟨0, "p.go"⟩ [112, 97, 99, 107, 97, 103, 101, 32, 112, 59]) (exhausted.deepenBy 4) (full.deepenBy 4) :=
  have h : (Cursor.start ⟨0, "p.go"⟩ [112, 97, 99, 107, 97, 103, 101, 32, 112, 59]).kinds.length < 4 := by decide +kernel
  ⟨h, parsing_unbounded.1 exhausted full 4 _ h⟩

end GoSyntax
