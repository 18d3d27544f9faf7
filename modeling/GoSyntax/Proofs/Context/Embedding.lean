import GoSyntax.Proofs.Canonical.Control
import GoSyntax.Proofs.Context.Files
import GoSyntax.Proofs.Context.Fragments
import GoSyntax.Proofs.Lexical.Inline

/-!
# Fragments in a file

A statement that is parsed on its own without a diagnostic is parsed as the body of a function, and an expression as the value of a
variable: nothing is reported there either, and the tree is the same but for its lines.
-/

namespace GoSyntax

open Parse Grammar Productions

/-! ## Tokens elsewhere -/

namespace Undecoded

variable {path : SourcePath} {a : List UInt8}

/-- Where nothing is refused, no other character than the first is read first. -/
theorem ne_mark_of_pending (ha : (Feed.tokens path a).pending = []) (hmark : ¬Utf8.encode [byteOrderMark] <+: a) :
    (Utf8.next a).2.map Prod.fst ≠ some byteOrderMark := by
  have hrune : (ofBytes path a).nextRune.1 = 0 := Feed.nextRune_of_pending ((pending_tokens (ofBytes path a)).1 ha).1
  rcases nextRune_cases (ofBytes path a) with ⟨-, hne⟩ | ⟨n, rest, -, hnext, hskipped⟩
  · exact hne rfl
  · rw [hskipped] at hrune
    rw [(Nat.add_eq_zero_iff.1 hrune).1] at hnext
    refine absurd ⟨rest, ?_⟩ hmark
    rw [Utf8.encode, List.flatMap_singleton]
    exact (Utf8.eq_encode_of_next hnext).symm

/-- The tokens of a source are the same further down in another one, and there is nothing more to report of them. -/
theorem tokens_elsewhere (u : Undecoded) (path : SourcePath) (n : Nat) :
    (tokens ⟨path, u.bytes, u.line + n, u.atStart⟩).items.map (fun t => t.value.kind) = u.tokens.items.map (fun t => t.value.kind)
      ∧ (u.tokens.pending = [] → (tokens ⟨path, u.bytes, u.line + n, u.atStart⟩).pending = []) := by
  have hmove : tokens ⟨path, u.bytes, u.line + n, u.atStart⟩ = u.tokens.move fun l => ⟨path, l.line + n⟩ := tokens_move u fun _ => rfl
  rw [hmove]
  refine ⟨?_, fun h => ?_⟩
  · rw [Feed.move, Feed.relabel, List.map_map]
    rfl
  · rw [Feed.move, Feed.pending_relabel, h]
    rfl

/-- What stands around a fragment scans without a finding, and a brace and a line break make two tokens behind it. -/
theorem tokens_around : (∀ text ∈ ["\x7d\n", ""], (tokens ⟨⟨0, ""⟩, Utf8.encode text.toList, 0, false⟩).pending = [])
    ∧ (tokens ⟨⟨0, ""⟩, Utf8.encode "\x7d\n".toList, 0, false⟩).items.map (fun t => t.value.kind)
      = [.punctuation .rBrace, .punctuation .semicolon]
    ∧ (tokens ⟨⟨0, ""⟩, [], 0, false⟩).items.map (fun t => t.value.kind) = []
    ∧ (∀ text ∈ ["package p", "func f() \x7b"], (Feed.tokens ⟨0, ""⟩ (Utf8.encode text.toList)).pending = [])
    ∧ (Utf8.next (Utf8.encode "func f() \x7b".toList)).2.map Prod.fst ≠ some byteOrderMark := by decide +kernel

/-- A brace and a line break make two tokens wherever they stand. -/
theorem tokens_closing (path : SourcePath) (line : Nat) :
    (tokens ⟨path, Utf8.encode "\x7d\n".toList, line, false⟩).items.map (fun t => t.value.kind)
    = [.punctuation .rBrace, .punctuation .semicolon]
      ∧ (tokens ⟨path, Utf8.encode "\x7d\n".toList, line, false⟩).pending = [] := by
  obtain ⟨hsilent, hbrace, -⟩ := tokens_around
  obtain ⟨hkinds, hpending⟩ := tokens_elsewhere ⟨⟨0, ""⟩, Utf8.encode "\x7d\n".toList, 0, false⟩ path line
  rw [← Nat.zero_add line]
  exact ⟨hkinds.trans hbrace, hpending (hsilent _ List.mem_cons_self)⟩

theorem tokens_nil (path : SourcePath) (line : Nat) : (tokens ⟨path, [], line, false⟩).items.map (fun t => t.value.kind) = []
    ∧ (tokens ⟨path, [], line, false⟩).pending = [] := by
  obtain ⟨hsilent, -, hnil, -⟩ := tokens_around
  obtain ⟨hkinds, hpending⟩ := tokens_elsewhere ⟨⟨0, ""⟩, [], 0, false⟩ path line
  rw [← Nat.zero_add line]
  exact ⟨hkinds.trans hnil, hpending (hsilent "" (List.mem_cons_of_mem _ List.mem_cons_self))⟩

/-- There is nothing to report of two sources on different lines if there is nothing to report of each. -/
theorem pending_append {b : List UInt8} {n line : Nat} {path' : SourcePath} (hmark : (Utf8.next a).2.map Prod.fst ≠ some byteOrderMark)
    (ha : (Feed.tokens path' a).pending = []) (hline : 1 + n + a.count 10 + 1 = line) (hb : (tokens ⟨path, b, line, false⟩).pending = []) :
    (tokens ⟨path, a, 1 + n, false⟩).pending = [] ∧ (tokens ⟨path, a ++ 10 :: b, 1 + n, false⟩).pending = [] := by
  subst hline
  have hstart : tokens ⟨path, a, 1 + n, true⟩ = tokens ⟨path, a, 1 + n, false⟩ := tokens_atStart hmark
  have hpending : (tokens ⟨path, a, 1 + n, false⟩).pending = [] := by
    rw [← hstart]
    exact (tokens_elsewhere (ofBytes path' a) path n).2 ha
  obtain ⟨-, -, -, hall⟩ := exists_tokens_append_of_pending hpending hb
  exact ⟨hpending, hall⟩

end Undecoded

namespace Cursor

variable {path path' : SourcePath} {n line : Nat} {shift : Location → Location} {a b : List UInt8} {c c' : Cursor}

/-- A source goes ahead of a cursor that stands in front of its text, with a line break and more behind it. -/
theorem ahead_of_tokens (hshift : ∀ line, shift ⟨path', line⟩ = ⟨path, line + n⟩)
    (hmark : (Utf8.next a).2.map Prod.fst ≠ some byteOrderMark) (ha : (Feed.tokens path' a).pending = [])
    (hlast : ∀ kind, (start path' a).kinds.getLast? = some kind → kind.announces = false)
    (hline : 1 + n + a.count 10 + 1 = line) (hb : (Undecoded.tokens ⟨path, b, line, false⟩).pending = [])
    (hfeed : c'.feed = Undecoded.tokens ⟨path, a ++ 10 :: b, 1 + n, false⟩) (hlog : c'.log = #[]) :
    Ahead shift (Undecoded.tokens ⟨path, b, line, false⟩) [] (start path' a) c' := by
  obtain ⟨hpending, hall⟩ := Undecoded.pending_append hmark ha hline hb
  subst hline
  have hstart : Undecoded.tokens ⟨path, a, 1 + n, true⟩ = Undecoded.tokens ⟨path, a, 1 + n, false⟩ := Undecoded.tokens_atStart hmark
  have htokens : Undecoded.tokens ⟨path, a, 1 + n, true⟩ = (Feed.tokens path' a).move shift :=
    Undecoded.tokens_move (.ofBytes path' a) hshift
  obtain ⟨ns, heq, hvalues, -⟩ := Undecoded.exists_tokens_append_of_pending hpending hb
  refine ⟨rfl, ⟨ns, hfeed.trans heq, ?_⟩, ?_, hlast⟩
  · rw [hvalues, ← hstart, htokens, Feed.move, Feed.relabel, List.map_map]
    exact (List.map_map (f := Noted.value) (g := Token.move shift)).symm
  · rw [dues, hlog, hfeed, hall]
    rfl

/-! ## Steps where nothing is due -/

theorem eq_nil_of_dues (h : c.dues = []) : c.log = #[] ∧ c.feed.pending = [] := by
  obtain ⟨hlog, hpending⟩ := List.append_eq_nil_iff.1 h
  exact ⟨Array.toList_eq_nil_iff.1 hlog, hpending⟩

theorem at_of_dues (h : c.dues = []) {kinds : List TokenKind} (hkinds : c.kinds = kinds) : c.At kinds :=
  ⟨(eq_nil_of_dues h).2, (eq_nil_of_dues h).1, hkinds⟩

/-- Looking at the next token changes nothing. -/
theorem current_of_dues (h : c.dues = []) : Parse.current c = (c.here, c) := by
  obtain ⟨hlog, hpending⟩ := eq_nil_of_dues h
  have hlook := c.feed.look_of_pending hpending 1
  refine Prod.ext rfl (eq_of ?_ ?_)
  · exact congrArg Prod.snd hlook
  · change c.log ++ (c.feed.look 1).1 = c.log
    rw [hlook]
    exact Array.append_empty

theorem isAt_of_dues (h : c.dues = []) (kind : TokenKind) : Parse.isAt kind c = (c.here.kind.sameKind kind, c) := by
  change (fun r : Token × Cursor => (r.1.kind.sameKind kind, r.2)) (Parse.current c) = _
  rw [current_of_dues h]

theorem accept_of_dues (h : c.dues = []) {kind : TokenKind} (hkind : c.here.kind.sameKind kind = true) :
    Parse.accept kind c = (true, (Parse.consume c).2) := by
  rw [Parse.accept, bind_apply, isAt_of_dues h]
  dsimp only
  rw [hkind, if_pos rfl]
  rfl

theorem expect_of_dues (h : c.dues = []) {kind : TokenKind} (hkind : c.here.kind.sameKind kind = true) :
    Parse.expect kind c = (c.here.loc, (Parse.consume c).2) := by
  rw [Parse.expect, bind_apply, current_of_dues h, bind_apply, accept_of_dues h hkind]
  rfl

end Cursor

/-! ## What a parser yields from a cursor -/

/-- From this cursor on the parser gives a result with `Q` and leaves tokens of these kinds, without a report. -/
def YieldsFrom {α : Type} (c : Cursor) (f : Parse α) (Q : α → Prop) (rest : List TokenKind) : Prop := Q (f c).1 ∧ (f c).2.At rest

namespace YieldsFrom

variable {α β : Type} {f : Parse α} {k : α → Parse β} {P : α → Prop} {R : β → Prop} {c d : Cursor} {mid rest : List TokenKind}

/-- A step of which it is known where it leads. -/
theorem step {a : α} (h : f c = (a, d)) (hk : YieldsFrom d (k a) R rest) : YieldsFrom c (f >>= k) R rest := by
  rw [YieldsFrom, bind_apply, h]
  exact hk

/-- Behind a step of which it is known what kinds of token it leaves. -/
theorem bind (h : YieldsFrom c f P mid) (hk : ∀ a, P a → Yields (k a) R mid rest) : YieldsFrom c (f >>= k) R rest := hk _ h.1 _ h.2

end YieldsFrom

namespace Grammar

open Cursor

variable {shift : Location → Location} {behind : Feed Token} {c c' : Cursor} {rest : List TokenKind}

/-! ## Statements in a block -/

theorem kinds_of_finished {α : Type} [Movable α] {r r' : α × Cursor} (h : Finished shift behind [] r r') :
    r'.2.At (r.2.kinds ++ behind.items.map fun n => n.value.kind) := by
  refine at_of_dues h.dues ?_
  rw [Cursor.kinds, h.tokens, List.map_append, List.map_map, Cursor.kinds]
  refine congrArg (· ++ _) ?_
  exact (List.map_map (f := Token.move shift) (g := Token.kind)).trans rfl

/-- A `;` that is left ends a statement, and else a brace does. -/
theorem statementEnd_yields {α : Type} {left : List TokenKind} (hleft : left = [] ∨ left = [.punctuation .semicolon]) (before : Nat)
    (stmts : α) :
    Yields (do
      if ← Grammar.isAtStatementsEnd <||> accept Punctuation.semicolon then return ForInStep.yield stmts
      else
        resumeStatements before
        return .yield stmts) (· = .yield stmts) (left ++ .punctuation .rBrace :: rest) (.punctuation .rBrace :: rest) := by
  rcases hleft with rfl | rfl
  · exact .orM (.isAtStatementsEnd (.yes rfl (.ret rfl)))
  · exact .orM (.isAtStatementsEnd (.no Bool.false_ne_true (.accept rfl (.ret rfl))))

/-- A statement that is a fragment without a diagnostic is the only one in front of a brace. -/
theorem statements_of_fragment (h : Ahead shift behind [] c c') (hclean : (stmtFragment full c).2.log = #[])
    (hlast : ∀ kind, c.kinds.getLast? = some kind → kind.endsStatement = false)
    (hbehind : (behind.items.map fun n => n.value.kind) = .punctuation .rBrace :: rest) :
    YieldsFrom c' (statements full) (· = [moved shift (stmtFragment full c).1]) (.punctuation .rBrace :: rest) := by
  have hbrace : (behind.peek 0).kind = .punctuation .rBrace := by
    obtain ⟨n, ns, hitems, hn, -⟩ := List.map_eq_cons_iff.1 hbehind
    rw [Feed.peek, hitems]
    exact hn
  obtain ⟨hlog, hleft⟩ := kinds_of_stmtFragment hclean
  have hfinished := stmt_finished h hclean hlast hbrace
  have hat := kinds_of_finished hfinished
  have hresult : (stmtFragment full c).1 = (stmt full c).1 := by rw [stmtFragment_apply]
  have hstart : endsStatements c'.here.kind = false := by
    rw [h.here_eq (kinds_ne_nil_of_stmt hlog)]
    exact endsStatements_of_clean hclean
  have hask : Grammar.isAtStatementsEnd c' = (false, c') := by
    rw [Grammar.isAtStatementsEnd, bind_apply, current_of_dues h.due, ← hstart]
    rfl
  rw [hbehind] at hat
  rw [hresult, ← hfinished.result]
  have hpass : YieldsFrom c' (statementPass full #[]) (· = .yield #[(stmt full c').1]) (.punctuation .rBrace :: rest) := by
    refine .step hask ?_
    rw [if_neg Bool.false_ne_true, stmt_full]
    refine .step rfl (.bind ⟨rfl, hat⟩ ?_)
    rintro _ rfl
    exact statementEnd_yields hleft _ _
  have hloop : YieldsFrom c' (loop #[] (statementPass full)) (· = #[(stmt full c').1]) (.punctuation .rBrace :: rest) := by
    rw [loopsEnd_full.statements.unrolls]
    refine .bind hpass ?_
    rintro _ rfl
    exact .loopDone loopsEnd_full.statements (.isAtStatementsEnd (.yes rfl (.ret ⟨_, rfl, rfl⟩)))
  refine .bind hloop ?_
  rintro _ rfl
  exact .ret rfl

/-! ## Heads of declarations -/

/-- A parser that stops in front of the last token of what goes ahead stops there as well if more stands behind. -/
theorem exists_head {α : Type} [Movable α] {f : Parse α} (hf : GoSyntax.Follows (.ahead shift behind []) f f)
    (h : Ahead shift behind [] c c')
    {t : Token} (htokens : (f c).2.tokens = [t]) (hlog : (Parse.consume (f c).2).2.log = #[]) :
    ∃ d, f c' = (moved shift (f c).1, d) ∧ d.here = moved shift t ∧ d.dues = [] ∧ (Parse.consume d).2.feed = behind
      ∧ (Parse.consume d).2.log = #[] := by
  have hkinds : (f c).2.kinds = [t.kind] := by
    rw [Cursor.kinds, htokens]
    rfl
  have hne : (f c).2.kinds ≠ [] := by
    rw [hkinds]
    exact List.cons_ne_nil _ _
  have hdone : (Parse.consume (f c).2).2.kinds = [] := by
    rw [kinds_consume, hkinds]
    rfl
  obtain ⟨hresult, hahead⟩ := finished_of_follows hf h (log_eq_empty_of_log (log_consume _) hlog) hne
  obtain ⟨hhere, hbehind⟩ := hahead.consume hne hlog
  rw [here_of_tokens htokens] at hhere
  exact ⟨(f c').2, Prod.ext hresult rfl, hhere, hahead.due, hbehind.feed_eq hdone, (eq_nil_of_dues hbehind.due).1⟩

/-! ## A function around statements -/

/-- A function declaration up to its body. -/
def funcHead (p : Productions) : Parse (Option (List Field) × Name × Signature) := do
  let _ ← consume
  let receiver ← receiver? p
  let name ← Parse.name
  return (receiver, name, ← signature p)

theorem funcDecl_eq (p : Productions) :
    funcDecl p = funcHead p >>= fun head => body? p >>= fun body => Pure.pure ⟨head.1, head.2.1, head.2.2, body⟩ := by
  simp only [funcDecl, funcHead, bind_assoc, pure_bind]

theorem funcHead_follows {B : Pursuit} {p q : Productions} (h : p.Pursued B q) : GoSyntax.Follows B (funcHead p) (funcHead q) :=
  FollowsAt.consume.bind fun _ => (receiver?_follows h).bind fun _ => FollowsAt.name.bind fun _ => (signature_follows h).bind fun _ =>
    .pure rfl

/-- In front of `func f() {`. -/
def funcStart : Cursor := .start ⟨0, ""⟩ (Utf8.encode "func f() \x7b".toList)

theorem funcHead_start : funcStart.tokens = [.keyword .func, .ident "f", .punctuation .lParen, .punctuation .rParen, .punctuation .lBrace].map
      (fun kind => ⟨kind, ⟨⟨0, ""⟩, 1⟩⟩)
    ∧ (funcHead full funcStart).1 = (none, ⟨⟨⟨0, ""⟩, 1⟩, "f"⟩, ⟨[], []⟩)
    ∧ (funcHead full funcStart).2.tokens = [⟨.punctuation .lBrace, ⟨⟨0, ""⟩, 1⟩⟩]
    ∧ (Parse.consume (funcHead full funcStart).2).2.log = #[] := by
  have hreceiver : (funcHead full funcStart).1.1.isNone = true := by decide +kernel
  have hname : (funcHead full funcStart).1.2.1 = ⟨⟨⟨0, ""⟩, 1⟩, "f"⟩ := by decide +kernel
  have hparams : (funcHead full funcStart).1.2.2.params.isEmpty = true := by decide +kernel
  have hresults : (funcHead full funcStart).1.2.2.results.isEmpty = true := by decide +kernel
  have hnone : ∀ sig : Signature, sig.params.isEmpty = true → sig.results.isEmpty = true → sig = ⟨[], []⟩
    | ⟨[], []⟩, _, _ => rfl
  exact ⟨by decide +kernel, Prod.ext (Option.isNone_iff_eq_none.1 hreceiver) (Prod.ext hname (hnone _ hparams hresults)), by decide +kernel,
    by decide +kernel⟩

/-- A function is read around the statements in its body. -/
theorem funcDecl_yields {ss : List Stmt} (h : Ahead shift behind [] funcStart c')
    (hbody : ∀ d : Cursor, d.feed = behind → d.log = #[] → YieldsFrom d (statements full) (· = ss) (.punctuation .rBrace :: rest)) :
    YieldsFrom c' (funcDecl full) (· = ⟨none, ⟨shift ⟨⟨0, ""⟩, 1⟩, "f"⟩, ⟨[], []⟩, some ⟨shift ⟨⟨0, ""⟩, 1⟩, ss⟩⟩) rest := by
  obtain ⟨-, hhead, htokens, hlog⟩ := funcHead_start
  obtain ⟨d, hread, hhere, hdues, hfeed, hclean⟩ := exists_head (funcHead_follows (pursued_ahead shift behind [])) h htokens hlog
  rw [hhead] at hread
  have hbrace : d.here.kind.sameKind Punctuation.lBrace = true := by
    rw [hhere]
    rfl
  have hblock : YieldsFrom d (block full) (· = ⟨d.here.loc, ss⟩) rest := by
    refine .step (expect_of_dues hdues hbrace) (.bind (hbody _ hfeed hclean) ?_)
    rintro _ rfl
    exact .expect rfl fun _ => .ret rfl
  have hsome : YieldsFrom d (body? full) (· = some ⟨d.here.loc, ss⟩) rest := by
    refine .step (isAt_of_dues hdues _) ?_
    rw [hbrace, if_pos rfl]
    exact ⟨congrArg some hblock.1, hblock.2⟩
  rw [funcDecl_eq]
  refine .step hread (.bind hsome ?_)
  rintro _ rfl
  rw [hhere]
  exact .ret rfl

/-! ## A variable around an expression -/

/-- An expression that is a fragment without a diagnostic is a list of one. -/
theorem exprList_of_fragment (h : Ahead shift behind [] c c') (hclean : (exprFragment full c).2.log = #[])
    (hlast : ∀ kind, c.kinds.getLast? = some kind → kind.endsStatement = false) (hbehind : (behind.items.map fun n => n.value.kind) = []) :
    YieldsFrom c' (exprList full 0) (· = (moved shift (exprFragment full c).1, [])) [.punctuation .semicolon] := by
  have hfinished := expr_finished h hclean hlast
  have hat := kinds_of_finished hfinished
  rw [(kinds_of_exprFragment hclean hlast).2, hbehind] at hat
  have hresult : (exprFragment full c).1 = (expr full 0 c).1 := by rw [exprFragment_apply]
  rw [hresult, ← hfinished.result]
  have hloop : Yields (loop #[] (separatedPass (expr full 0))) (· = #[]) [.punctuation .semicolon] [.punctuation .semicolon] :=
    .loopDone (loopsEnd_full.exprs 0) (.ifNotAccept rfl (.ret ⟨_, rfl, rfl⟩))
  have hfirst : YieldsFrom c' (expr full 0) (· = (expr full 0 c').1) [.punctuation .semicolon] := ⟨rfl, hat⟩
  generalize expr full 0 c' = r at hfirst ⊢
  refine .bind hfirst ?_
  rintro _ rfl
  refine .bind hloop ?_
  rintro _ rfl
  exact .ret rfl

/-- A variable declaration up to its values. The flag says that it is a group. -/
def varHead (p : Productions) : Parse (Bool × Location × List Name × Option Expr) := do
  let _ ← consume
  let grouped ← accept Punctuation.lParen
  let here ← current
  let list ← names
  return (grouped, here.loc, list, ← p.type?)

theorem varHead_follows {B : Pursuit} {p q : Productions} (h : p.Pursued B q) : GoSyntax.Follows B (varHead p) (varHead q) :=
  FollowsAt.consume.bind fun _ => (FollowsAt.accept _).bind fun _ => FollowsAt.current.bind fun _ => FollowsAt.names.bind fun _ =>
    h.type?.bind fun _ => .pure rfl

theorem declGroup_var (p : Productions) (h : (varHead p c).1.1 = false) : declGroup p .var c
    = (⟨.var, [.value (varHead p c).1.2.1 (varHead p c).1.2.2.1 (varHead p c).1.2.2.2 (specValues p false (varHead p c).2).1], false⟩,
      (specValues p false (varHead p c).2).2) := by
  simp only [varHead, bind_apply, pure_apply] at h
  simp only [declGroup, varHead, spec, valueSpec, bind_apply, pure_apply]
  rw [if_neg (by rw [h]; exact Bool.false_ne_true)]
  simp only [bind_apply, pure_apply]
  rfl

/-- In front of `var _ =`. -/
def varStart : Cursor := .start ⟨0, ""⟩ (Utf8.encode "var _ =".toList)

theorem varHead_start : varStart.tokens = [.keyword .var, .ident "_", .operator .assign].map (fun kind => ⟨kind, ⟨⟨0, ""⟩, 1⟩⟩)
    ∧ (varHead full varStart).1 = (false, ⟨⟨0, ""⟩, 1⟩, [⟨⟨⟨0, ""⟩, 1⟩, "_"⟩], none)
    ∧ (varHead full varStart).2.tokens = [⟨.operator .assign, ⟨⟨0, ""⟩, 1⟩⟩]
    ∧ (Parse.consume (varHead full varStart).2).2.log = #[] := by
  have hgrouped : (varHead full varStart).1.1 = false := by decide +kernel
  have hloc : (varHead full varStart).1.2.1 = ⟨⟨0, ""⟩, 1⟩ := by decide +kernel
  have hnames : (varHead full varStart).1.2.2.1 = [⟨⟨⟨0, ""⟩, 1⟩, "_"⟩] := by decide +kernel
  have htype : (varHead full varStart).1.2.2.2.isNone = true := by decide +kernel
  exact ⟨by decide +kernel, Prod.ext hgrouped (Prod.ext hloc (Prod.ext hnames (Option.isNone_iff_eq_none.1 htype))), by decide +kernel,
    by decide +kernel⟩

/-- A variable is read around its value. -/
theorem varGroup_yields {e : Expr} (h : Ahead shift behind [] varStart c')
    (hvalue : ∀ d : Cursor, d.feed = behind → d.log = #[] → YieldsFrom d (exprList full 0) (· = (e, [])) rest) :
    YieldsFrom c' (declGroup full .var)
      (· = ⟨.var, [.value (shift ⟨⟨0, ""⟩, 1⟩) [⟨shift ⟨⟨0, ""⟩, 1⟩, "_"⟩] none [e]], false⟩) rest := by
  obtain ⟨-, hhead, htokens, hlog⟩ := varHead_start
  obtain ⟨d, hread, hhere, hdues, hfeed, hclean⟩ := exists_head (varHead_follows (pursued_ahead shift behind [])) h htokens hlog
  rw [hhead] at hread
  have hassign : d.here.kind.sameKind Operator.assign = true := by
    rw [hhere]
    rfl
  have hvalues : YieldsFrom d (specValues full false) (· = [e]) rest := by
    refine .step (accept_of_dues hdues hassign) ?_
    rw [if_pos rfl]
    refine .bind (hvalue _ hfeed hclean) ?_
    rintro _ rfl
    exact .ret rfl
  obtain ⟨hresult, hat⟩ := hvalues
  rw [YieldsFrom, declGroup_var full (by rw [hread]; rfl), hread]
  exact ⟨by rw [hresult]; rfl, hat⟩

/-! ## A file of one declaration -/

theorem declEnd_yields (quiet : Bool) : Yields (declEnd quiet) (· = ()) [.punctuation .semicolon] [] := .ifAccept rfl (.ret rfl)

theorem decl_func_yields {f : FuncDecl} (hdues : c.dues = []) (hhere : c.here.kind = .keyword .func)
    (h : YieldsFrom c (funcDecl full) (· = f) [.punctuation .semicolon]) : YieldsFrom c (decl full) (· = .func c.here.loc f) [] := by
  refine .step (current_of_dues hdues) (.step rfl ?_)
  rw [hhere]
  refine .bind h ?_
  rintro _ rfl
  exact .reports fun _ => .bind (declEnd_yields _) fun _ _ => .ret rfl

theorem decl_var_yields {g : DeclGroup} (hdues : c.dues = []) (hhere : c.here.kind = .keyword .var)
    (h : YieldsFrom c (declGroup full .var) (· = g) [.punctuation .semicolon]) : YieldsFrom c (decl full) (· = .group c.here.loc g) [] := by
  refine .step (current_of_dues hdues) (.step rfl ?_)
  rw [hhere]
  refine .bind h ?_
  rintro _ rfl
  exact .reports fun _ => .bind (declEnd_yields _) fun _ _ => .ret rfl

/-- A declaration in front of the end is the only one. -/
theorem declarations_yield {d : Decl} (hdues : c.dues = []) (hhere : c.here.kind.sameKind .eof = false)
    (h : YieldsFrom c (decl full) (· = d) []) : YieldsFrom c (Parse.loop #[] (declPass full)) (· = #[d]) [] := by
  have hpass : YieldsFrom c (declPass full #[]) (· = .yield #[d]) [] := by
    refine .step (isAt_of_dues hdues _) ?_
    rw [hhere, if_neg Bool.false_ne_true]
    refine .bind h ?_
    rintro _ rfl
    exact .ret rfl
  rw [loopsEnd_full.declarations.unrolls]
  refine .bind hpass ?_
  rintro _ rfl
  exact .loopDone loopsEnd_full.declarations (.ifAt rfl (.ret ⟨_, rfl, rfl⟩))

end Grammar

/-- Behind a package clause one declaration is read from the tokens of its text. -/
theorem parseFile_of_decl {path : SourcePath} {b : List UInt8} {d : Decl} (hb : (Undecoded.tokens ⟨path, b, 2, false⟩).pending = [])
    (h : ∀ c : Cursor, c.feed = Undecoded.tokens ⟨path, b, 2, false⟩ → c.log = #[] → c.dues = [] →
      c.here.kind.sameKind .eof = false ∧ YieldsFrom c (decl full) (· = d) []) :
    (parseFile path (Utf8.encode "package p\n".toList ++ b)).diagnostics = []
      ∧ (parseFile path (Utf8.encode "package p\n".toList ++ b)).tree.decls = [d] := by
  obtain ⟨rest, hlook, hdues, hdecls, hdiagnostics⟩ := exists_parseFile_package path b
  obtain ⟨-, -, -, haround, -⟩ := Undecoded.tokens_around
  have hclause : (Feed.tokens path (Utf8.encode "package p".toList)).pending = [] :=
    (Undecoded.tokens_elsewhere (.ofBytes ⟨0, ""⟩ (Utf8.encode "package p".toList)) path 0).2 (haround _ List.mem_cons_self)
  have hline : 1 + (Utf8.encode "package p".toList).count 10 + 1 = 2 := rfl
  have hpending : (Feed.tokens path (Utf8.encode "package p".toList ++ 10 :: b)).pending = [] := by
    obtain ⟨-, -, -, hpending⟩ := Undecoded.exists_tokens_append_of_pending hclause (by rwa [hline])
    exact hpending
  rw [show Utf8.encode "package p\n".toList = Utf8.encode "package p".toList ++ [10] from rfl, List.append_assoc] at *
  have hrest : rest.dues = [] := hdues.trans hpending
  obtain ⟨hlog, hsilent⟩ := Cursor.eq_nil_of_dues hrest
  rw [Feed.look_of_pending _ hsilent, Feed.look_of_pending _ hb] at hlook
  obtain ⟨hhere, hdecl⟩ := h rest hlook hlog hrest
  obtain ⟨hresult, hat⟩ := declarations_yield hrest hhere hdecl
  rw [hdiagnostics, hdecls, hresult, hat.clean]
  exact ⟨rfl, rfl⟩

/-! ## Fragments in a file -/

variable {path : SourcePath}

/-- The last token of a source is none at which a line break ends a statement. -/
theorem Cursor.endsStatement_of_getLast? {bytes : List UInt8} {kind : TokenKind} (h : (start path bytes).kinds.getLast? = some kind) :
    kind.endsStatement = false := by
  rw [kinds, List.getLast?_map, Option.map_eq_some_iff] at h
  obtain ⟨t, ht, rfl⟩ := h
  exact Undecoded.endsStatement_of_getLast? (.ofBytes path bytes) ht

/-- A statement without a diagnostic is parsed as the body of a function. -/
theorem parseFile_of_stmt {s : List UInt8} (hmark : ¬Utf8.encode [byteOrderMark] <+: s) (hclean : (parseStmt path s).diagnostics = []) :
    let file := parseFile path (Utf8.encode "package p\nfunc f() \x7b\n".toList ++ s ++ Utf8.encode "\n\x7d\n".toList)
    file.diagnostics = []
      ∧ file.tree.decls = [.func ⟨path, 2⟩ ⟨none, ⟨⟨path, 2⟩, "f"⟩, ⟨[], []⟩,
        some ⟨⟨path, 2⟩, [(parseStmt path s).tree.move (Location.down 2)]⟩⟩] := by
  obtain ⟨htree, hdiagnostics⟩ := parsed_of_run run_stmtFragment path s
  change (parseStmt path s).tree = _ at htree
  change (parseStmt path s).diagnostics = _ at hdiagnostics
  rw [hdiagnostics, Array.toList_eq_nil_iff] at hclean
  have hs : (Feed.tokens path s).pending = [] := pending_of_stmtFragment (c := .start path s) (Feed.lexical_tokens path s) hclean
  have hmark' := Undecoded.ne_mark_of_pending hs hmark
  have hlast : ∀ kind, (Cursor.start path s).kinds.getLast? = some kind → kind.endsStatement = false :=
    fun _ => Cursor.endsStatement_of_getLast?
  obtain ⟨hkinds, hbrace⟩ := Undecoded.tokens_closing path (1 + 2 + s.count 10 + 1)
  obtain ⟨-, hbody⟩ := Undecoded.pending_append hmark' hs rfl hbrace
  obtain ⟨-, -, -, haround, hheadMark⟩ := Undecoded.tokens_around
  have hhead : (Feed.tokens ⟨0, ""⟩ (Utf8.encode "func f() \x7b".toList)).pending = [] :=
    haround _ (List.mem_cons_of_mem _ List.mem_cons_self)
  have hheadLine : 1 + 1 + (Utf8.encode "func f() \x7b".toList).count 10 + 1 = 3 := rfl
  obtain ⟨-, hfunc⟩ := Undecoded.pending_append hheadMark hhead hheadLine hbody
  have hbytes : Utf8.encode "package p\nfunc f() \x7b\n".toList ++ s ++ Utf8.encode "\n\x7d\n".toList
      = Utf8.encode "package p\n".toList ++ (Utf8.encode "func f() \x7b".toList ++ 10 :: (s ++ 10 :: Utf8.encode "\x7d\n".toList)) := by
    rw [show Utf8.encode "package p\nfunc f() \x7b\n".toList
      = Utf8.encode "package p\n".toList ++ (Utf8.encode "func f() \x7b".toList ++ [10])
      from rfl, show Utf8.encode "\n\x7d\n".toList = 10 :: Utf8.encode "\x7d\n".toList from rfl]
    simp only [List.append_assoc, List.cons_append, List.nil_append]
  rw [hbytes, htree]
  refine parseFile_of_decl hfunc fun c hfeed hlog hdues => ?_
  obtain ⟨hstart, -⟩ := funcHead_start
  have hheadLast : ∀ kind, funcStart.kinds.getLast? = some kind → kind.announces = false := by
    rw [Cursor.kinds, hstart]
    rintro _ ⟨⟩
    rfl
  have hahead : Cursor.Ahead (fun l => ⟨path, l.line + 1⟩) (Undecoded.tokens ⟨path, s ++ 10 :: Utf8.encode "\x7d\n".toList, 1 + 2, false⟩) [] funcStart c :=
    Cursor.ahead_of_tokens (fun _ => rfl) hheadMark hhead hheadLast hheadLine hbody hfeed hlog
  have hstmts : ∀ d : Cursor, d.feed = Undecoded.tokens ⟨path, s ++ 10 :: Utf8.encode "\x7d\n".toList, 1 + 2, false⟩ → d.log = #[] →
      YieldsFrom d (statements full) (· = [(stmtFragment full (.start path s)).1.move (Location.down 2)])
        [.punctuation .rBrace, .punctuation .semicolon] := fun d hfeed hlog =>
    statements_of_fragment (Cursor.ahead_of_tokens (fun _ => rfl) hmark' hs (announces_of_stmtFragment hclean hlast) rfl hbrace hfeed hlog)
      hclean hlast hkinds
  have hhere : c.here = moved (fun l => ⟨path, l.line + 1⟩) funcStart.here :=
    hahead.here_eq (by rw [Cursor.kinds, hstart]; exact List.cons_ne_nil _ _)
  rw [Cursor.here_of_tokens hstart] at hhere
  have hdecl := decl_func_yields hdues (by rw [hhere]; rfl) (funcDecl_yields hahead hstmts)
  rw [hhere] at hdecl ⊢
  exact ⟨rfl, hdecl⟩

/-- The tokens of `var _ =` come in front of those of the value. -/
theorem Undecoded.tokens_var {bytes : List UInt8} {line : Nat} (h : (Feed.ofUndecoded ⟨path, bytes, line, false⟩).pending = []) :
    tokens ⟨path, Utf8.encode "var _ = ".toList ++ bytes, line, false⟩
      = (tokens ⟨path, bytes, line, false⟩).behind
        ([.keyword .var, .ident "_", .operator .assign].map fun kind => ⟨⟨kind, ⟨path, line⟩⟩, []⟩) := by
  have hassign := Lexeme.readsAs_symbol (.operator .assign)
  have hname : ReadsAs ['_'] (Lexeme.wordKind "_") := Lexeme.readsAs_word (by decide) fun _ hd => absurd hd List.not_mem_nil
  have hline : ∀ text ∈ [Keyword.var.spelling.toList, ['_'], (Symbol.operator .assign).spelling.toList], '\n' ∉ text := by decide
  have htexts : ∀ t ∈ [(Keyword.var.spelling.toList, .keyword .var), (['_'], Lexeme.wordKind "_"),
      ((Symbol.operator .assign).spelling.toList, (Symbol.operator .assign).tokenKind)], ReadsAs t.1 t.2 ∧ '\n' ∉ t.1 := by
    simp only [List.forall_mem_cons] at hline ⊢
    exact ⟨⟨Lexeme.readsAs_keyword .var, hline.1⟩, ⟨hname, hline.2.1⟩, ⟨hassign, hline.2.2.1⟩, fun _ hd => absurd hd List.not_mem_nil⟩
  exact tokensFrom_append false htexts h

/-- An expression without a diagnostic is parsed as the value of a variable. -/
theorem parseFile_of_expr {e : List UInt8} (hmark : ¬Utf8.encode [byteOrderMark] <+: e) (hclean : (parseExpr path e).diagnostics = []) :
    let file := parseFile path (Utf8.encode "package p\nvar _ = ".toList ++ e ++ Utf8.encode "\n".toList)
    file.diagnostics = [] ∧ file.tree.decls
      = [.group ⟨path, 2⟩ ⟨.var, [.value ⟨path, 2⟩ [⟨⟨path, 2⟩, "_"⟩] none [(parseExpr path e).tree.move (Location.down 1)]], false⟩] := by
  obtain ⟨htree, hdiagnostics⟩ := parsed_of_run run_exprFragment path e
  change (parseExpr path e).tree = _ at htree
  change (parseExpr path e).diagnostics = _ at hdiagnostics
  rw [hdiagnostics, Array.toList_eq_nil_iff] at hclean
  have he : (Feed.tokens path e).pending = [] := pending_of_exprFragment (c := .start path e) (Feed.lexical_tokens path e) hclean
  have hmark' := Undecoded.ne_mark_of_pending he hmark
  have hlast : ∀ kind, (Cursor.start path e).kinds.getLast? = some kind → kind.endsStatement = false :=
    fun _ => Cursor.endsStatement_of_getLast?
  obtain ⟨hkinds, hnothing⟩ := Undecoded.tokens_nil path (1 + 1 + e.count 10 + 1)
  obtain ⟨-, hvalue⟩ := Undecoded.pending_append hmark' he rfl hnothing
  have htokens := Undecoded.tokens_var ((Undecoded.pending_tokens _).1 hvalue).1
  have hvar : (Undecoded.tokens ⟨path, Utf8.encode "var _ = ".toList ++ (e ++ [10]), 2, false⟩).pending = [] := by
    rw [htokens, Feed.pending_behind, hvalue]
    rfl
  have hbytes : Utf8.encode "package p\nvar _ = ".toList ++ e ++ Utf8.encode "\n".toList
      = Utf8.encode "package p\n".toList ++ (Utf8.encode "var _ = ".toList ++ (e ++ [10])) := by
    rw [show Utf8.encode "package p\nvar _ = ".toList = Utf8.encode "package p\n".toList ++ Utf8.encode "var _ = ".toList from rfl,
      show Utf8.encode "\n".toList = [10] from rfl]
    simp only [List.append_assoc]
  rw [hbytes, htree]
  refine parseFile_of_decl hvar fun c hfeed hlog hdues => ?_
  obtain ⟨hstart, -⟩ := varHead_start
  have hheadLast : ∀ kind, varStart.kinds.getLast? = some kind → kind.announces = false := by
    rw [Cursor.kinds, hstart]
    rintro _ ⟨⟩
    rfl
  have hahead : Cursor.Ahead (fun l => ⟨path, l.line + 1⟩) (Undecoded.tokens ⟨path, e ++ [10], 2, false⟩) [] varStart c := by
    refine ⟨rfl, ⟨_, hfeed.trans htokens, ?_⟩, hdues, hheadLast⟩
    rw [hstart]
    rfl
  have hlist : ∀ d : Cursor, d.feed = Undecoded.tokens ⟨path, e ++ [10], 2, false⟩ → d.log = #[] →
      YieldsFrom d (exprList full 0) (· = ((exprFragment full (.start path e)).1.move (Location.down 1), [])) [.punctuation .semicolon] :=
    fun d hfeed hlog => exprList_of_fragment (Cursor.ahead_of_tokens (fun _ => rfl) hmark' he (announces_of_exprFragment hclean hlast) rfl
      hnothing hfeed hlog) hclean hlast hkinds
  have hhere : c.here = moved (fun l => ⟨path, l.line + 1⟩) varStart.here :=
    hahead.here_eq (by rw [Cursor.kinds, hstart]; exact List.cons_ne_nil _ _)
  rw [Cursor.here_of_tokens hstart] at hhere
  have hdecl := decl_var_yields hdues (by rw [hhere]; rfl) (varGroup_yields hahead hlist)
  rw [hhere] at hdecl ⊢
  exact ⟨rfl, hdecl⟩

/-- A fragment without a diagnostic, unless it starts with a byte order mark, is parsed alike in a file: a statement as the body of a
function and an expression as the value of a variable. Nothing is reported of the file, and the tree of the fragment stands in it, moved
down by the lines in front of it. (`\x7b` and `\x7d` are braces.) -/
theorem parseFile_fragment (path : SourcePath) :
    (∀ s : List UInt8, ¬Utf8.encode [byteOrderMark] <+: s → (parseStmt path s).diagnostics = [] →
      let file := parseFile path (Utf8.encode "package p\nfunc f() \x7b\n".toList ++ s ++ Utf8.encode "\n\x7d\n".toList)
      file.diagnostics = [] ∧ file.tree.decls
        = [.func ⟨path, 2⟩ ⟨none, ⟨⟨path, 2⟩, "f"⟩, ⟨[], []⟩, some ⟨⟨path, 2⟩, [(parseStmt path s).tree.move (Location.down 2)]⟩⟩])
      ∧ ∀ e : List UInt8, ¬Utf8.encode [byteOrderMark] <+: e → (parseExpr path e).diagnostics = [] →
        let file := parseFile path (Utf8.encode "package p\nvar _ = ".toList ++ e ++ Utf8.encode "\n".toList)
        file.diagnostics = [] ∧ file.tree.decls
          = [.group ⟨path, 2⟩ ⟨.var, [.value ⟨path, 2⟩ [⟨⟨path, 2⟩, "_"⟩] none [(parseExpr path e).tree.move (Location.down 1)]], false⟩] :=
  ⟨fun _ hmark hclean => parseFile_of_stmt hmark hclean, fun _ hmark hclean => parseFile_of_expr hmark hclean⟩

/-- A `goto` without a label, behind a label, looks at the end of the input on its own and at a brace in the function. -/
theorem parseFile_fragment_goto :
    ((parseStmt ⟨0, "p.go"⟩ (Utf8.encode "L: goto".toList)).diagnostics = []
        ∧ (parseFile ⟨0, "p.go"⟩ (Utf8.encode "package p\nfunc f() \x7b\nL: goto\n\x7d\n".toList)).diagnostics = [])
      ∧ (parseExpr ⟨0, "p.go"⟩ (Utf8.encode "x +\n1".toList)).diagnostics = []
      ∧ (parseFile ⟨0, "p.go"⟩ (Utf8.encode "package p\nvar _ = x +\n1\n".toList)).diagnostics = [] := by
  obtain ⟨hstmt, hexpr⟩ := parseFile_fragment ⟨0, "p.go"⟩
  have hgoto : (parseStmt ⟨0, "p.go"⟩ (Utf8.encode "L: goto".toList)).diagnostics = [] := by decide +kernel
  have hsum : (parseExpr ⟨0, "p.go"⟩ (Utf8.encode "x +\n1".toList)).diagnostics = [] := by decide +kernel
  obtain ⟨hfunc, -⟩ := hstmt (Utf8.encode "L: goto".toList) (by decide) hgoto
  obtain ⟨hvar, -⟩ := hexpr (Utf8.encode "x +\n1".toList) (by decide) hsum
  exact ⟨⟨hgoto, hfunc⟩, hsum, hvar⟩

end GoSyntax
