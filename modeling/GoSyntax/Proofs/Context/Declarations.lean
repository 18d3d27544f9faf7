import GoSyntax.Proofs.Context.Ahead
import GoSyntax.Proofs.Context.Beside

/-!
# Declarations are pursued

A file is pursued all the way by the same tokens elsewhere. It is pursued by a run with more tokens behind only up to its last `;`, because
there the run ahead escapes. But nothing is decided at this `;`: it is taken in both runs, and after it the other run stands where the
tokens begin that only it has.
-/

namespace GoSyntax

namespace Parse.Ends

variable {α : Type} {pass : α → Parse (ForInStep α)} {a a' : α} {c : Cursor}

theorem loop_eq_of_yield (h : Ends pass) (hpass : (pass a c).1 = .yield a') : loop a pass c = loop a' pass (pass a c).2 := by
  rw [h.unrolls, bind_apply, hpass]

theorem loop_eq_of_done (h : Ends pass) (hpass : (pass a c).1 = .done a') : loop a pass c = (a', (pass a c).2) := by
  rw [h.unrolls, bind_apply, hpass]
  rfl

end Parse.Ends

namespace Grammar

open FollowsAt Productions

variable {B : Pursuit} {p q : Productions}

/-! ## All declarations -/

theorem declEnd_follows (quiet : Bool) : Follows B (declEnd quiet) (declEnd quiet) := by
  have hmissing : Follows B (missingEnd quiet) (missingEnd quiet) := .ite (.pure rfl) (reportExpected _)
  exact (accept _).bind fun _ => .ite (.pure rfl) (hmissing.bind fun _ => skipTo _)

/-- The `;` behind a declaration, told whether there have been reports since the start of the declaration. -/
theorem declEnd_reports_follows {n n' : Nat} (h : ∀ m m', B.counts m m' → (n < m ↔ n' < m')) {d d' : Decl} (hd : d' = moved B.shift d) :
    Follows B (do declEnd (n < (← Parse.reports)); return d) (do declEnd (n' < (← Parse.reports)); return d') := by
  refine reports fun m m' hm => ?_
  have heq : decide (n < m) = decide (n' < m') := decide_eq_decide.2 (h m m' hm)
  rw [heq]
  exact (declEnd_follows _).bind fun _ => .pure hd

theorem badDecl_follows : Follows B badDecl badDecl :=
  current.bind fun _ => (reportHere _).bind fun _ => (skipTo _).bind fun _ => .pure rfl

theorem decl_follows (h : p.Pursued B q)
    (hcounts : ∀ n n' m m', B.counts n n' → B.counts m m' → (n < m ↔ n' < m')) : Follows B (decl p) (decl q) := by
  refine current.bind fun here => .reports fun n n' hn => ?_
  have hend : ∀ d d' : Decl, d' = moved B.shift d →
      Follows B (do declEnd (n < (← Parse.reports)); return d) (do declEnd (n' < (← Parse.reports)); return d') :=
    fun d d' => declEnd_reports_follows (hcounts n n' · · hn)
  obtain ⟨kind, loc⟩ := here
  dsimp only [Token.kind_moved]
  split
  · exact (funcDecl_follows h).bind fun _ => hend _ _ rfl
  · exact .ite ((declGroup_follows h _).bind fun _ => hend _ _ rfl) badDecl_follows
  · exact badDecl_follows

theorem packageClause_follows : Follows B packageClause packageClause :=
  current.bind fun _ => (accept _).bind fun _ => .ite
    (name.bind fun _ => (declEnd_follows false).bind fun _ => .pure rfl) ((reportExpected _).bind fun _ => .pure rfl)

theorem declPass_follows (h : Follows B (decl p) (decl q)) (decls : Array Decl) :
    Follows B (declPass p decls) (declPass q (moved B.shift decls)) :=
  isAtEnd.bind fun _ => .ite (.pure rfl) (h.bind fun _ => .pure (by simp))

theorem sourceFile_follows (hpaced : Paced B (declPass p)) (h : Follows B (decl p) (decl q)) :
    Follows B (sourceFile p) (sourceFile q) :=
  current.bind fun _ => packageClause_follows.bind fun _ => (loop hpaced (by simp) (declPass_follows h)).bind fun decls =>
    .pure (by rw [toList_moved]; rfl)

/-! ## The same declarations elsewhere -/

section Beside

variable {shift : Location → Location} {before before' : List Diagnostic} {c c' : Cursor}

theorem decl_beside : Follows (.beside shift before before') (decl full) (decl full) := by
  refine decl_follows (pursued_beside shift before before') fun n n' m m' hn hm => ?_
  change n + before'.length = n' + before.length at hn
  change m + before'.length = m' + before.length at hm
  omega

/-- The declarations over the same tokens elsewhere are the same, moved. -/
theorem declarations_beside (h : Cursor.Beside shift before before' c c') (decls : Array Decl) :
    (Parse.loop (moved shift decls) (declPass full) c').1 = moved shift (Parse.loop decls (declPass full) c).1
      ∧ Cursor.Beside shift before before' (Parse.loop decls (declPass full) c).2
        (Parse.loop (moved shift decls) (declPass full) c').2 := by
  have hloop : Follows (.beside shift before before') (Parse.loop decls (declPass full))
      (Parse.loop (moved shift decls) (declPass full)) :=
    loop (.inl fun _ _ h => Cursor.Beside.items_length h) rfl (declPass_follows decl_beside)
  exact (hloop.found c c' trivial h).resolve_left id

/-- A file over the same tokens elsewhere is the same, moved, and so is what is reported of it. -/
theorem sourceFile_beside (h : c'.feed = c.feed.move shift) : (sourceFile full c').1 = moved shift (sourceFile full c).1
    ∧ ∃ made, (sourceFile full c).2.log.toList = c.log.toList ++ made
      ∧ (sourceFile full c').2.log.toList = c'.log.toList ++ moved shift made := by
  have hfile : Follows (.beside shift c.log.toList c'.log.toList) (sourceFile full) (sourceFile full) :=
    sourceFile_follows (.inl fun _ _ h => Cursor.Beside.items_length h) decl_beside
  obtain ⟨htree, -, hlog⟩ := (hfile.found c c' trivial ⟨h, [], by simp, by simp⟩).resolve_left id
  exact ⟨htree, hlog⟩

/-- A file does not change if nothing in it is moved. -/
theorem moved_id_sourceFile (c : Cursor) : moved id (sourceFile full c).1 = (sourceFile full c).1 := by
  have hfeed : c.feed.move id = c.feed := by
    have hnotes : Diagnostic.move id = id := rfl
    have hnoted : Noted.relabel (Token.move id) (Diagnostic.move id) = id := by
      funext n
      rw [hnotes, Noted.relabel, List.map_id]
      rfl
    rw [Feed.move, Feed.relabel, hnoted, List.map_id]
    rfl
  exact (sourceFile_beside hfeed.symm).1.symm

end Beside

/-! ## Declarations with more tokens behind them -/

section Ahead

open Cursor

variable {shift : Location → Location} {behind : Feed Token} {due : List Diagnostic} {c c' : Cursor}

/-- A parser that ends without a report has started without one. -/
theorem log_eq_of_clean {α : Type} [Movable α] {f : Parse α} (h : Follows .untilReport f f) (hclean : (f c).2.log = #[]) : c.log = #[] :=
  not_not.1 fun hne => h.lost c trivial hne hclean

/-- A `;` is taken. Where there is none, this is reported unless there is quiet, and tokens are skipped. -/
theorem declEnd_apply (quiet : Bool) (c : Cursor) :
    (declEnd quiet c).2 = if c.here.kind.sameKind Punctuation.semicolon then (Parse.consume (Parse.current c).2).2
      else (Parse.skipTo Recovery.declarationStart (missingEnd quiet (Parse.current c).2).2).2 := by
  change (((if c.here.kind.sameKind Punctuation.semicolon then Parse.consume >>= fun _ => Pure.pure true else Pure.pure false : Parse Bool)
    >>= fun accepted => if accepted then Pure.pure () else missingEnd quiet >>= fun _ => Parse.skipTo Recovery.declarationStart)
      (Parse.current c).2).2 = _
  cases c.here.kind.sameKind Punctuation.semicolon <;> rfl

/-- Nothing but a `;` ends a declaration without a report. -/
theorem here_of_declEnd (hclean : (declEnd false c).2.log = #[]) : c.here.kind = .punctuation .semicolon := by
  by_contra hhere
  have hkind : c.here.kind.sameKind Punctuation.semicolon = false :=
    Bool.eq_false_iff.2 fun h => hhere ((TokenKind.Bare.sameKind_iff _).1 h)
  rw [declEnd_apply, hkind, if_neg Bool.false_ne_true] at hclean
  exact Array.push_ne_empty (log_eq_of_clean (skipTo _) hclean)

theorem kinds_ne_nil_of_declEnd (hclean : (declEnd false c).2.log = #[]) : c.kinds ≠ [] := by
  obtain ⟨ks, hks⟩ := kinds_eq_cons (c := c) (by rw [here_of_declEnd hclean]; rintro ⟨⟩)
  rw [hks]
  exact List.cons_ne_nil _ ks

theorem declEnd_ahead (h : Ahead shift behind due c c') (hclean : (declEnd false c).2.log = #[]) (quiet : Bool) :
    Ahead shift behind due (declEnd false c).2 (declEnd quiet c').2 := by
  have hhere := here_of_declEnd hclean
  have hkinds := kinds_ne_nil_of_declEnd hclean
  have hhere' : c'.here.kind = .punctuation .semicolon := by
    rw [h.here_eq hkinds]
    exact hhere
  rw [declEnd_apply, hhere, if_pos (by rfl)] at hclean ⊢
  rw [declEnd_apply, hhere', if_pos (by rfl)]
  have hpeek := h.current hkinds (log_eq_empty_of_log (log_consume _) hclean)
  exact (hpeek.consume (by rwa [Parse.current, kinds_peek]) hclean).2

/-- Something and the `;` behind it. If there is none, the number of reports says whether this is reported. -/
def declared {α β : Type} (f : Parse α) (quiet : Nat → Bool) (r : α → β) : Parse β := do
  let a ← f
  declEnd (quiet (← Parse.reports))
  return r a

/-- Nothing is reported of the end of what is declared without a report. -/
theorem declEnd_of_declared {α β : Type} {f : Parse α} {quiet : Nat → Bool} {r : α → β} (hquiet : quiet 0 = false)
    (hclean : (declared f quiet r c).2.log = #[]) :
    (declEnd false (f c).2).2.log = #[] ∧ (declared f quiet r c).2 = (declEnd false (f c).2).2 := by
  change (declEnd (quiet (f c).2.log.size) (f c).2).2.log = #[] at hclean
  have hlog : (f c).2.log = #[] := log_eq_of_clean (declEnd_follows _) hclean
  have hloud : quiet (f c).2.log.size = false := by rw [hlog]; exact hquiet
  change _ ∧ (declEnd (quiet (f c).2.log.size) (f c).2).2 = _
  rw [hloud] at hclean ⊢
  exact ⟨hclean, rfl⟩

/-- What stands in front of a `;` does not come to the end of the run ahead. -/
theorem unescaped_of_declared {α β : Type} {f : Parse α} {quiet : Nat → Bool} {r : α → β} (hquiet : quiet 0 = false)
    (hclean : (declared f quiet r c).2.log = #[]) :
    (declEnd false (f c).2).2.log = #[] ∧ (declared f quiet r c).2 = (declEnd false (f c).2).2
      ∧ ¬(Pursuit.ahead shift behind due).escaped (f c).2 := by
  obtain ⟨hend, heq⟩ := declEnd_of_declared hquiet hclean
  have hlog : (f c).2.log = #[] := log_eq_of_clean (declEnd_follows _) hend
  exact ⟨hend, heq, fun h => h.elim (kinds_ne_nil_of_declEnd hend) (absurd hlog)⟩

theorem log_eq_of_declared {α β : Type} [Movable α] {f : Parse α} (hf : Follows .untilReport f f) {quiet : Nat → Bool} {r : α → β}
    (hclean : (declared f quiet r c).2.log = #[]) : c.log = #[] :=
  log_eq_of_clean hf (log_eq_of_clean (declEnd_follows (quiet (f c).2.log.size)) hclean)

/-- What is read in front of a `;` is the same in both runs. -/
theorem declared_ahead {α β : Type} [Movable α] [Movable β] {f : Parse α} (hf : Follows (.ahead shift behind due) f f)
    {quiet : Nat → Bool} (hquiet : quiet 0 = false) (quiet' : Nat → Bool) {r r' : α → β} (hr : ∀ a, r' (moved shift a) = moved shift (r a))
    (h : Ahead shift behind due c c') (hclean : (declared f quiet r c).2.log = #[]) :
    (declared f quiet' r' c').1 = moved shift (declared f quiet r c).1
      ∧ Ahead shift behind due (declared f quiet r c).2 (declared f quiet' r' c').2 := by
  obtain ⟨hend, heq, hescaped⟩ := unescaped_of_declared hquiet hclean
  have hkinds : c.kinds ≠ [] := fun hnil => hescaped (hf.lost c trivial (.inl hnil))
  obtain ⟨hsame, hahead, -⟩ := (hf.found c c' trivial ⟨h, hkinds⟩).resolve_left hescaped
  rw [heq]
  change r' (f c').1 = moved shift (r (f c).1) ∧ Ahead shift behind due _ (declEnd (quiet' (f c').2.log.size) (f c').2).2
  rw [hsame]
  exact ⟨hr _, declEnd_ahead hahead hend _⟩

/-- A declaration that starts with a token, and the `;` behind it; so many reports have been made before. -/
def declFrom (p : Productions) (here : Token) (before : Nat) : Parse Decl :=
  match here.kind with
  | .keyword .func => declared (funcDecl p) (before < ·) (.func here.loc)
  | .keyword keyword =>
    if keyword = .const || keyword = .var || keyword = .type || keyword = .import then
      declared (declGroup p keyword) (before < ·) (.group here.loc)
    else badDecl
  | _ => badDecl

theorem decl_apply (p : Productions) (c : Cursor) :
    decl p c = declFrom p c.here (Parse.current c).2.log.size (Parse.current c).2 := rfl

/-- The kind of the first token says what declaration it is. -/
theorem declFrom_cases (kind : TokenKind) : (∀ p loc n, declFrom p ⟨kind, loc⟩ n = badDecl)
    ∨ (∀ p loc n, declFrom p ⟨kind, loc⟩ n = declared (funcDecl p) (n < ·) (.func loc))
    ∨ ∃ keyword, ∀ p loc n, declFrom p ⟨kind, loc⟩ n = declared (declGroup p keyword) (n < ·) (.group loc) := by
  cases kind with
  | keyword word =>
    cases word with
    | func => exact .inr (.inl fun _ _ _ => rfl)
    | const | var | type | «import» => exact .inr (.inr ⟨_, fun _ _ _ => rfl⟩)
    | _ => exact .inl fun _ _ _ => rfl
  | _ => exact .inl fun _ _ _ => rfl

/-- What starts with a token is the same in both runs; that nothing has been reported before follows. -/
theorem declFrom_ahead (here : Token) (before before' : Nat) (h : c.log = #[] → Ahead shift behind due c c')
    (hclean : (declFrom full here before c).2.log = #[]) :
    (declFrom full (moved shift here) before' c').1 = moved shift (declFrom full here before c).1
      ∧ Ahead shift behind due (declFrom full here before c).2 (declFrom full (moved shift here) before' c').2 := by
  have hself : full.Pursued .untilReport full := pursued_of_reports fun _ => id
  have hahead : full.Pursued (.ahead shift behind due) full := pursued_ahead shift behind due
  obtain ⟨kind, loc⟩ := here
  change (declFrom full ⟨kind, shift loc⟩ before' c').1 = _ ∧ Ahead shift behind due _ (declFrom full ⟨kind, shift loc⟩ before' c').2
  rcases declFrom_cases kind with hbad | hfunc | ⟨keyword, hgroup⟩
  · rw [hbad] at hclean
    exact absurd (log_eq_of_clean (skipTo _) hclean) Array.push_ne_empty
  · have hfollows : Follows .untilReport (funcDecl full) (funcDecl full) := funcDecl_follows hself
    rw [hfunc] at hclean ⊢
    rw [hfunc]
    exact declared_ahead (funcDecl_follows hahead) rfl _ (fun _ => rfl) (h (log_eq_of_declared hfollows hclean)) hclean
  · have hfollows : Follows .untilReport (declGroup full keyword) (declGroup full keyword) := declGroup_follows hself keyword
    rw [hgroup] at hclean ⊢
    rw [hgroup]
    exact declared_ahead (declGroup_follows hahead keyword) rfl _ (fun _ => rfl) (h (log_eq_of_declared hfollows hclean)) hclean

theorem decl_ahead (h : Ahead shift behind due c c') (hkinds : c.kinds ≠ []) (hclean : (decl full c).2.log = #[]) :
    (decl full c').1 = moved shift (decl full c).1 ∧ Ahead shift behind due (decl full c).2 (decl full c').2 := by
  rw [decl_apply] at hclean
  rw [decl_apply full c', h.here_eq hkinds, decl_apply full c]
  exact declFrom_ahead _ _ _ (h.current hkinds) hclean

theorem packageClause_ahead (h : Ahead shift behind due c c') (hclean : (packageClause c).2.log = #[]) :
    (packageClause c').1 = moved shift (packageClause c).1
      ∧ Ahead shift behind due (packageClause c).2 (packageClause c').2 := by
  have hunfold : ∀ c, packageClause c = (if (Parse.accept Keyword.package (Parse.current c).2).1 = true
      then declared Parse.name (fun _ => false) id else Parse.reportExpected "`package`" >>= fun _ => Pure.pure ⟨c.here.loc, "_"⟩)
        (Parse.accept Keyword.package (Parse.current c).2).2 := fun _ => rfl
  have hask : Follows (.ahead shift behind due) (Parse.current >>= fun _ => Parse.accept Keyword.package)
      (Parse.current >>= fun _ => Parse.accept Keyword.package) := current.bind fun _ => accept _
  rw [hunfold c] at hclean ⊢
  rw [hunfold c']
  have haccept : (Parse.accept Keyword.package (Parse.current c).2).1 = true := by
    by_contra hno
    rw [if_neg hno] at hclean
    exact Array.push_ne_empty hclean
  rw [if_pos haccept] at hclean ⊢
  have hread : Follows (.ahead shift behind due) Parse.name Parse.name := name
  have hname : ¬(Pursuit.ahead shift behind due).escaped (Parse.accept Keyword.package (Parse.current c).2).2 := fun hescaped =>
    (unescaped_of_declared rfl hclean).2.2 (hread.lost _ trivial hescaped)
  have hkinds : c.kinds ≠ [] := fun hnil => hname (hask.lost c trivial (.inl hnil))
  obtain ⟨hsame, hboth, -⟩ := (hask.found c c' trivial ⟨h, hkinds⟩).resolve_left hname
  have haccept' : (Parse.accept Keyword.package (Parse.current c').2).1 = true := hsame.trans haccept
  rw [if_pos haccept']
  exact declared_ahead name rfl _ (fun _ => rfl) hboth hclean

/-- A pass ends the declarations at the end of the input and reads one more anywhere else. -/
theorem declPass_apply (decls : Array Decl) (c : Cursor) :
    declPass full decls c = if c.here.kind.sameKind .eof = true then (.done decls, (Parse.current c).2)
      else (.yield (decls.push (decl full (Parse.current c).2).1), (decl full (Parse.current c).2).2) := by
  change (if c.here.kind.sameKind .eof = true then Pure.pure (ForInStep.done decls)
    else decl full >>= fun d => Pure.pure (ForInStep.yield (decls.push d)) : Parse _) (Parse.current c).2 = _
  split <;> rfl

theorem declarations_apply (decls : Array Decl) (c : Cursor) :
    Parse.loop decls (declPass full) c = if c.here.kind.sameKind .eof = true then (decls, (Parse.current c).2)
      else Parse.loop (decls.push (decl full (Parse.current c).2).1) (declPass full) (decl full (Parse.current c).2).2 := by
  have hpass := declPass_apply decls c
  split
  · next hend =>
    rw [if_pos hend] at hpass
    rw [loopsEnd_full.declarations.loop_eq_of_done (congrArg Prod.fst hpass), hpass]
  · next hend =>
    rw [if_neg hend] at hpass
    rw [loopsEnd_full.declarations.loop_eq_of_yield (congrArg Prod.fst hpass), hpass]

theorem length_kinds_decl (hend : ¬c.here.kind.sameKind .eof = true) :
    (decl full (Parse.current c).2).2.kinds.length < c.kinds.length := by
  have hpass := declPass_apply #[] c
  rw [if_neg hend] at hpass
  have hadvances := loopsEnd_full.declarations.advances #[] c _ (congrArg Prod.fst hpass)
  rwa [hpass] at hadvances

/-- Declarations are put behind those that have been read before. -/
theorem declarations_append (decls : Array Decl) (c : Cursor) :
    Parse.loop decls (declPass full) c
      = (decls ++ (Parse.loop #[] (declPass full) c).1, (Parse.loop #[] (declPass full) c).2) := by
  induction hn : c.kinds.length using Nat.strong_induction_on generalizing c decls with
  | _ n ih =>
    subst hn
    rw [declarations_apply, declarations_apply #[] c]
    split
    · rw [Array.append_empty]
    · next hend =>
      have hlt := length_kinds_decl hend
      rw [ih _ hlt _ _ rfl, ih _ hlt (#[].push _) _ rfl]
      simp

/-- The declarations of the first run are read in the second one too; then it stands where the tokens begin that only it has. -/
theorem declarations_ahead (h : Ahead shift behind due c c') (decls : Array Decl)
    (hclean : (Parse.loop decls (declPass full) c).2.log = #[]) :
    ∃ new rest, (Parse.loop decls (declPass full) c).1 = decls ++ new ∧ rest.feed = behind ∧ rest.dues = due
      ∧ ∀ decls', Parse.loop decls' (declPass full) c' = Parse.loop (decls' ++ moved shift new) (declPass full) rest := by
  induction hn : c.kinds.length using Nat.strong_induction_on generalizing c c' decls with
  | _ n ih =>
    subst hn
    rw [declarations_apply] at hclean
    split at hclean
    · next hend =>
      have hkinds : c.kinds = [] := Cursor.kinds_eq_nil ((TokenKind.Bare.sameKind_iff _).1 hend)
      refine ⟨#[], c', ?_, h.feed_eq hkinds, h.due, fun decls' => by simp⟩
      rw [declarations_apply, if_pos hend, Array.append_empty]
    · next hend =>
      have hkinds : c.kinds ≠ [] := fun hnil => by
        obtain ⟨heof, -⟩ | ⟨ks, -, hks⟩ := c.kinds_cases
        · exact hend (by rw [heof]; rfl)
        · rw [hnil] at hks
          nomatch hks
      have hhere : c'.here = moved shift c.here := h.here_eq hkinds
      have hself : Follows .untilReport (decl full) (decl full) := decl_follows (pursued_of_reports fun _ => id)
        fun n n' m m' hn hm => by rw [show n = n' from hn, show m = m' from hm]
      have hmiddle : (decl full (Parse.current c).2).2.log = #[] :=
        not_not.1 fun hne => passes_lost (declPass_follows hself) _ _ _ hne hclean
      have hstart : (Parse.current c).2.log = #[] := log_eq_of_clean hself hmiddle
      have hpeek : Ahead shift behind due (Parse.current c).2 (Parse.current c').2 := h.current hkinds hstart
      have hkinds' : (Parse.current c).2.kinds ≠ [] := (kinds_peek 0 c).symm ▸ hkinds
      obtain ⟨hdecl, hahead⟩ := decl_ahead hpeek hkinds' hmiddle
      obtain ⟨new, rest, hnew, hfeed, hdues, hrest⟩ := ih _ (length_kinds_decl hend) hahead _ hclean rfl
      refine ⟨#[(decl full (Parse.current c).2).1] ++ new, rest, ?_, hfeed, hdues, fun decls' => ?_⟩
      · rw [declarations_apply, if_neg hend, hnew]
        simp
      · rw [declarations_apply, hhere, Token.kind_moved, if_neg hend, hrest]
        have happend : moved shift (#[(decl full (Parse.current c).2).1] ++ new)
            = #[moved shift (decl full (Parse.current c).2).1] ++ moved shift new :=
          Array.map_append.trans (congrArg (· ++ moved shift new) Array.map_singleton)
        rw [hdecl, happend, ← Array.append_assoc, Array.push_eq_append]

end Ahead

end Grammar

end GoSyntax
