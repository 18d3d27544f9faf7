import GoSyntax.Grammar.File
import GoSyntax.Proofs.Recovery.Enclosures
import GoSyntax.Tree.Nodes

/-!
# Members start with their first tokens

A member of a list stands where its first token does. Each parser notes this token when it starts and gives its place to what it makes,
whatever is read behind it.
-/

namespace GoSyntax

/-- What the parser gives starts where the next token stands. -/
def StartsHere {α : Type} (locOf : α → Location) (f : Parse α) : Prop := ∀ c, locOf (f c).1 = c.here.loc

namespace StartsHere

variable {α β : Type} {locOf : α → Location} {f g : Parse α} {k : Token → Parse α}

theorem of_current (h : ∀ here, Gives (fun a => locOf a = here.loc) (k here)) : StartsHere locOf (Parse.current >>= k) :=
  fun c => h c.here _

theorem of_consume (h : ∀ here, Gives (fun a => locOf a = here.loc) (k here)) : StartsHere locOf (Parse.consume >>= k) :=
  fun c => h c.here _

/-- What is read behind the first look may tell where it starts. -/
theorem of_current_bind {P : Location → β → Prop} {r : Parse β} {k : Token → β → Parse α} (hr : ∀ c, P c.here.loc (r c).1)
    (hk : ∀ here b, P here.loc b → Gives (fun a => locOf a = here.loc) (k here b)) :
    StartsHere locOf (Parse.current >>= fun here => r >>= k here) := by
  intro c
  have hstarts := hr (Parse.current c).2
  rw [Cursor.here_current] at hstarts
  exact hk c.here _ hstarts _

theorem ite {χ : Prop} [Decidable χ] (hf : StartsHere locOf f) (hg : StartsHere locOf g) : StartsHere locOf (if χ then f else g) := by
  split
  · exact hf
  · exact hg

theorem map {locOf' : β → Location} {r : α → β} (h : StartsHere locOf f) (hr : ∀ a, locOf' (r a) = locOf a) : StartsHere locOf' (r <$> f) :=
  fun c => (hr _).trans (h c)

end StartsHere

namespace Grammar

variable {p : Productions}

open Gives

/-! ## Simple statements -/

/-- What a simple statement turns out to be starts here; the header of a loop does not count. -/
def Simple.StartsAt (loc : Location) (r : Simple) : Prop := ∀ s, r = .stmt s → s.loc = loc

theorem Simple.startsAt_stmt {loc : Location} {s : Stmt} (h : s.loc = loc) : Simple.StartsAt loc (.stmt s) := by
  rintro _ ⟨⟩
  exact h

theorem bare_startsAt (p : Productions) (position : SimplePosition) (first : Expr) (others : List Expr) (loc : Location) :
    Gives (fun s => s.loc = loc) (bare p position first others loc) := by
  have halone : Gives (fun s : Stmt => s.loc = loc) (alone first others loc) := .ite (.pure rfl) (.step fun _ => .pure rfl)
  have hlabeled : ∀ label, Gives (fun s : Stmt => s.loc = loc) (labeled p label loc) := fun label =>
    .step fun _ => .step fun _ => .ite (.step fun _ => .pure rfl) (.step fun _ => .pure rfl)
  unfold bare
  split
  · exact .step fun _ => .ite (hlabeled _) halone
  · exact halone

theorem simpleFrom_startsAt (p : Productions) (position : SimplePosition) (level : Int) (first : Expr) (others : List Expr)
    (loc : Location) :
    Gives (Simple.StartsAt loc) (simpleFrom p position level first others loc) := by
  have hbare : Gives (Simple.StartsAt loc) (.stmt <$> bare p position first others loc) :=
    (bare_startsAt p position first others loc).map fun _ => Simple.startsAt_stmt
  have hincDec : ∀ op, Gives (fun s : Stmt => s.loc = loc) (incDec op first others loc) := fun op => .step fun _ => .step fun _ => .pure rfl
  have hsend : Gives (fun s : Stmt => s.loc = loc) (send p level first others loc) := .step fun _ => .step fun _ => .step fun _ => .pure rfl
  have hassignment : ∀ op targets, Gives (fun s : Stmt => s.loc = loc) (assignment p level op targets loc) := fun op targets =>
    .step fun _ => .step fun _ => .pure rfl
  have hrange : ∀ targets define, Gives (Simple.StartsAt loc) (rangeClause p level targets define loc) := fun targets define =>
    .step fun _ => .step fun _ => .pure fun _ h => nomatch h
  refine .step fun here => ?_
  split
  · exact hsend.map fun _ => Simple.startsAt_stmt
  · unfold simpleBy
    split
    · exact (hincDec _).map fun _ => Simple.startsAt_stmt
    · exact .step fun _ => .step fun _ => .ite (hrange _ _) ((hassignment _ _).map fun _ => Simple.startsAt_stmt)
    · exact hbare
  · exact hbare

theorem simpleStmt_startsHere (p : Productions) (position : SimplePosition) (level : Int) :
    StartsHere Stmt.loc (simpleStmt p position level) := by
  have hsimple : ∀ c : Cursor, (simple p position level c).1.StartsAt c.here.loc := fun c => by
    rw [simple_eq, Parse.bind_apply, Parse.bind_apply]
    exact simpleFrom_startsAt p position level _ _ c.here.loc _
  rw [simpleStmt_eq]
  refine .of_current_bind hsimple fun here r hr => ?_
  cases r with
  | stmt s => exact .pure (hr s rfl)
  | range _ _ _ => exact .pure rfl

/-! ## All statements -/

theorem block_startsHere (p : Productions) : StartsHere Block.loc (block p) := by
  have hexpect : ∀ c, (Parse.expect Punctuation.lBrace c).1 = c.here.loc := fun c => by
    cases hkind : c.here.kind.sameKind Punctuation.lBrace with
    | true => rw [Cursor.expect_found hkind]
    | false => rw [Cursor.expect_missing hkind]
  exact hexpect

theorem switchStmt_startsHere (p : Productions) : StartsHere Stmt.loc (switchStmt p) := by
  refine .of_consume fun here => .step fun (init, tag) => ?_
  cases tag with
  | none => exact .step fun _ => .pure rfl
  | some s => exact .ite (.step fun _ => .pure rfl) (.step fun _ => .step fun _ => .pure rfl)

theorem forStmt_startsHere (p : Productions) : StartsHere Stmt.loc (forStmt p) := by
  refine .of_consume fun here => .step fun head => .step fun body => ?_
  cases head with
  | range vars define operand => exact .pure rfl
  | clauses init cond post =>
    cases cond with
    | none => exact .pure rfl
    | some cond => exact .step fun _ => .pure rfl

theorem badStmt_startsHere : StartsHere Stmt.loc badStmt := .of_current fun _ => .step fun _ => .step fun _ => .pure rfl

theorem keywordStmt_startsHere (p : Productions) (keyword : Keyword) : StartsHere Stmt.loc (keywordStmt p keyword) := by
  have hdeclaration : ∀ k, StartsHere Stmt.loc (do return Stmt.declaration (← Parse.current).loc (← declGroup p k)) := fun k =>
    .of_current fun _ => .step fun _ => .pure rfl
  have hbranch : ∀ k, StartsHere Stmt.loc (branchStmt k) := fun k =>
    .of_consume fun _ => .step fun _ => .ite (.step fun _ => .pure rfl) (.pure rfl)
  have hreturn : StartsHere Stmt.loc (returnStmt p) := .of_consume fun _ => .step fun _ => .ite (.pure rfl) (.step fun _ => .pure rfl)
  have hif : StartsHere Stmt.loc (ifStmt p) :=
    .of_consume fun _ => .step fun (_, _) => .step fun _ => .step fun _ => .ite (.step fun _ => .pure rfl) (.pure rfl)
  have hsimple := simpleStmt_startsHere p .block 0
  cases keyword with
  | const | type | var => exact hdeclaration _
  | go | defer => exact .of_consume fun _ => .step fun _ => .pure rfl
  | «return» => exact hreturn
  | «break» | «continue» | goto => exact hbranch _
  | «fallthrough» => exact .of_consume fun _ => .pure rfl
  | «if» => exact hif
  | switch => exact switchStmt_startsHere p
  | select => exact .of_consume fun _ => .step fun _ => .pure rfl
  | «for» => exact forStmt_startsHere p
  | func | struct | map | chan | interface => exact hsimple
  | _ => exact badStmt_startsHere

/-- An empty statement is at the token behind it; any other one starts with the next token. -/
theorem stmtFrom_startsHere (p : Productions) (kind : TokenKind) (loc : Location) :
    stmtFrom p ⟨kind, loc⟩ = Pure.pure (.empty loc) ∨ StartsHere Stmt.loc (stmtFrom p ⟨kind, loc⟩) := by
  have hother : ∀ kind, stmtFrom p ⟨kind, loc⟩ = (if startsSimple kind then simpleStmt p .block 0 else badStmt) →
      StartsHere Stmt.loc (stmtFrom p ⟨kind, loc⟩) := fun kind heq => by
    rw [heq]
    exact .ite (simpleStmt_startsHere p .block 0) badStmt_startsHere
  have hblock : StartsHere Stmt.loc (.block <$> block p) := (block_startsHere p).map fun b => by cases b; rfl
  cases kind with
  | keyword keyword => exact .inr (keywordStmt_startsHere p keyword)
  | punctuation mark =>
    cases mark with
    | lBrace => exact .inr hblock
    | semicolon | rBrace => exact .inl rfl
    | _ => exact .inr (hother _ rfl)
  | _ => exact .inr (hother _ rfl)

theorem stmt_startsHere (p : Productions) : StartsHere Stmt.loc (stmt p) := by
  intro c
  change (stmtFrom p ⟨c.here.kind, c.here.loc⟩ (Parse.current c).2).1.loc = c.here.loc
  rcases stmtFrom_startsHere p c.here.kind c.here.loc with hempty | hstarts
  · rw [hempty]
    rfl
  · exact (hstarts _).trans (congrArg Token.loc (Cursor.here_current c))

/-! ## Other members -/

theorem interfaceElem_startsHere (p : Productions) : StartsHere InterfaceElem.loc (interfaceElem p) :=
  .of_current fun _ => .step fun _ => .ite (.step fun _ => .step fun _ => .pure rfl) (.step fun _ => .pure rfl)

theorem field_startsHere (p : Productions) : StartsHere Field.loc (field p) :=
  .of_current fun _ => .step fun (_, _) => .step fun _ => .pure rfl

theorem spec_startsHere (p : Productions) (keyword : Keyword) (isFirst : Bool) : StartsHere Spec.loc (spec p keyword isFirst) := by
  refine .of_current fun here => ?_
  split
  · exact .step fun _ => .pure rfl
  · exact .step fun _ => .step fun _ => .pure rfl
  · exact .step fun _ => .step fun _ => .step fun _ => .pure rfl

theorem caseClause_startsHere (p : Productions) (ofTypes : Bool) : StartsHere CaseClause.loc (caseClause p ofTypes) :=
  .of_consume fun _ => .step fun _ => .step fun _ => .step fun _ => .pure rfl

theorem commClause_startsHere (p : Productions) : StartsHere CommClause.loc (commClause p) :=
  .of_consume fun _ => .step fun _ => .step fun _ => .step fun _ => .pure rfl

end Grammar

end GoSyntax
