import GoSyntax.Grammar.Statement
import GoSyntax.Proofs.Reading.Control
import GoSyntax.Proofs.Reading.Specification

/-!
# Reading statements

Every keyword that only starts a statement is taken by the statement it starts, so a list of statements never stands still at one.
-/

namespace GoSyntax.Grammar

open Parse

variable {n m : Nat} {p q : Productions} {start : Cursor} {t u : Tally} {φ : Token → Prop}

theorem badStmt_reads (n : Nat) : Reads n Stmt.tally badStmt badStmt := by
  intro m _ start t
  refine .current fun here _ => .reportHere (fun _ => rfl) ?_
  rintro _ rfl
  refine (skipTo_reads m _).bind le_rfl fun _ => .ret ?_
  exact Tally.le_of_words_eq_zero (by simp) (by simp [Stmt.tally_bad])

theorem returnStmt_takes (h : Agrees n p q) : Takes n (·.kind = Keyword.return) Stmt.tally (returnStmt p) (returnStmt q) := by
  intro m hm start t
  refine .consumeKind (fun _ => id) fun here => .ifAsk ((isAt_asks _).or (isAt_asks _)) (.ret (le_of_eq ?_)) ?_
  · rw [Stmt.tally_return]
    exact congrArg _ (mul_one _).symm
  · refine (exprs_reads h).bind (hm.trans (Nat.le_succ n)) fun es => .ret (le_of_eq ?_)
    rw [Stmt.tally_return, mul_assoc]
    rfl

theorem branchStmt_takes (n : Nat) (keyword : Keyword) :
    Takes n (·.kind = keyword) Stmt.tally (branchStmt keyword) (branchStmt keyword) := by
  intro m hm start t
  refine .consumeKind (fun _ => id) fun here => .current fun next _ => .ite (fun _ => ?_) fun _ => .ret (le_of_eq ?_)
  · refine (name_reads m).bind le_rfl fun label => .ret (le_of_eq ?_)
    rw [Stmt.tally_branch, mul_assoc]
    rfl
  · rw [Stmt.tally_branch]
    exact congrArg _ (mul_one _).symm

/-- A statement that starts with a keyword which starts nothing else takes it. -/
theorem keywordStmt_takes (h : Agrees n p q) (keyword : Keyword) :
    Takes n (fun a => a.kind = keyword ∧ Recovery.statementStart.contains a.kind = true) Stmt.tally (keywordStmt p keyword)
      (keywordStmt q keyword) := by
  intro m hm start t
  have hm' : m ≤ n + 1 := hm.trans (Nat.le_succ n)
  have hdecl : Same (Reached start (m + 1) t (·.kind = keyword))
      (do return Stmt.declaration (← current).loc (← declGroup p keyword))
      (do return Stmt.declaration (← current).loc (← declGroup q keyword)) fun s => Reached start m (t * s.tally) ⊤ :=
    .current fun here hhere => (declGroup_takes h keyword).bind hm (by rintro _ rfl; exact hhere) fun group => .ret le_rfl
  have hnone : ¬Recovery.statementStart.contains keyword = true → ∀ a : Token,
      ¬(a.kind = keyword ∧ Recovery.statementStart.contains a.kind = true) := fun hno a ha => hno (ha.1 ▸ ha.2)
  cases keyword with
  | const | type | var => exact hdecl.weaken le_rfl le_rfl fun _ => And.left
  | go =>
    refine .consumeKind (fun _ => And.left) fun here => (expr_reads h 0).bind hm' fun call => .ret (le_of_eq ?_)
    rw [Stmt.tally_go, mul_assoc]
  | defer =>
    refine .consumeKind (fun _ => And.left) fun here => (expr_reads h 0).bind hm' fun call => .ret (le_of_eq ?_)
    rw [Stmt.tally_defer, mul_assoc]
  | «return» => exact (returnStmt_takes h).last hm (fun _ => And.left) fun _ => le_rfl
  | «break» | «continue» | goto => exact (branchStmt_takes n _).last hm (fun _ => And.left) fun _ => le_rfl
  | «fallthrough» =>
    refine .consumeKind (fun _ => And.left) fun here => .ret (le_of_eq ?_)
    rw [Stmt.tally_branch]
    exact congrArg _ (mul_one _).symm
  | «if» => exact (ifStmt_takes h).last hm (fun _ => And.left) fun _ => le_rfl
  | switch => exact (switchStmt_takes h).last hm (fun _ => And.left) fun _ => le_rfl
  | select => exact (selectStmt_takes h).last hm (fun _ => And.left) fun _ => le_rfl
  | «for» => exact (forStmt_takes h).last hm (fun _ => And.left) fun _ => le_rfl
  | _ => exact .absurd fun c hc => hnone (by decide) _ hc.face

/-- A keyword that does not only start a statement may start an operand. -/
theorem keywordStmt_same (h : Agrees n p q) (hm : m ≤ n + 1) (keyword : Keyword) :
    Same (Reached start m t (·.kind = keyword)) (keywordStmt p keyword) (keywordStmt q keyword)
      fun s => Reached start m (t * s.tally) ⊤ := by
  cases hstart : Recovery.statementStart.contains keyword with
  | true => exact (keywordStmt_takes h keyword).weak hm (fun a ha => ⟨ha, ha ▸ hstart⟩) fun _ => le_rfl
  | false =>
    cases keyword with
    | func | struct | map | chan | interface => exact (simpleStmt_reads h (by decide) 0).last hm fun _ => le_rfl
    | «case» | default | «else» | «import» | package | range => exact (badStmt_reads m).last le_rfl fun _ => le_rfl
    | _ => exact absurd hstart (by decide)

theorem stmt_reads (h : Agrees n p q) : Reads (n + 1) Stmt.tally (stmt p) (stmt q) := by
  intro m hm start t
  refine .current fun here _ => ?_
  obtain ⟨kind, loc⟩ := here
  have hother : ∀ {φ}, Same (Reached start m t φ) (do if startsSimple kind then simpleStmt p .block 0 else badStmt)
      (do if startsSimple kind then simpleStmt q .block 0 else badStmt) fun s => Reached start m (t * s.tally) ⊤ :=
    .ite (fun _ => (simpleStmt_reads h (by decide) 0).last hm fun _ => le_rfl) fun _ => (badStmt_reads m).last le_rfl fun _ => le_rfl
  cases kind with
  | keyword keyword => exact (keywordStmt_same h hm keyword).weaken le_rfl le_rfl (by rintro _ rfl; rfl)
  | punctuation mark =>
    cases mark with
    | lBrace => exact (block_takes h).weakMap hm (by rintro _ rfl; rfl) fun b => le_of_eq (by rw [Stmt.tally_block])
    | semicolon | rBrace => exact .ret (le_of_eq (mul_one t).symm)
    | _ => exact hother
  | _ => exact hother

theorem stmt_takes (h : Agrees n p q) :
    Takes n (fun a => Recovery.statementStart.contains a.kind = true) Stmt.tally (stmt p) (stmt q) := by
  intro m hm start t
  refine .current fun here hhere => ?_
  obtain ⟨kind, loc⟩ := here
  obtain ⟨keyword, _, rfl⟩ := (TokenSet.contains_keywords _ _).1 hhere
  exact (keywordStmt_takes h keyword).last hm (by rintro _ rfl; exact ⟨rfl, hhere⟩) fun _ => le_rfl

end GoSyntax.Grammar
