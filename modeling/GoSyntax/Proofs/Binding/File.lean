import GoSyntax.Grammar.File
import GoSyntax.Proofs.Binding.Statements
import GoSyntax.Proofs.Canonical.Climbing

/-!
# What operators bind in all that is parsed

Whatever is read and reported, the trees of files, expressions and statements follow the precedences, and no header in them exposes a
composite literal whose type is a name.
-/

namespace GoSyntax

open Gives

theorem Productions.giveSettled_exhausted : exhausted.GiveSettled := by
  have hmissing : Gives Expr.SettledType missingOperand := step fun here => step fun _ => .pure (Expr.settledType_bad here.loc)
  refine ⟨.none_, fun level => ?_, fun level => ?_, fun _ => ?_, step fun here => step fun _ => .pure ?_⟩
  · exact hmissing.weaken fun e he => (he.operand level).toSettledAt
  · exact hmissing.weaken fun e he => he.operand level
  · exact hmissing.weaken fun e he => he.nodes
  · rw [Stmt.nodes, settled_cons, Node.settled_stmt]
    exact ⟨⟨List.forall_mem_nil _, List.forall_mem_nil _⟩, settled_nil⟩

theorem Productions.GiveSettled.deepen {p : Productions} (hp : p.GiveSettled) : p.deepen.GiveSettled where
  type? := Grammar.type?_settled hp false
  expr := Grammar.expr_settled hp
  unary := Grammar.unary_settled hp
  elementValue := Grammar.elementValue_settled hp
  stmt := Grammar.stmt_settled hp

theorem Productions.giveSettled_ofDepth (depth : Nat) : (ofDepth depth).GiveSettled := by
  induction depth with
  | zero => exact giveSettled_exhausted
  | succ depth ih => exact ih.deepen

namespace Grammar

variable {p : Productions}

theorem funcDecl_settled (hp : p.GiveSettled) : Gives (fun f => ∀ loc, Settled (Decl.func loc f).nodes) (funcDecl p) := by
  have hreceiver : Gives (fun r => ∀ fields ∈ r, SettledFields fields) (receiver? p) :=
    step fun _ => .ite (parameters_settled hp false).some_ .none_
  have hbody : Gives (fun b => ∀ block ∈ b, ∀ s ∈ block.stmts, Settled s.nodes) (body? p) :=
    step fun _ => .ite (block_settled hp).some_ .none_
  refine step fun _ => hreceiver.bind fun receiver hreceiver => step fun name => (signature_settled hp).bind fun sig hsig => ?_
  refine hbody.bind fun body hbody => .pure fun loc => ?_
  have hfields : Settled (nodesOfFields? receiver) := by
    cases receiver with
    | none => exact settled_nil
    | some fields => exact (settled_fields fields).2 (hreceiver fields rfl).nodes
  have hblock : Settled (nodesOfBlock? body) := by
    cases body with
    | none => exact settled_nil
    | some b => exact (settled_block b).2 (hbody b rfl)
  simpa [Decl.nodes, FuncDecl.nodes] using ⟨hfields, hsig.nodes, hblock⟩

theorem decl_settled (hp : p.GiveSettled) : Gives (fun d : Decl => Settled d.nodes) (decl p) := by
  have hbad : Gives (fun d : Decl => Settled d.nodes) badDecl := step fun _ => step fun _ => step fun _ => .pure (by simp [Decl.nodes])
  refine step fun here => step fun before => ?_
  split
  · exact (funcDecl_settled hp).bind fun f hf => step fun _ => step fun _ => .pure (hf here.loc)
  · refine .ite ((declGroup_settled hp _).bind fun g hg => step fun _ => step fun _ => .pure ?_) hbad
    simpa [Decl.nodes] using hg
  · exact hbad

theorem sourceFile_settled (hp : p.GiveSettled) : Gives (fun f : SourceFile => Settled f.nodes) (sourceFile p) := by
  have hpass : ∀ decls, Gives (Keeps (fun d : Decl => Settled d.nodes) decls) (declPass p decls) := fun _ =>
    step fun _ => .ite (.pure id) ((decl_settled hp).bind fun d hd => .pure (keeps_push (P := fun d : Decl => Settled d.nodes) rfl hd))
  refine step fun here => step fun package => (collect hpass).bind fun decls hdecls => .pure ?_
  simp only [SourceFile.nodes, settled_cons, settled_flatMap]
  exact ⟨⟨trivial, trivial⟩, hdecls⟩

theorem exprFragment_settled (hp : p.GiveSettled) : Gives (fun e => Settled e.nodes) (exprFragment p) :=
  (expr_settled hp 0).bind fun _ he => step fun _ => .pure he.nodes

theorem stmtFragment_settled (hp : p.GiveSettled) : Gives (fun s => Settled s.nodes) (stmtFragment p) :=
  (stmt_settled hp).bind fun _ hs => step fun _ => .pure hs

end Grammar

/-! ## All that is parsed -/

/-- What a parser gives under all productions that give it has been given to whoever parses a source. -/
theorem Productions.GiveSettled.parsed {α : Type} {P : α → Prop} {parser : Productions → Parse α}
    (h : ∀ p : Productions, p.GiveSettled → Gives P (parser p)) (path : SourcePath) (bytes : List UInt8) :
    P (Parsed.ofBytes parser path bytes).tree :=
  h _ (giveSettled_ofDepth ((Feed.tokens path bytes).items.length + 1)) (.start path bytes)

/-- All nodes that are parsed from a source, as a file, as an expression or as a statement. -/
def parsedNodes (path : SourcePath) (bytes : List UInt8) : List Node :=
  (parseFile path bytes).tree.nodes ++ (parseExpr path bytes).tree.nodes ++ (parseStmt path bytes).tree.nodes

theorem settled_parsedNodes (path : SourcePath) (bytes : List UInt8) : Settled (parsedNodes path bytes) := by
  rw [parsedNodes, settled_append, settled_append]
  refine ⟨⟨?_, ?_⟩, ?_⟩
  · exact Productions.GiveSettled.parsed (fun _ hp => Grammar.sourceFile_settled hp) path bytes
  · exact Productions.GiveSettled.parsed (fun _ hp => Grammar.exprFragment_settled hp) path bytes
  · exact Productions.GiveSettled.parsed (fun _ hp => Grammar.stmtFragment_settled hp) path bytes

/-- A chain of names and literals with binary operators and blanks between them is read, with nothing reported, as the tree that precedence
climbing builds: it has the chain in order and follows the precedences. And whatever is parsed and reported, every tree follows them. -/
theorem operators_bind_by_precedence (path : SourcePath) :
    (∀ (first : WrittenOperand) (links : List WrittenLink),
      (parseExpr path (Utf8.encode (chainText first links))).diagnostics = []
        ∧ (parseExpr path (Utf8.encode (chainText first links))).tree.shape = (climbed first.tree (treesOf links)).shape
        ∧ (climbed first.tree (treesOf links)).inOrder = .inl first.tree :: strung (treesOf links)
        ∧ ∀ n ∈ (climbed first.tree (treesOf links)).nodes, n.Ordered)
      ∧ ∀ bytes : List UInt8, ∀ n ∈ parsedNodes path bytes, n.Ordered := by
  constructor
  · intro first links
    have hatoms : ∀ link ∈ treesOf links, link.2.IsAtom := by
      intro link hlink
      obtain ⟨written, -, rfl⟩ := List.mem_map.1 hlink
      exact written.2.isAtom
    obtain ⟨hgrouped, horder⟩ := climbed_grouped first.isAtom hatoms
    obtain ⟨hsilent, hshape⟩ := parseExpr_chain path first links
    exact ⟨hsilent, hshape, horder, hgrouped.ordered⟩
  · intro bytes n hn
    exact (settled_parsedNodes path bytes n hn).1

end GoSyntax
