import GoSyntax.Proofs.Canonical.Spread
import GoSyntax.Proofs.Lexical.Printing
import GoSyntax.Tree.Binding

/-!
# Precedence climbing

A chain of operands with binary operators between them is grouped by precedence climbing: of the operators to come those are taken that
bind at least as tightly as asked for, each with a right operand that is climbed to from the next tighter precedence on. The parser has a
loop for each family of operators instead, one within the other, and reads the same tree.
-/

namespace GoSyntax

/-! ## Climbing -/

/-- An operator that joins two operands. -/
abbrev BinaryOperator := { op : Operator // op.precedence?.isSome = true }

/-- The precedence of an operator that joins two operands. -/
def BinaryOperator.precedence (op : BinaryOperator) : Nat := op.1.precedence?.get op.2

/-- An operand and the operator in front of it. -/
abbrev Link := BinaryOperator × Expr

/-- Precedence climbing: behind the operand `left` all operators are taken that bind at least as tightly as `least`. The result is the tree
and the links that are left. -/
def climb (least : Nat) (left : Expr) : (links : List Link) → Expr × { rest : List Link // rest.length ≤ links.length }
  | [] => (left, ⟨[], le_rfl⟩)
  | (op, operand) :: links =>
    if least ≤ op.precedence then
      let (right, ⟨more, hmore⟩) := climb (op.precedence + 1) operand links
      let (tree, ⟨rest, hrest⟩) := climb least (.binary left.loc op.1 left right) more
      (tree, ⟨rest, hrest.trans (hmore.trans (Nat.le_succ links.length))⟩)
    else (left, ⟨(op, operand) :: links, le_rfl⟩)
termination_by links => links.length

/-- The tree of a chain: its first operand and the links behind it. -/
def climbed (first : Expr) (links : List Link) : Expr := (climb 0 first links).1

/-! ## What climbing gives -/

/-- A name or a literal. -/
def Expr.IsAtom (e : Expr) : Prop := (∃ name, e = .ident default name) ∨ ∃ value, e = .literal default value

/-- A tree of the grammar that follows the precedences. -/
structure Expr.Grouped (e : Expr) : Prop where
  inGrammar : e.InGrammar 0
  ordered : ∀ n ∈ e.nodes, n.Ordered
  binding_le : e.binding ≤ e.rank
  rank_pos : 0 < e.rank

theorem BinaryOperator.precedence?_eq (op : BinaryOperator) : op.1.precedence? = some op.precedence := (Option.some_get op.2).symm

theorem BinaryOperator.precedence_le (op : BinaryOperator) : op.precedence ≤ 5 := by
  have hle := (TokenKind.operator op.1).precedence_le
  rwa [TokenKind.precedence, op.precedence?_eq] at hle

theorem Expr.IsAtom.grouped {e : Expr} (h : e.IsAtom) : e.Grouped := by
  rcases h with ⟨name, rfl⟩ | ⟨value, rfl⟩
  · exact ⟨trivial, List.forall_mem_singleton.2 trivial, Nat.le_succ 6, Nat.succ_pos 6⟩
  · exact ⟨trivial, List.forall_mem_singleton.2 trivial, Nat.le_succ 6, Nat.succ_pos 6⟩

theorem Expr.IsAtom.binding_eq {e : Expr} (h : e.IsAtom) : e.binding = 6 := by
  rcases h with ⟨name, rfl⟩ | ⟨value, rfl⟩ <;> rfl

theorem Expr.IsAtom.inOrder_eq {e : Expr} (h : e.IsAtom) : e.inOrder = [.inl e] := by
  rcases h with ⟨name, rfl⟩ | ⟨value, rfl⟩ <;> rfl

variable {op : BinaryOperator} {left right : Expr}

theorem binding_binary (loc : Location) (op : BinaryOperator) (left right : Expr) :
    (Expr.binary loc op.1 left right).binding = op.precedence := by
  rw [Expr.binding, op.precedence?_eq, Option.getD_some]

theorem Expr.Grouped.binary (hleft : left.Grouped) (hright : right.Grouped) (hl : op.precedence ≤ left.binding)
    (hr : op.precedence < right.binding) : (Expr.binary left.loc op.1 left right).Grouped := by
  have hprec := op.precedence?_eq
  refine ⟨⟨op.2, ?_, ?_, hleft.inGrammar, hright.inGrammar⟩, ?_, le_rfl, op.1.precedence_pos op.2⟩
  · rw [hprec, Option.getD_some]
    exact hl.trans hleft.binding_le
  · rw [hprec, Option.getD_some]
    exact hr.trans_le hright.binding_le
  · rw [Expr.nodes, List.forall_mem_cons, List.forall_mem_append]
    exact ⟨⟨_, hprec, hl, hr⟩, hleft.ordered, hright.ordered⟩

/-- Links, from left to right. -/
def strung (links : List Link) : List (Expr ⊕ Operator) := links.flatMap fun link => [.inr link.1.1, .inl link.2]

/-- What climbing keeps: the tree so far is grouped, and what comes next binds no more tightly than its root. -/
structure Climbing (least : Nat) (left : Expr) (links : List Link) : Prop where
  grouped : left.Grouped
  least_le : least ≤ left.binding
  next : ∀ link ∈ links.head?, link.1.precedence ≤ left.binding
  atoms : ∀ link ∈ links, link.2.IsAtom

/-- Climbing groups the operands in order, and leaves an operator only if it binds less tightly than asked for. -/
structure Climbs (least : Nat) (left : Expr) (links : List Link) (tree : Expr) (rest : List Link) : Prop where
  climbing : Climbing least tree rest
  left_lt : ∀ link ∈ rest.head?, link.1.precedence < least
  inOrder : tree.inOrder ++ strung rest = left.inOrder ++ strung links

theorem climb_climbs (least : Nat) (left : Expr) (links : List Link) (h : Climbing least left links) :
    Climbs least left links (climb least left links).1 (climb least left links).2.1 := by
  fun_induction climb least left links with
  | case1 least left => exact ⟨h, fun _ hl => absurd hl (Option.not_mem_none _), rfl⟩
  | case2 least left op operand links hleast right more hmore hright tree rest hrest htree ihRight ihTree =>
    obtain ⟨hatom, hatoms⟩ := List.forall_mem_cons.1 h.atoms
    have hprec := op.precedence_le
    -- the right operand takes all that binds more tightly than its operator
    have hoperand : Climbing (op.precedence + 1) operand links := by
      refine ⟨hatom.grouped, ?_, fun link _ => ?_, hatoms⟩
      · rw [hatom.binding_eq]
        omega
      · rw [hatom.binding_eq]
        exact link.1.precedence_le.trans (Nat.le_succ 5)
    have hclimbs := ihRight hoperand
    rw [hright] at hclimbs
    -- so what is left binds no more tightly than the operator, which is the root of what is climbed from next
    have hjoined : Climbing least (.binary left.loc op.1 left right) more := by
      refine ⟨h.grouped.binary hclimbs.climbing.grouped (h.next _ rfl) hclimbs.climbing.least_le, ?_, fun link hlink => ?_,
        hclimbs.climbing.atoms⟩
      · rw [binding_binary]
        exact hleast
      · rw [binding_binary]
        exact Nat.le_of_lt_succ (hclimbs.left_lt link hlink)
    have hfinal := ihTree hjoined
    rw [htree] at hfinal
    refine ⟨hfinal.climbing, hfinal.left_lt, ?_⟩
    calc tree.inOrder ++ strung rest
        = left.inOrder ++ .inr op.1 :: (right.inOrder ++ strung more) := by
          rw [hfinal.inOrder, Expr.inOrder, List.append_assoc, List.cons_append]
      _ = left.inOrder ++ strung ((op, operand) :: links) := by rw [hclimbs.inOrder, hatom.inOrder_eq]; rfl
  | case3 least left op operand links hleast =>
    refine ⟨h, fun link hlink => ?_, rfl⟩
    obtain rfl := Option.some.inj hlink
    exact Nat.lt_of_not_le hleast

/-- A chain of names and literals is climbed to the last. Its tree follows the precedences and has the chain in order. -/
theorem climbed_grouped {first : Expr} {links : List Link} (hfirst : first.IsAtom) (hlinks : ∀ link ∈ links, link.2.IsAtom) :
    (climbed first links).Grouped ∧ (climbed first links).inOrder = .inl first :: strung links := by
  have hstart : Climbing 0 first links := by
    refine ⟨hfirst.grouped, Nat.zero_le _, fun link _ => ?_, hlinks⟩
    rw [hfirst.binding_eq]
    exact link.1.precedence_le.trans (Nat.le_succ 5)
  obtain ⟨hclimbing, hlt, horder⟩ := climb_climbs 0 first links hstart
  have hnone : (climb 0 first links).2.1 = [] :=
    List.head?_eq_none_iff.1 (Option.eq_none_iff_forall_not_mem.2 fun link hlink => Nat.not_lt_zero _ (hlt link hlink))
  refine ⟨hclimbing.grouped, ?_⟩
  rwa [hnone, hfirst.inOrder_eq, strung, List.flatMap_nil, List.append_nil] at horder

/-! ## Chains as they are written -/

/-- The word of an operand or an operator. -/
def symbolWord : Expr ⊕ Operator → List TokenKind
  | .inl e => e.word
  | .inr op => [.operator op]

theorem word_eq_inOrder (e : Expr) : e.word = e.inOrder.flatMap symbolWord := by
  fun_induction Expr.inOrder e with
  | case1 loc op left right ihLeft ihRight =>
    rw [Expr.word_binary, ihLeft, ihRight, List.flatMap_append, List.flatMap_cons]
    rfl
  | case2 e => rw [List.flatMap_singleton, symbolWord]

/-- An operand as it is written: a text that is read as a name or a literal, with nothing found. -/
structure WrittenOperand where
  text : List Char
  tree : Expr
  isAtom : tree.IsAtom
  reads : ∃ kind, tree.word = [kind] ∧ ReadsAs text kind

/-- Each name and each literal that can be a token can be written as an operand. -/
theorem exists_writtenOperand {e : Expr} (h : e.IsAtom) (hemitted : ∀ kind ∈ e.word, kind.Emitted) :
    ∃ operand : WrittenOperand, operand.tree = e := by
  have hword : ∃ kind, e.word = [kind] := by
    rcases h with ⟨name, rfl⟩ | ⟨value, rfl⟩
    · exact ⟨.ident name, rfl⟩
    · exact ⟨.literal value, rfl⟩
  obtain ⟨kind, hkind⟩ := hword
  have hkindEmitted : kind.Emitted := hemitted kind (hkind ▸ List.mem_singleton_self kind)
  obtain ⟨cs, hcs⟩ := exists_spells hkindEmitted
  exact ⟨⟨cs, e, h, kind, hkind, readsAs_of_spells hcs hkindEmitted⟩, rfl⟩

/-- An operand as it is written, and the operator in front of it. -/
abbrev WrittenLink := BinaryOperator × WrittenOperand

/-- The trees of links. -/
def treesOf (links : List WrittenLink) : List Link := links.map fun link => (link.1, link.2.tree)

/-- Links as they are written, with a blank in front of each operator and each operand. -/
def linksText (links : List WrittenLink) : List Char :=
  links.flatMap fun link => ' ' :: (link.1.1.spelling.toList ++ ' ' :: link.2.text)

/-- A chain as it is written. -/
def chainText (first : WrittenOperand) (links : List WrittenLink) : List Char := first.text ++ linksText links

theorem bounded_linksText (links : List WrittenLink) : Bounded (linksText links) := by
  cases links with
  | nil => exact bounded_nil
  | cons link links =>
    intro a ha
    obtain rfl : ' ' = a := Option.some.inj ha
    rfl

theorem scansTo_linksText (links : List WrittenLink) : ScansTo (linksText links) ((strung (treesOf links)).flatMap symbolWord) := by
  induction links with
  | nil => exact .nil
  | cons link links ih =>
    obtain ⟨op, operand⟩ := link
    obtain ⟨kind, hword, hreads⟩ := operand.reads
    have hspace : ∀ cs, Bounded (' ' :: cs) := fun cs a ha => by
      obtain rfl : ' ' = a := Option.some.inj ha
      rfl
    have hoperand : ScansTo (operand.text ++ linksText links) (kind :: (strung (treesOf links)).flatMap symbolWord) :=
      ih.token hreads (bounded_linksText links)
    have hlink := ((hoperand.blank (a := ' ') rfl).token (Lexeme.readsAs_symbol (.operator op.1)) (hspace _)).blank (a := ' ') rfl
    have htext : linksText ((op, operand) :: links)
        = ' ' :: (op.1.spelling.toList ++ ' ' :: (operand.text ++ linksText links)) := by simp [linksText]
    have hkinds : (strung (treesOf ((op, operand) :: links))).flatMap symbolWord
        = .operator op.1 :: kind :: (strung (treesOf links)).flatMap symbolWord := by simp [strung, treesOf, symbolWord, hword]
    rw [htext, hkinds]
    exact hlink

/-- The word of a chain ends with an operand, behind which a line could end. -/
theorem ends_chain {first : Expr} {links : List Link} (hfirst : first.IsAtom) (hlinks : ∀ link ∈ links, link.2.IsAtom) :
    (((.inl first :: strung links : List (Expr ⊕ Operator)).flatMap symbolWord).map TokenKind.endsStatement).getLast? = some true := by
  induction links generalizing first with
  | nil => rcases hfirst with ⟨name, rfl⟩ | ⟨value, rfl⟩ <;> rfl
  | cons link links ih =>
    obtain ⟨hlink, hlinks⟩ := List.forall_mem_cons.1 hlinks
    have hsplit : (.inl first :: strung (link :: links) : List (Expr ⊕ Operator)).flatMap symbolWord
        = (first.word ++ [.operator link.1.1]) ++ (.inl link.2 :: strung links : List (Expr ⊕ Operator)).flatMap symbolWord := by
      simp [strung, symbolWord]
    rw [hsplit, List.map_append, List.getLast?_append, ih hlink hlinks]
    rfl

/-- A chain with blanks in it is read as the tree it is climbed to, and nothing is reported. -/
theorem parseExpr_chain (path : SourcePath) (first : WrittenOperand) (links : List WrittenLink) :
    (parseExpr path (Utf8.encode (chainText first links))).diagnostics = []
      ∧ (parseExpr path (Utf8.encode (chainText first links))).tree.shape = (climbed first.tree (treesOf links)).shape := by
  have hatoms : ∀ link ∈ treesOf links, link.2.IsAtom := by
    intro link hlink
    obtain ⟨written, -, rfl⟩ := List.mem_map.1 hlink
    exact written.2.isAtom
  obtain ⟨hgrouped, horder⟩ := climbed_grouped first.isAtom hatoms
  have hword : (climbed first.tree (treesOf links)).word = (.inl first.tree :: strung (treesOf links) : List (Expr ⊕ Operator)).flatMap symbolWord := by
    rw [word_eq_inOrder, horder]
  obtain ⟨kind, hkind, hreads⟩ := first.reads
  have hscans : ScansTo (chainText first links) (climbed first.tree (treesOf links)).word := by
    rw [hword, List.flatMap_cons, symbolWord, hkind]
    exact (scansTo_linksText links).token hreads (bounded_linksText links)
  have hlast : (false :: (climbed first.tree (treesOf links)).word.map TokenKind.endsStatement).getLast? = some true := by
    rw [List.getLast?_cons, hword, ends_chain first.isAtom hatoms]
    rfl
  obtain ⟨hsilent, hkinds⟩ := hscans.tokenize hlast path
  have hinput : (Cursor.start path (Utf8.encode (chainText first links))).kinds
      = (climbed first.tree (treesOf links)).word ++ [.punctuation .semicolon] := by
    refine List.append_cancel_right ((kinds_tokenize path _).symm.trans (hkinds.trans ?_))
    rw [List.append_assoc]
    rfl
  have hreads := (Expr.readsBack _ 0 hgrouped.inGrammar).reads hgrouped.rank_pos
  have hstage : (climbed first.tree (treesOf links)).stage ≤ 6 := by
    rw [Expr.stage]
    have hrank := hgrouped.rank_pos
    omega
  obtain ⟨htree, hdiagnostics⟩ := parsed_of_run Grammar.run_exprFragment path (Utf8.encode (chainText first links))
  obtain ⟨hshape, hlog⟩ := (Yields.exprFragment hstage hreads).parsed Bonded.exprFragment hinput Grammar.pending_exprFragment
  rw [parseExpr, htree, hdiagnostics, hlog]
  exact ⟨hsilent, hshape⟩

end GoSyntax
