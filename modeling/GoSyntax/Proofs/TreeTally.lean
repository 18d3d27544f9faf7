import GoSyntax.Proofs.Tally

/-!
# The tallies of trees

The tally of a part of a tree takes its spellings from the layout and its placeholders from the nodes. There is one equation
for each constructor, and it says how the tally is made of those of the parts. Where a layout leaves a choice there is an
inequality for each way to write the part.
-/

namespace GoSyntax

/-! ## Nodes and layouts of lists -/

@[simp] theorem placeholders_nil : placeholders [] = [] := rfl

@[simp] theorem placeholders_append (ns ms : List Node) :
    placeholders (ns ++ ms) = placeholders ns ++ placeholders ms := List.filterMap_append

@[simp] theorem placeholders_cons (n : Node) (ns : List Node) :
    placeholders (n :: ns) = n.placeholder?.toList ++ placeholders ns := by
  cases h : n.placeholder? <;> simp [placeholders, h]

/-- A function that goes through a list and treats each element alike is a map. -/
theorem eq_map_of_cons {α β : Type} {f : List α → List β} {g : α → β} (nil : f [] = [])
    (cons : ∀ x xs, f (x :: xs) = g x :: f xs) (xs : List α) : f xs = xs.map g := by
  induction xs with
  | nil => exact nil
  | cons x xs ih => rw [cons, ih, List.map_cons]

/-- A function that goes through a list and appends what it makes of each element is a flat map. -/
theorem eq_flatMap_of_cons {α β : Type} {f : List α → List β} {g : α → List β} (nil : f [] = [])
    (cons : ∀ x xs, f (x :: xs) = g x ++ f xs) (xs : List α) : f xs = xs.flatMap g := by
  induction xs with
  | nil => exact nil
  | cons x xs ih => rw [cons, ih, List.flatMap_cons]

theorem layoutsOfExprs_eq (es : List Expr) : layoutsOfExprs es = es.map Expr.layout :=
  eq_map_of_cons rfl (fun _ _ => rfl) es

theorem layoutsOfFields_eq (fs : List Field) : layoutsOfFields fs = fs.map Field.layout :=
  eq_map_of_cons rfl (fun _ _ => rfl) fs

theorem layoutsOfElems_eq (es : List InterfaceElem) : layoutsOfElems es = es.map InterfaceElem.layout :=
  eq_map_of_cons rfl (fun _ _ => rfl) es

theorem layoutsOfStmts_eq (ss : List Stmt) : layoutsOfStmts ss = ss.map Stmt.layout :=
  eq_map_of_cons rfl (fun _ _ => rfl) ss

theorem layoutsOfCases_eq (cs : List CaseClause) : layoutsOfCases cs = cs.map CaseClause.layout :=
  eq_map_of_cons rfl (fun _ _ => rfl) cs

theorem layoutsOfComms_eq (cs : List CommClause) : layoutsOfComms cs = cs.map CommClause.layout :=
  eq_map_of_cons rfl (fun _ _ => rfl) cs

theorem layoutsOfSpecs_eq (ss : List Spec) : layoutsOfSpecs ss = ss.map Spec.layout :=
  eq_map_of_cons rfl (fun _ _ => rfl) ss

theorem nodesOfExprs_eq (es : List Expr) : nodesOfExprs es = es.flatMap Expr.nodes :=
  eq_flatMap_of_cons rfl (fun _ _ => rfl) es

theorem nodesOfFields_eq (fs : List Field) : nodesOfFields fs = fs.flatMap Field.nodes :=
  eq_flatMap_of_cons rfl (fun _ _ => rfl) fs

theorem nodesOfElems_eq (es : List InterfaceElem) : nodesOfElems es = es.flatMap InterfaceElem.nodes :=
  eq_flatMap_of_cons rfl (fun _ _ => rfl) es

theorem nodesOfStmts_eq (ss : List Stmt) : nodesOfStmts ss = ss.flatMap Stmt.nodes :=
  eq_flatMap_of_cons rfl (fun _ _ => rfl) ss

theorem nodesOfCases_eq (cs : List CaseClause) : nodesOfCases cs = cs.flatMap CaseClause.nodes :=
  eq_flatMap_of_cons rfl (fun _ _ => rfl) cs

theorem nodesOfComms_eq (cs : List CommClause) : nodesOfComms cs = cs.flatMap CommClause.nodes :=
  eq_flatMap_of_cons rfl (fun _ _ => rfl) cs

theorem nodesOfSpecs_eq (ss : List Spec) : nodesOfSpecs ss = ss.flatMap Spec.nodes :=
  eq_flatMap_of_cons rfl (fun _ _ => rfl) ss

/-! ## The tally of a layout and of nodes -/

/-- The spellings of a layout and the placeholders among nodes. -/
def Layout.tally (l : Layout) (ns : List Node) : Tally := ⟨l.words, (placeholders ns : List Location)⟩

namespace Layout

theorem tally_append (a b : Layout) (ns ms : List Node) : (a ++ b).tally (ns ++ ms) = a.tally ns * b.tally ms :=
  Tally.ext rfl (by simp [tally])

theorem tally_token (kind : TokenKind) : (token kind).tally [] = .token kind := rfl

theorem tally_token_append (kind : TokenKind) (l : Layout) (ns : List Node) :
    (token kind ++ l).tally ns = .token kind * l.tally ns :=
  Tally.ext rfl (zero_add _).symm

theorem tally_append_token (l : Layout) (kind : TokenKind) (ns : List Node) :
    (l ++ token kind).tally ns = l.tally ns * .token kind :=
  Tally.ext rfl (add_zero _).symm

theorem tally_inParens (l : Layout) (ns : List Node) :
    (inParens l).tally ns = .token Punctuation.lParen * l.tally ns * .token Punctuation.rParen := by
  rw [inParens, tally_append_token, tally_token_append]

theorem tally_inBrackets (l : Layout) (ns : List Node) :
    (inBrackets l).tally ns = .token Punctuation.lBracket * l.tally ns * .token Punctuation.rBracket := by
  rw [inBrackets, tally_append_token, tally_token_append]

theorem tally_inBraces (l : Layout) (ns : List Node) :
    (inBraces l).tally ns = .token Punctuation.lBrace * l.tally ns * .token Punctuation.rBrace := by
  rw [inBraces, tally_append_token, tally_token_append]

theorem tally_either (a b : Layout) (ns : List Node) : (either a b).tally ns = a.tally ns ⊔ b.tally ns :=
  Tally.ext rfl (inf_idem _).symm

theorem tally_le_either_left (a b : Layout) (ns : List Node) : a.tally ns ≤ (either a b).tally ns :=
  le_sup_left.trans_eq (tally_either a b ns).symm

theorem tally_le_either_right (a b : Layout) (ns : List Node) : b.tally ns ≤ (either a b).tally ns :=
  le_sup_right.trans_eq (tally_either a b ns).symm

/-- Parts between separators, and their nodes one after another. -/
theorem tally_separatedBy {α : Type} (kind : TokenKind) (behind : Layout) (f : α → Layout) (g : α → List Node) (xs : List α) :
    (separatedBy kind behind (xs.map f)).tally (xs.flatMap g)
      = Tally.separatedBy (.token kind) (behind.tally []) (xs.map fun x => (f x).tally (g x)) := by
  induction xs with
  | nil => rfl
  | cons x xs ih =>
    cases xs with
    | nil => exact Tally.ext rfl (by simp [tally])
    | cons y ys =>
      have h : separatedBy kind behind ((x :: y :: ys).map f)
          = (f x ++ token kind) ++ separatedBy kind behind ((y :: ys).map f) := rfl
      have hx : (f x ++ token kind).tally (g x) = (f x).tally (g x) * Tally.token kind :=
        Tally.ext rfl (by simp [tally])
      rw [h, List.flatMap_cons, tally_append, hx, ih]
      rfl

theorem tally_concat {α : Type} (f : α → Layout) (g : α → List Node) (xs : List α) :
    (concat (xs.map f)).tally (xs.flatMap g) = (xs.map fun x => (f x).tally (g x)).prod := by
  induction xs with
  | nil => rfl
  | cons x xs ih => rw [List.map_cons, concat, List.flatMap_cons, tally_append, ih, List.map_cons, List.prod_cons]

end Layout

namespace Tally

/-- Parts between commas. -/
def joined (ts : List Tally) : Tally := separatedBy (token Punctuation.comma) 1 ts

/-- Parts between commas; one more may stand behind the last. -/
def listed (ts : List Tally) : Tally := separatedBy (token Punctuation.comma) (optionalToken Punctuation.comma) ts

/-- Parts with a `;` behind each; the last may be missing. -/
def terminated (ts : List Tally) : Tally :=
  separatedBy (token Punctuation.semicolon) (optionalToken Punctuation.semicolon) ts

/-- A part that may be missing. -/
def maybe : Option Tally → Tally
  | some t => t
  | none => 1

/-- The init statement of a header. -/
def init : Option Tally → Tally
  | some t => t * token Punctuation.semicolon
  | none => optionalToken Punctuation.semicolon

/-- The header of a loop: a condition on its own, or three parts. -/
def loopHeader (init cond post : Option Tally) : Tally :=
  match init, post with
  | none, none => maybe cond ⊔ token Punctuation.semicolon * maybe cond * token Punctuation.semicolon
  | _, _ => maybe init * token Punctuation.semicolon * maybe cond * token Punctuation.semicolon * maybe post

@[simp] theorem maybe_some (t : Tally) : maybe (some t) = t := rfl

@[simp] theorem maybe_none : maybe none = 1 := rfl

@[simp] theorem init_some (t : Tally) : init (some t) = t * token Punctuation.semicolon := rfl

@[simp] theorem init_none : init none = optionalToken Punctuation.semicolon := rfl

/-- The three parts may always be written. -/
theorem parts_le_loopHeader (init cond post : Option Tally) :
    maybe init * token Punctuation.semicolon * maybe cond * token Punctuation.semicolon * maybe post ≤ loopHeader init cond post := by
  cases init with
  | some t => exact le_rfl
  | none =>
    cases post with
    | some t => exact le_rfl
    | none => exact le_trans (le_of_eq (by simp)) le_sup_right

theorem cond_le_loopHeader (cond : Option Tally) : maybe cond ≤ loopHeader none cond none := le_sup_left

@[simp] theorem placeholders_loopHeader (init cond post : Option Tally) :
    (loopHeader init cond post).placeholders
      = (maybe init).placeholders + (maybe cond).placeholders + (maybe post).placeholders := by
  cases init <;> cases post <;> simp [loopHeader, sup_def]

end Tally

/-! ## The tallies of the parts of a tree -/

def Name.tally (n : Name) : Tally := .token (.ident n.text)
def Literal.tally (l : Literal) : Tally := .token (.literal l.value)
def ImportSpec.tally (s : ImportSpec) : Tally := s.layout.tally [.spec (.import s.path.loc s)]
def Expr.tally (e : Expr) : Tally := e.layout.tally e.nodes
def ArrayLength.tally (l : ArrayLength) : Tally := l.layout.tally l.nodes
def Field.tally (f : Field) : Tally := f.layout.tally f.nodes
def Signature.tally (s : Signature) : Tally := s.layout.tally s.nodes
def InterfaceElem.tally (e : InterfaceElem) : Tally := e.layout.tally e.nodes
def Block.tally (b : Block) : Tally := b.layout.tally b.nodes
def Stmt.tally (s : Stmt) : Tally := s.layout.tally s.nodes
def CaseClause.tally (c : CaseClause) : Tally := c.layout.tally c.nodes
def CommClause.tally (c : CommClause) : Tally := c.layout.tally c.nodes
def DeclGroup.tally (g : DeclGroup) : Tally := g.layout.tally g.nodes
def Spec.tally (s : Spec) : Tally := s.layout.tally s.nodes
def FuncDecl.tally (f : FuncDecl) : Tally := f.layout.tally f.nodes
def Decl.tally (d : Decl) : Tally := d.layout.tally d.nodes
def SourceFile.tally (f : SourceFile) : Tally := f.layout.tally f.nodes

/-! ## Lists of parts of a tree -/

@[simp] theorem Name.placeholders_tally (n : Name) : n.tally.placeholders = 0 := rfl

@[simp] theorem Literal.placeholders_tally (l : Literal) : l.tally.placeholders = 0 := rfl

theorem tally_ofNames (ns : List Name) : (Layout.ofNames ns).tally (nodesOfNames ns) = .joined (ns.map Name.tally) := by
  have h : nodesOfNames ns = ns.flatMap fun n => [.name n] := List.map_eq_flatMap
  rw [h]
  exact Layout.tally_separatedBy Punctuation.comma .empty Layout.ofName _ ns

@[simp] theorem placeholders_joined_names (ns : List Name) : (Tally.joined (ns.map Name.tally)).placeholders = 0 := by
  rw [← tally_ofNames]
  simp [Layout.tally, placeholders, nodesOfNames, Node.placeholder?]

theorem tally_ofLiteral? (l : Option Literal) :
    (Layout.maybe (l.map Layout.ofLiteral)).tally (nodesOfLiteral? l) = .maybe (l.map Literal.tally) := by
  cases l <;> rfl

theorem tally_ofExpr? (e : Option Expr) :
    (Layout.maybe (layoutOfExpr? e)).tally (nodesOfExpr? e) = .maybe (e.map Expr.tally) := by
  cases e <;> rfl

theorem tally_ofStmt? (s : Option Stmt) :
    (Layout.maybe (layoutOfStmt? s)).tally (nodesOfStmt? s) = .maybe (s.map Stmt.tally) := by
  cases s <;> rfl

theorem tally_joinedExprs (es : List Expr) :
    (Layout.joined (layoutsOfExprs es)).tally (nodesOfExprs es) = .joined (es.map Expr.tally) := by
  rw [layoutsOfExprs_eq, nodesOfExprs_eq]
  exact Layout.tally_separatedBy Punctuation.comma .empty Expr.layout Expr.nodes es

theorem tally_listedExprs (es : List Expr) :
    (Layout.listed (layoutsOfExprs es)).tally (nodesOfExprs es) = .listed (es.map Expr.tally) := by
  rw [layoutsOfExprs_eq, nodesOfExprs_eq]
  exact Layout.tally_separatedBy Punctuation.comma _ Expr.layout Expr.nodes es

theorem tally_listedFields (fs : List Field) :
    (Layout.listed (layoutsOfFields fs)).tally (nodesOfFields fs) = .listed (fs.map Field.tally) := by
  rw [layoutsOfFields_eq, nodesOfFields_eq]
  exact Layout.tally_separatedBy Punctuation.comma _ Field.layout Field.nodes fs

/-- Parts with a `;` behind each, and their nodes one after another. -/
theorem Layout.tally_terminated {α : Type} (f : α → Layout) (g : α → List Node) (xs : List α) :
    (terminated (xs.map f)).tally (xs.flatMap g) = .terminated (xs.map fun x => (f x).tally (g x)) := by
  have h : (either (token Punctuation.semicolon) empty).tally [] = .optionalToken Punctuation.semicolon :=
    Tally.ext (add_comm _ _) rfl
  rw [terminated, tally_separatedBy, h]
  rfl

theorem tally_terminatedFields (fs : List Field) :
    (Layout.terminated (layoutsOfFields fs)).tally (nodesOfFields fs) = .terminated (fs.map Field.tally) := by
  rw [layoutsOfFields_eq, nodesOfFields_eq]
  exact Layout.tally_terminated Field.layout Field.nodes fs

theorem tally_terminatedElems (es : List InterfaceElem) :
    (Layout.terminated (layoutsOfElems es)).tally (nodesOfElems es) = .terminated (es.map InterfaceElem.tally) := by
  rw [layoutsOfElems_eq, nodesOfElems_eq]
  exact Layout.tally_terminated InterfaceElem.layout InterfaceElem.nodes es

theorem tally_terminatedStmts (ss : List Stmt) :
    (Layout.terminated (layoutsOfStmts ss)).tally (nodesOfStmts ss) = .terminated (ss.map Stmt.tally) := by
  rw [layoutsOfStmts_eq, nodesOfStmts_eq]
  exact Layout.tally_terminated Stmt.layout Stmt.nodes ss

theorem tally_terminatedSpecs (ss : List Spec) :
    (Layout.terminated (layoutsOfSpecs ss)).tally (nodesOfSpecs ss) = .terminated (ss.map Spec.tally) := by
  rw [layoutsOfSpecs_eq, nodesOfSpecs_eq]
  exact Layout.tally_terminated Spec.layout Spec.nodes ss

theorem tally_concatCases (cs : List CaseClause) :
    (Layout.concat (layoutsOfCases cs)).tally (nodesOfCases cs) = (cs.map CaseClause.tally).prod := by
  rw [layoutsOfCases_eq, nodesOfCases_eq]
  exact Layout.tally_concat CaseClause.layout CaseClause.nodes cs

theorem tally_concatComms (cs : List CommClause) :
    (Layout.concat (layoutsOfComms cs)).tally (nodesOfComms cs) = (cs.map CommClause.tally).prod := by
  rw [layoutsOfComms_eq, nodesOfComms_eq]
  exact Layout.tally_concat CommClause.layout CommClause.nodes cs

/-! ## Types and expressions -/

namespace Expr

open Layout

theorem tally_bad (loc : Location) : (bad loc).tally = .fault loc := rfl

theorem tally_ident (loc : Location) (name : String) : (ident loc name).tally = .token (.ident name) := rfl

theorem tally_composite (loc : Location) (t : Option Expr) (es : List Expr) :
    (composite loc t es).tally = .maybe (t.map tally)
      * (.token Punctuation.lBrace * .listed (es.map tally) * .token Punctuation.rBrace) := by
  change (maybe (layoutOfExpr? t) ++ inBraces (listed (layoutsOfExprs es))).tally (nodesOfExpr? t ++ nodesOfExprs es) = _
  rw [tally_append, tally_ofExpr?, tally_inBraces, tally_listedExprs]

theorem tally_function (loc : Location) (sig : Signature) (body : Block) :
    (function loc sig body).tally = .token Keyword.func * sig.tally * body.tally := by
  change (Layout.token Keyword.func ++ sig.layout ++ body.layout).tally (sig.nodes ++ body.nodes) = _
  rw [tally_append, tally_token_append, Signature.tally, Block.tally]

theorem tally_paren (loc : Location) (e : Expr) :
    (paren loc e).tally = .token Punctuation.lParen * e.tally * .token Punctuation.rParen :=
  tally_inParens e.layout e.nodes

theorem tally_selector (loc : Location) (e : Expr) (field : Name) :
    (selector loc e field).tally = e.tally * .token Punctuation.dot * field.tally := by
  change (e.layout ++ Layout.token Punctuation.dot ++ ofName field).tally (e.nodes ++ [.name field]) = _
  rw [tally_append, tally_append_token]
  rfl

theorem tally_assertion (loc : Location) (e t : Expr) :
    (assertion loc e (some t)).tally = e.tally * .token Punctuation.dot
      * (.token Punctuation.lParen * t.tally * .token Punctuation.rParen) := by
  change (e.layout ++ Layout.token Punctuation.dot ++ inParens t.layout).tally (e.nodes ++ t.nodes) = _
  rw [tally_append, tally_append_token, tally_inParens, tally, tally]

theorem tally_assertion_none (loc : Location) (e : Expr) :
    (assertion loc e none).tally = e.tally * .token Punctuation.dot
      * (.token Punctuation.lParen * .token Keyword.type * .token Punctuation.rParen) := by
  change (e.layout ++ Layout.token Punctuation.dot ++ inParens (Layout.token Keyword.type)).tally (e.nodes ++ []) = _
  rw [tally_append, tally_append_token, tally_inParens, tally_token, tally]

theorem tally_index (loc : Location) (e i : Expr) :
    (index loc e i).tally = e.tally * (.token Punctuation.lBracket * i.tally * .token Punctuation.rBracket) := by
  change (e.layout ++ inBrackets i.layout).tally (e.nodes ++ i.nodes) = _
  rw [tally_append, tally_inBrackets, tally, tally]

theorem tally_slice (loc : Location) (e : Expr) (low high : Option Expr) :
    (slice loc e low high none false).tally = e.tally * (.token Punctuation.lBracket
      * (.maybe (low.map tally) * .token Punctuation.colon * .maybe (high.map tally)) * .token Punctuation.rBracket) := by
  have h : (bounds (layoutOfExpr? low) (layoutOfExpr? high) none false)
      = maybe (layoutOfExpr? low) ++ Layout.token Punctuation.colon ++ maybe (layoutOfExpr? high) := by
    cases high <;> rfl
  change (e.layout ++ inBrackets (bounds (layoutOfExpr? low) (layoutOfExpr? high) none false)).tally
    (e.nodes ++ nodesOfExpr? low ++ nodesOfExpr? high ++ []) = _
  rw [h, List.append_nil, List.append_assoc, tally_append, tally_inBrackets, tally_append, tally_append_token, tally_ofExpr?,
    tally_ofExpr?, tally]

/-- A slice has the placeholders of its parts, whether or not it is well formed. -/
theorem placeholders_slice (loc : Location) (e : Expr) (low high max : Option Expr) (three : Bool) :
    (slice loc e low high max three).tally.placeholders = e.tally.placeholders + (Tally.maybe (low.map tally)).placeholders
      + (Tally.maybe (high.map tally)).placeholders + (Tally.maybe (max.map tally)).placeholders := by
  change ((placeholders (e.nodes ++ nodesOfExpr? low ++ nodesOfExpr? high ++ nodesOfExpr? max) : List Location)
    : Multiset Location) = _
  rw [← tally_ofExpr?, ← tally_ofExpr?, ← tally_ofExpr?]
  simp [tally, Layout.tally]

theorem tally_slice_three (loc : Location) (e : Expr) (low : Option Expr) (high max : Expr) :
    (slice loc e low (some high) (some max) true).tally = e.tally * (.token Punctuation.lBracket
      * (.maybe (low.map tally) * .token Punctuation.colon * high.tally * .token Punctuation.colon * max.tally)
      * .token Punctuation.rBracket) := by
  change (e.layout ++ inBrackets (maybe (layoutOfExpr? low) ++ Layout.token Punctuation.colon ++ high.layout
    ++ Layout.token Punctuation.colon ++ max.layout)).tally (e.nodes ++ nodesOfExpr? low ++ high.nodes ++ max.nodes) = _
  rw [List.append_assoc, List.append_assoc, tally_append, tally_inBrackets, ← List.append_assoc, tally_append,
    tally_append_token, tally_append, tally_append_token, tally_ofExpr?, tally, tally, tally]

theorem tally_star (loc : Location) (e : Expr) : (star loc e).tally = .token Operator.mul * e.tally :=
  tally_token_append Operator.mul e.layout e.nodes

theorem tally_unary (loc : Location) (op : Operator) (e : Expr) : (unary loc op e).tally = .token op * e.tally :=
  tally_token_append op e.layout e.nodes

theorem tally_binary (loc : Location) (op : Operator) (e e' : Expr) :
    (binary loc op e e').tally = e.tally * .token op * e'.tally := by
  change (e.layout ++ Layout.token op ++ e'.layout).tally (e.nodes ++ e'.nodes) = _
  rw [tally_append, tally_append_token, tally, tally]

theorem tally_keyValue (loc : Location) (key value : Expr) :
    (keyValue loc key value).tally = key.tally * .token Punctuation.colon * value.tally := by
  change (key.layout ++ Layout.token Punctuation.colon ++ value.layout).tally (key.nodes ++ value.nodes) = _
  rw [tally_append, tally_append_token, tally, tally]

theorem tally_arrayType (loc : Location) (length : ArrayLength) (elem : Expr) :
    (arrayType loc length elem).tally
      = .token Punctuation.lBracket * length.tally * .token Punctuation.rBracket * elem.tally := by
  change (inBrackets length.layout ++ elem.layout).tally (length.nodes ++ elem.nodes) = _
  rw [tally_append, tally_inBrackets, tally, ArrayLength.tally]

theorem tally_structType (loc : Location) (fields : List Field) :
    (structType loc fields).tally = .token Keyword.struct
      * (.token Punctuation.lBrace * .terminated (fields.map Field.tally) * .token Punctuation.rBrace) := by
  change (Layout.token Keyword.struct ++ inBraces (terminated (layoutsOfFields fields))).tally (nodesOfFields fields) = _
  rw [tally_token_append, tally_inBraces, tally_terminatedFields]

theorem tally_functionType (loc : Location) (sig : Signature) :
    (functionType loc sig).tally = .token Keyword.func * sig.tally :=
  tally_token_append Keyword.func sig.layout sig.nodes

theorem tally_interfaceType (loc : Location) (elems : List InterfaceElem) :
    (interfaceType loc elems).tally = .token Keyword.interface
      * (.token Punctuation.lBrace * .terminated (elems.map InterfaceElem.tally) * .token Punctuation.rBrace) := by
  change (Layout.token Keyword.interface ++ inBraces (terminated (layoutsOfElems elems))).tally (nodesOfElems elems) = _
  rw [tally_token_append, tally_inBraces, tally_terminatedElems]

theorem tally_mapType (loc : Location) (key value : Expr) :
    (mapType loc key value).tally = .token Keyword.map
      * (.token Punctuation.lBracket * key.tally * .token Punctuation.rBracket) * value.tally := by
  change (Layout.token Keyword.map ++ inBrackets key.layout ++ value.layout).tally (key.nodes ++ value.nodes) = _
  rw [tally_append, tally_token_append, tally_inBrackets, tally, tally]

theorem tally_channelType_both (loc : Location) (elem : Expr) :
    (channelType loc .both elem).tally = .token Keyword.chan * elem.tally :=
  tally_token_append Keyword.chan elem.layout elem.nodes

theorem tally_channelType_send (loc : Location) (elem : Expr) :
    (channelType loc .send elem).tally = .token Keyword.chan * .token Operator.arrow * elem.tally := by
  change (Layout.token Keyword.chan ++ Layout.token Operator.arrow ++ elem.layout).tally ([] ++ elem.nodes) = _
  rw [tally_append, tally_token_append, tally_token, tally]

theorem tally_channelType_receive (loc : Location) (elem : Expr) :
    (channelType loc .receive elem).tally = .token Operator.arrow * .token Keyword.chan * elem.tally := by
  change (Layout.token Operator.arrow ++ Layout.token Keyword.chan ++ elem.layout).tally ([] ++ elem.nodes) = _
  rw [tally_append, tally_token_append, tally_token, tally]

theorem tally_variadicType (loc : Location) (elem : Expr) :
    (variadicType loc elem).tally = .token Punctuation.ellipsis * elem.tally :=
  tally_token_append Punctuation.ellipsis elem.layout elem.nodes

end Expr

theorem ArrayLength.tally_slice : slice.tally = 1 := rfl

theorem ArrayLength.tally_inferred : inferred.tally = .token Punctuation.ellipsis := rfl

theorem ArrayLength.tally_fixed (length : Expr) : (fixed length).tally = length.tally := rfl

/-! ## Calls -/

/-- An argument, with the `...` behind it if there is one. -/
def argumentTally (arg : Expr × Bool) : Tally := arg.1.tally * if arg.2 then .token Punctuation.ellipsis else 1

theorem listed_arguments_le_of_none (args : List (Expr × Bool)) (h : args.any Prod.snd = false) :
    Tally.listed (args.map argumentTally) ≤ .listed ((args.map Prod.fst).map Expr.tally) := by
  rw [List.map_map]
  refine le_of_eq (congrArg _ (List.map_congr_left fun arg harg => ?_))
  have hb : arg.2 = false := by simpa using List.any_eq_false.1 h arg harg
  simp [argumentTally, hb]

theorem argumentTally_le (arg : Expr × Bool) :
    argumentTally arg
      ≤ (arg.1.layout ++ .either .empty (.token Punctuation.ellipsis)).tally arg.1.nodes := by
  have h : (arg.1.layout ++ Layout.either .empty (.token Punctuation.ellipsis)).tally arg.1.nodes
      = arg.1.tally * .optionalToken Punctuation.ellipsis := Tally.ext rfl (add_zero _).symm
  rw [h, argumentTally]
  refine mul_le_mul_right ?_ _
  split
  · exact Tally.token_le_optionalToken _
  · exact Tally.one_le_optionalToken _

/-- Arguments of which at least one is spread. -/
theorem listed_arguments_le_spread (args : List (Expr × Bool)) (h : args.any Prod.snd = true) :
    Tally.listed (args.map argumentTally)
      ≤ (Layout.spread ((args.map Prod.fst).map Expr.layout)).tally ((args.map Prod.fst).flatMap Expr.nodes) := by
  induction args with
  | nil => cases h
  | cons arg args ih =>
    obtain ⟨e, b⟩ := arg
    cases args with
    | nil =>
      obtain rfl : b = true := by simpa using h
      exact le_of_eq (Tally.ext rfl (by simp [Tally.listed, argumentTally, Expr.tally, Layout.tally]))
    | cons arg' args =>
      have hcons : Tally.listed (((e, b) :: arg' :: args).map argumentTally)
          = argumentTally (e, b) * .token Punctuation.comma * .listed ((arg' :: args).map argumentTally) := rfl
      have hnodes : (((e, b) :: arg' :: args).map Prod.fst).flatMap Expr.nodes
          = e.nodes ++ ((arg' :: args).map Prod.fst).flatMap Expr.nodes := rfl
      rw [hcons, hnodes]
      cases b with
      | false =>
        refine le_trans ?_ (Layout.tally_le_either_left _ _ _)
        rw [Layout.tally_append, Layout.tally_append_token]
        refine mul_le_mul' (le_of_eq ?_) (ih (by simpa using h))
        simp [argumentTally, Expr.tally]
      | true =>
        refine le_trans ?_ (Layout.tally_le_either_right _ _ _)
        rw [Layout.tally_append, Layout.tally_append_token, Layout.tally_append_token]
        refine mul_le_mul' (le_of_eq ?_) ?_
        · simp [argumentTally, Expr.tally]
        · have hrest := Layout.tally_separatedBy Punctuation.comma (.either .empty (.token Punctuation.comma))
            (fun x : Expr × Bool => x.1.layout ++ .either .empty (.token Punctuation.ellipsis)) (fun x => x.1.nodes)
            (arg' :: args)
          have hle := Tally.separatedBy_map_le argumentTally_le (.token Punctuation.comma)
            (.optionalToken Punctuation.comma) (arg' :: args)
          simp only [List.map_map, List.flatMap_map]
          exact hle.trans (le_of_eq hrest.symm)

/-- The arguments of a call; the call spreads its last one if a `...` stands behind one of them. -/
theorem Expr.mul_listed_arguments_le (loc : Location) (e : Expr) (args : List (Expr × Bool)) :
    e.tally * (.token Punctuation.lParen * .listed (args.map argumentTally) * .token Punctuation.rParen)
      ≤ (call loc e (args.map Prod.fst) (args.any Prod.snd)).tally := by
  change _ ≤ (e.layout ++ .inParens (.arguments (args.any Prod.snd) (layoutsOfExprs (args.map Prod.fst)))).tally
    (e.nodes ++ nodesOfExprs (args.map Prod.fst))
  rw [Layout.tally_append, Layout.tally_inParens]
  refine mul_le_mul_right (mul_le_mul_left (mul_le_mul_right ?_ _) _) _
  cases h : args.any Prod.snd with
  | false => exact (listed_arguments_le_of_none args h).trans (le_of_eq (tally_listedExprs _).symm)
  | true =>
    rw [layoutsOfExprs_eq, nodesOfExprs_eq]
    exact listed_arguments_le_spread args h

end GoSyntax
