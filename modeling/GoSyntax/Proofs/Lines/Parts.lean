import Mathlib.Data.List.Basic
import GoSyntax.Grammar.Control
import GoSyntax.Proofs.TreeTally
import GoSyntax.Tree.Nodes

/-!
# The places of the parts of a tree

Whatever a parser gives has places: a part of a tree those of its nodes, a token and a location the one where it stands, and what tells only
of what has been read has none. A part of a tree stands where its first node does, and behind it come the places of its parts in turn, so
there is one equation for each constructor.

One list goes along another if it can be read off by walking over the other one from front to back: at each item the walk may stop for any
number of entries or pass it by, and it never turns back. What is known of items in their order is then known of the entries too.
-/

namespace GoSyntax

/-! ## Going along a list -/

/-- The first list goes along the second. -/
inductive Along {α : Type} : List α → List α → Prop
  | done (ms : List α) : Along [] ms
  | pass {m : α} {ls ms : List α} (h : Along ls ms) : Along ls (m :: ms)
  | stop {m : α} {ls ms : List α} (h : Along ls (m :: ms)) : Along (m :: ls) (m :: ms)

namespace Along

variable {α : Type} {ks ls ms ls' ms' : List α}

theorem cons (m : α) (h : Along ls ms) : Along (m :: ls) (m :: ms) := .stop (.pass h)

@[simp] theorem refl (ls : List α) : Along ls ls := by
  induction ls with
  | nil => exact .done []
  | cons m ls ih => exact ih.cons m

@[simp] theorem nil (ms : List α) : Along [] ms := .done ms

@[simp] theorem nil_right : Along ls [] ↔ ls = [] := by
  constructor
  · intro h
    cases h with
    | done => rfl
  · rintro rfl
    exact .done []

/-- Items in front may be passed by. -/
theorem behind (ks : List α) (h : Along ls ms) : Along ls (ks ++ ms) := by
  induction ks with
  | nil => exact h
  | cons k ks ih => exact .pass ih

theorem append (h : Along ls ms) (h' : Along ls' ms') : Along (ls ++ ls') (ms ++ ms') := by
  induction h with
  | done ms => exact h'.behind ms
  | pass _ ih => exact .pass ih
  | stop _ ih => exact .stop ih

theorem appendLeft (ks : List α) (h : Along ls ms) : Along (ks ++ ls) (ks ++ ms) := (refl ks).append h

theorem appendRight (h : Along ls ms) (ks : List α) : Along (ls ++ ks) (ms ++ ks) := h.append (refl ks)

/-- Two walks over one list do as one walk over the list that the second of them goes along. -/
theorem trans (h : Along ks ls) (h' : Along ls ms) : Along ks ms := by
  induction h' generalizing ks with
  | done ms =>
    rw [nil_right.1 h]
    exact .done ms
  | pass _ ih => exact .pass (ih h)
  | @stop m ls ms _ ih =>
    induction ks with
    | nil => exact .done _
    | cons k ks ihks =>
      cases h with
      | pass h => exact ih h
      | stop h => exact .stop (ihks h)

theorem subset (h : Along ls ms) : ls ⊆ ms := by
  induction h with
  | done ms => exact List.nil_subset ms
  | pass _ ih => exact List.subset_cons_of_subset _ ih
  | stop _ ih => exact List.cons_subset.2 ⟨List.mem_cons_self, ih⟩

/-- Items in order are met in order. An item at which the walk stops more than once is compared with itself. -/
theorem pairwise {R : α → α → Prop} (hrefl : ∀ a, R a a) (h : Along ls ms) (hms : ms.Pairwise R) : ls.Pairwise R := by
  induction h with
  | done ms => exact .nil
  | pass _ ih => exact ih (List.Pairwise.of_cons hms)
  | @stop m ls ms h ih =>
    refine .cons (fun a ha => ?_) (ih hms)
    rcases List.mem_cons.1 (h.subset ha) with rfl | ha
    · exact hrefl _
    · exact List.rel_of_pairwise_cons hms ha

/-- A walk over some of the items is a walk. -/
theorem of_sublist (h : List.Sublist ls ms) : Along ls ms := by
  induction h with
  | slnil => exact .done []
  | cons m _ ih => exact .pass ih
  | cons_cons m _ ih => exact ih.cons m

end Along

/-! ## What has places -/

/-- Something that a parser gives, with its places. -/
class HasPlaces (α : Type) where
  places : α → List Location

export HasPlaces (places)

instance : HasPlaces Unit := ⟨fun _ => []⟩
instance : HasPlaces Bool := ⟨fun _ => []⟩
instance : HasPlaces Nat := ⟨fun _ => []⟩
instance : HasPlaces ChannelDirection := ⟨fun _ => []⟩

instance : HasPlaces Location := ⟨fun l => [l]⟩
instance : HasPlaces Token := ⟨fun t => [t.loc]⟩
instance : HasPlaces Name := ⟨fun n => [n.loc]⟩
instance : HasPlaces Literal := ⟨fun l => [l.loc]⟩
instance : HasPlaces ImportSpec := ⟨fun s => s.nodes.map Node.loc⟩
instance : HasPlaces Expr := ⟨fun e => e.nodes.map Node.loc⟩
instance : HasPlaces ArrayLength := ⟨fun l => l.nodes.map Node.loc⟩
instance : HasPlaces Field := ⟨fun f => f.nodes.map Node.loc⟩
instance : HasPlaces Signature := ⟨fun s => s.nodes.map Node.loc⟩
instance : HasPlaces InterfaceElem := ⟨fun e => e.nodes.map Node.loc⟩
instance : HasPlaces Block := ⟨fun b => b.nodes.map Node.loc⟩
instance : HasPlaces Stmt := ⟨fun s => s.nodes.map Node.loc⟩
instance : HasPlaces CaseClause := ⟨fun c => c.nodes.map Node.loc⟩
instance : HasPlaces CommClause := ⟨fun c => c.nodes.map Node.loc⟩
instance : HasPlaces DeclGroup := ⟨fun g => g.nodes.map Node.loc⟩
instance : HasPlaces Spec := ⟨fun s => s.nodes.map Node.loc⟩
instance : HasPlaces FuncDecl := ⟨fun f => f.nodes.map Node.loc⟩
instance : HasPlaces Decl := ⟨fun d => d.nodes.map Node.loc⟩
instance : HasPlaces SourceFile := ⟨SourceFile.locations⟩

variable {α β : Type} [HasPlaces α] [HasPlaces β]

instance : HasPlaces (List α) := ⟨fun l => l.flatMap places⟩
instance : HasPlaces (Array α) := ⟨fun l => places l.toList⟩
instance : HasPlaces (Option α) := ⟨fun a => places a.toList⟩
instance : HasPlaces (α × β) := ⟨fun a => places a.1 ++ places a.2⟩
instance : HasPlaces (ForInStep α) := ⟨fun a => places a.value⟩

instance : HasPlaces Grammar.Simple := ⟨fun
  | .stmt s => places s
  | .range vars _ operand => places vars ++ places operand⟩

instance : HasPlaces Grammar.LoopHeader := ⟨fun
  | .clauses init cond post => places init ++ places cond ++ places post
  | .range vars _ operand => places vars ++ places operand⟩

/-! ## Lists and the like -/

@[simp] theorem places_nil : places ([] : List α) = [] := rfl
@[simp] theorem places_cons (a : α) (l : List α) : places (a :: l) = places a ++ places l := rfl
@[simp] theorem places_append (l l' : List α) : places (l ++ l') = places l ++ places l' := List.flatMap_append
@[simp] theorem places_toList (l : Array α) : places l.toList = places l := rfl
@[simp] theorem places_empty : places (#[] : Array α) = [] := rfl
@[simp] theorem places_push (l : Array α) (a : α) : places (l.push a) = places l ++ places a := by
  rw [← places_toList, Array.toList_push, places_append, places_cons, places_nil, List.append_nil, places_toList]
@[simp] theorem places_none : places (none : Option α) = [] := rfl
@[simp] theorem places_some (a : α) : places (some a) = places a := List.append_nil _
@[simp] theorem places_pair (a : α) (b : β) : places (a, b) = places a ++ places b := rfl
@[simp] theorem places_yield (a : α) : places (ForInStep.yield a) = places a := rfl
@[simp] theorem places_done (a : α) : places (ForInStep.done a) = places a := rfl
@[simp] theorem places_unit (a : Unit) : places a = [] := rfl
@[simp] theorem places_bool (a : Bool) : places a = [] := rfl
@[simp] theorem places_direction (a : ChannelDirection) : places a = [] := rfl

/-- Members that go along others in turn do so all together. -/
theorem along_map {r : α → β} (h : ∀ a, Along (places (r a)) (places a)) (l : List α) : Along (places (l.map r)) (places l) := by
  induction l with
  | nil => exact .refl _
  | cons a l ih => exact (h a).append ih

/-! ## Nodes -/

@[simp] theorem places_location (l : Location) : places l = [l] := rfl
@[simp] theorem places_token (t : Token) : places t = [t.loc] := rfl
@[simp] theorem places_name (n : Name) : places n = [n.loc] := rfl
@[simp] theorem places_literal (l : Literal) : places l = [l.loc] := rfl
@[simp] theorem loc_name (n : Name) : (Node.name n).loc = n.loc := rfl

/-- The places below a list of parts are those of the parts. -/
theorem map_loc_flatMap {nodes : α → List Node} (h : ∀ a, (nodes a).map Node.loc = places a) (l : List α) :
    (l.flatMap nodes).map Node.loc = places l := by
  rw [List.map_flatMap]
  exact congrArg (l.flatMap ·) (funext h)

@[simp] theorem map_loc_names (ns : List Name) : (nodesOfNames ns).map Node.loc = places ns := by
  rw [nodesOfNames, List.map_map, List.map_eq_flatMap]
  rfl
@[simp] theorem map_loc_name? (n : Option Name) : (n.map Node.name).toList.map Node.loc = places n := by cases n <;> rfl
@[simp] theorem map_loc_literal? (l : Option Literal) : (nodesOfLiteral? l).map Node.loc = places l := by cases l <;> rfl
@[simp] theorem map_loc_exprs (es : List Expr) : (nodesOfExprs es).map Node.loc = places es := by
  rw [nodesOfExprs_eq]
  exact map_loc_flatMap (fun _ => rfl) es
@[simp] theorem map_loc_fields (fs : List Field) : (nodesOfFields fs).map Node.loc = places fs := by
  rw [nodesOfFields_eq]
  exact map_loc_flatMap (fun _ => rfl) fs
@[simp] theorem map_loc_elems (es : List InterfaceElem) : (nodesOfElems es).map Node.loc = places es := by
  rw [nodesOfElems_eq]
  exact map_loc_flatMap (fun _ => rfl) es
@[simp] theorem map_loc_stmts (ss : List Stmt) : (nodesOfStmts ss).map Node.loc = places ss := by
  rw [nodesOfStmts_eq]
  exact map_loc_flatMap (fun _ => rfl) ss
@[simp] theorem map_loc_cases (cs : List CaseClause) : (nodesOfCases cs).map Node.loc = places cs := by
  rw [nodesOfCases_eq]
  exact map_loc_flatMap (fun _ => rfl) cs
@[simp] theorem map_loc_comms (cs : List CommClause) : (nodesOfComms cs).map Node.loc = places cs := by
  rw [nodesOfComms_eq]
  exact map_loc_flatMap (fun _ => rfl) cs
@[simp] theorem map_loc_specs (ss : List Spec) : (nodesOfSpecs ss).map Node.loc = places ss := by
  rw [nodesOfSpecs_eq]
  exact map_loc_flatMap (fun _ => rfl) ss
@[simp] theorem map_loc_expr? (e : Option Expr) : (nodesOfExpr? e).map Node.loc = places e := by
  cases e with
  | none => rfl
  | some e => exact (places_some e).symm
@[simp] theorem map_loc_stmt? (s : Option Stmt) : (nodesOfStmt? s).map Node.loc = places s := by
  cases s with
  | none => rfl
  | some s => exact (places_some s).symm
@[simp] theorem map_loc_fields? (fs : Option (List Field)) : (nodesOfFields? fs).map Node.loc = places fs := by
  cases fs with
  | none => rfl
  | some fs => rw [places_some, nodesOfFields?, map_loc_fields]
@[simp] theorem map_loc_block? (b : Option Block) : (nodesOfBlock? b).map Node.loc = places b := by
  cases b with
  | none => rfl
  | some b => exact (places_some b).symm
@[simp] theorem map_loc_caseList (es : Option (List Expr)) : (nodesOfCaseList es).map Node.loc = places es := by
  cases es with
  | none => rfl
  | some es => rw [places_some, nodesOfCaseList, map_loc_exprs]

@[simp] theorem map_loc_import (s : ImportSpec) : s.nodes.map Node.loc = places s := rfl
@[simp] theorem map_loc_expr (e : Expr) : e.nodes.map Node.loc = places e := rfl
@[simp] theorem map_loc_length (l : ArrayLength) : l.nodes.map Node.loc = places l := rfl
@[simp] theorem map_loc_signature (s : Signature) : s.nodes.map Node.loc = places s := rfl
@[simp] theorem map_loc_block (b : Block) : b.nodes.map Node.loc = places b := rfl
@[simp] theorem map_loc_stmt (s : Stmt) : s.nodes.map Node.loc = places s := rfl
@[simp] theorem map_loc_group (g : DeclGroup) : g.nodes.map Node.loc = places g := rfl
@[simp] theorem map_loc_func (f : FuncDecl) : f.nodes.map Node.loc = places f := rfl

/-! ## Expressions -/

namespace Expr

variable (loc : Location)

@[simp] theorem places_bad : places (bad loc) = [loc] := rfl

@[simp] theorem places_ident (name : String) : places (ident loc name) = [loc] := rfl

@[simp] theorem places_literal (value : Constant) : places (literal loc value) = [loc] := rfl

@[simp] theorem places_composite (type : Option Expr) (elements : List Expr) :
    places (composite loc type elements) = loc :: (places type ++ places elements) :=
  congrArg (loc :: ·) (by simp)

@[simp] theorem places_function (sig : Signature) (body : Block) : places (function loc sig body) = loc :: (places sig ++ places body) :=
  congrArg (loc :: ·) (by simp)

@[simp] theorem places_paren (inner : Expr) : places (paren loc inner) = loc :: places inner :=
  congrArg (loc :: ·) (by simp)

@[simp] theorem places_selector (operand : Expr) (field : Name) :
    places (selector loc operand field) = loc :: (places operand ++ places field) :=
  congrArg (loc :: ·) (by simp)

@[simp] theorem places_assertion (operand : Expr) (type : Option Expr) :
    places (assertion loc operand type) = loc :: (places operand ++ places type) :=
  congrArg (loc :: ·) (by simp)

@[simp] theorem places_index (operand subscript : Expr) :
    places (index loc operand subscript) = loc :: (places operand ++ places subscript) :=
  congrArg (loc :: ·) (by simp)

@[simp] theorem places_slice (operand : Expr) (low high max : Option Expr) (three : Bool) :
    places (slice loc operand low high max three) = loc :: (places operand ++ places low ++ places high ++ places max) :=
  congrArg (loc :: ·) (by simp)

@[simp] theorem places_call (callee : Expr) (args : List Expr) (spread : Bool) :
    places (call loc callee args spread) = loc :: (places callee ++ places args) :=
  congrArg (loc :: ·) (by simp)

@[simp] theorem places_star (operand : Expr) : places (star loc operand) = loc :: places operand :=
  congrArg (loc :: ·) (by simp)

@[simp] theorem places_unary (op : Operator) (operand : Expr) : places (unary loc op operand) = loc :: places operand :=
  congrArg (loc :: ·) (by simp)

@[simp] theorem places_binary (op : Operator) (left right : Expr) :
    places (binary loc op left right) = loc :: (places left ++ places right) :=
  congrArg (loc :: ·) (by simp)

@[simp] theorem places_keyValue (key value : Expr) : places (keyValue loc key value) = loc :: (places key ++ places value) :=
  congrArg (loc :: ·) (by simp)

@[simp] theorem places_arrayType (length : ArrayLength) (elem : Expr) :
    places (arrayType loc length elem) = loc :: (places length ++ places elem) :=
  congrArg (loc :: ·) (by simp)

@[simp] theorem places_structType (fields : List Field) : places (structType loc fields) = loc :: places fields :=
  congrArg (loc :: ·) (by simp)

@[simp] theorem places_functionType (sig : Signature) : places (functionType loc sig) = loc :: places sig :=
  congrArg (loc :: ·) (by simp)

@[simp] theorem places_interfaceType (elems : List InterfaceElem) : places (interfaceType loc elems) = loc :: places elems :=
  congrArg (loc :: ·) (by simp)

@[simp] theorem places_mapType (key value : Expr) : places (mapType loc key value) = loc :: (places key ++ places value) :=
  congrArg (loc :: ·) (by simp)

@[simp] theorem places_channelType (direction : ChannelDirection) (elem : Expr) :
    places (channelType loc direction elem) = loc :: places elem :=
  congrArg (loc :: ·) (by simp)

@[simp] theorem places_variadicType (elem : Expr) : places (variadicType loc elem) = loc :: places elem :=
  congrArg (loc :: ·) (by simp)

/-- An expression stands where its first node does. -/
theorem exists_places (e : Expr) : ∃ rest, places e = e.loc :: rest := by cases e <;> exact ⟨_, rfl⟩

end Expr

@[simp] theorem ArrayLength.places_slice : places slice = [] := rfl
@[simp] theorem ArrayLength.places_inferred : places inferred = [] := rfl
@[simp] theorem ArrayLength.places_fixed (length : Expr) : places (fixed length) = places length := rfl

@[simp] theorem Field.places_mk (loc : Location) (names : List Name) (type : Expr) (tag : Option Literal) :
    places (Field.mk loc names type tag) = loc :: (places names ++ places type ++ places tag) := congrArg (loc :: ·) (by simp)

@[simp] theorem Signature.places_mk (params results : List Field) :
    places (Signature.mk params results) = places params ++ places results := by
  change List.map Node.loc (nodesOfFields params ++ nodesOfFields results) = _
  simp

@[simp] theorem InterfaceElem.places_method (loc : Location) (name : Name) (sig : Signature) :
    places (method loc name sig) = loc :: (places name ++ places sig) := rfl

@[simp] theorem InterfaceElem.places_embedded (loc : Location) (type : Expr) : places (embedded loc type) = loc :: places type := rfl

@[simp] theorem Block.places_mk (loc : Location) (stmts : List Stmt) : places (Block.mk loc stmts) = loc :: places stmts :=
  congrArg (loc :: ·) (by simp)

/-! ## Statements -/

namespace Stmt

variable (loc : Location)

@[simp] theorem places_bad : places (bad loc) = [loc] := rfl

@[simp] theorem places_empty : places (empty loc) = [loc] := rfl

@[simp] theorem places_declaration (group : DeclGroup) : places (declaration loc group) = loc :: places group :=
  congrArg (loc :: ·) (by simp)

@[simp] theorem places_labeled (label : Name) (stmt : Stmt) : places (labeled loc label stmt) = loc :: (places label ++ places stmt) :=
  congrArg (loc :: ·) (by simp)

@[simp] theorem places_expr (e : Expr) : places (expr loc e) = loc :: places e :=
  congrArg (loc :: ·) (by simp)

@[simp] theorem places_send (channel value : Expr) : places (send loc channel value) = loc :: (places channel ++ places value) :=
  congrArg (loc :: ·) (by simp)

@[simp] theorem places_incDec (op : Operator) (operand : Expr) : places (incDec loc op operand) = loc :: places operand :=
  congrArg (loc :: ·) (by simp)

@[simp] theorem places_assign (op : Operator) (left right : List Expr) :
    places (assign loc op left right) = loc :: (places left ++ places right) :=
  congrArg (loc :: ·) (by simp)

@[simp] theorem places_go (call : Expr) : places (go loc call) = loc :: places call :=
  congrArg (loc :: ·) (by simp)

@[simp] theorem places_defer (call : Expr) : places (defer loc call) = loc :: places call :=
  congrArg (loc :: ·) (by simp)

@[simp] theorem places_return (values : List Expr) : places (Stmt.return loc values) = loc :: places values :=
  congrArg (loc :: ·) (by simp)

@[simp] theorem places_branch (keyword : Keyword) (label : Option Name) : places (branch loc keyword label) = loc :: places label :=
  congrArg (loc :: ·) (by simp)

@[simp] theorem places_if (init : Option Stmt) (cond : Expr) (body : Block) (otherwise : Option Stmt) :
    places (Stmt.if loc init cond body otherwise) = loc :: (places init ++ places cond ++ places body ++ places otherwise) :=
  congrArg (loc :: ·) (by simp)

@[simp] theorem places_switch (init : Option Stmt) (tag : Option Expr) (clauses : List CaseClause) :
    places (switch loc init tag clauses) = loc :: (places init ++ places tag ++ places clauses) :=
  congrArg (loc :: ·) (by simp)

@[simp] theorem places_typeSwitch (init : Option Stmt) (guard : Stmt) (clauses : List CaseClause) :
    places (typeSwitch loc init guard clauses) = loc :: (places init ++ places guard ++ places clauses) :=
  congrArg (loc :: ·) (by simp)

@[simp] theorem places_select (clauses : List CommClause) : places (select loc clauses) = loc :: places clauses :=
  congrArg (loc :: ·) (by simp)

@[simp] theorem places_for (init : Option Stmt) (cond : Option Expr) (post : Option Stmt) (body : Block) :
    places (Stmt.for loc init cond post body) = loc :: (places init ++ places cond ++ places post ++ places body) :=
  congrArg (loc :: ·) (by simp)

@[simp] theorem places_range (key value : Option Expr) (define : Bool) (operand : Expr) (body : Block) :
    places (range loc key value define operand body) = loc :: (places key ++ places value ++ places operand ++ places body) :=
  congrArg (loc :: ·) (by simp)

@[simp] theorem places_block (body : Block) : places (block body) = places body := by
  obtain ⟨loc, stmts⟩ := body
  rfl

/-- A statement stands where its first node does. -/
theorem exists_places (s : Stmt) : ∃ rest, places s = s.loc :: rest := by
  cases s with
  | block body =>
    obtain ⟨loc, stmts⟩ := body
    exact ⟨_, rfl⟩
  | _ => exact ⟨_, rfl⟩

end Stmt

@[simp] theorem CaseClause.places_mk (loc : Location) (list : Option (List Expr)) (body : List Stmt) :
    places (CaseClause.mk loc list body) = loc :: (places list ++ places body) := congrArg (loc :: ·) (by simp)

@[simp] theorem CommClause.places_mk (loc : Location) (comm : Option Stmt) (body : List Stmt) :
    places (CommClause.mk loc comm body) = loc :: (places comm ++ places body) := congrArg (loc :: ·) (by simp)

@[simp] theorem simple_places_stmt (s : Stmt) : places (Grammar.Simple.stmt s) = places s := rfl

@[simp] theorem simple_places_range (vars : List Expr) (define : Bool) (operand : Expr) :
    places (Grammar.Simple.range vars define operand) = places vars ++ places operand := rfl

@[simp] theorem loopHeader_places_clauses (init cond post : Option Stmt) :
    places (Grammar.LoopHeader.clauses init cond post) = places init ++ places cond ++ places post := rfl

@[simp] theorem loopHeader_places_range (vars : List Expr) (define : Bool) (operand : Expr) :
    places (Grammar.LoopHeader.range vars define operand) = places vars ++ places operand := rfl

/-! ## Declarations -/

@[simp] theorem ImportSpec.places_mk (name : Option Name) (path : Literal) :
    places (ImportSpec.mk name path) = places name ++ places path := by
  change List.map Node.loc ((name.map Node.name).toList ++ [.literal path]) = _
  rw [List.map_append, map_loc_name?]
  rfl

@[simp] theorem DeclGroup.places_mk (keyword : Keyword) (specs : List Spec) (grouped : Bool) :
    places (DeclGroup.mk keyword specs grouped) = places specs := map_loc_specs specs

namespace Spec

variable (loc : Location)

@[simp] theorem places_import (spec : ImportSpec) : places (Spec.import loc spec) = loc :: places spec := rfl

@[simp] theorem places_value (names : List Name) (type : Option Expr) (values : List Expr) :
    places (value loc names type values) = loc :: (places names ++ places type ++ places values) := congrArg (loc :: ·) (by simp)

@[simp] theorem places_type (name : Name) (type : Expr) : places (Spec.type loc name type) = loc :: (places name ++ places type) := rfl

end Spec

@[simp] theorem FuncDecl.places_mk (receiver : Option (List Field)) (name : Name) (sig : Signature) (body : Option Block) :
    places (FuncDecl.mk receiver name sig body) = places receiver ++ places name ++ places sig ++ places body := by
  change List.map Node.loc (nodesOfFields? receiver ++ .name name :: sig.nodes ++ nodesOfBlock? body) = _
  simp

@[simp] theorem Decl.places_bad (loc : Location) : places (bad loc) = [loc] := rfl

@[simp] theorem Decl.places_group (loc : Location) (g : DeclGroup) : places (group loc g) = loc :: places g := rfl

@[simp] theorem Decl.places_func (loc : Location) (f : FuncDecl) : places (func loc f) = loc :: places f := rfl

@[simp] theorem SourceFile.places_mk (loc : Location) (package : Name) (decls : List Decl) :
    places (SourceFile.mk loc package decls) = loc :: (places package ++ places decls) := by
  change loc :: List.map Node.loc (.name package :: decls.flatMap Decl.nodes) = _
  rw [List.map_cons, map_loc_flatMap fun _ => rfl]
  rfl

/-! ## Where parts start -/

theorem Along.of_stop {α : Type} {m : α} {ls ms : List α} (h : Along (m :: ls) ms) : Along ls ms := by
  generalize hks : m :: ls = ks at h
  induction h with
  | done => nomatch hks
  | pass _ ih => exact .pass (ih hks)
  | stop h _ =>
    obtain ⟨rfl, rfl⟩ := List.cons.inj hks
    exact h

namespace Expr

variable (e : Expr) (ls ms : List Location)

@[simp] theorem loc_mem_places : e.loc ∈ places e := by
  obtain ⟨rest, hplaces⟩ := e.exists_places
  rw [hplaces]
  exact List.mem_cons_self

/-- What starts with an expression starts where the expression does. -/
@[simp] theorem along_loc : Along (e.loc :: ls) (places e ++ ms) ↔ Along ls (places e ++ ms) := by
  obtain ⟨rest, hplaces⟩ := e.exists_places
  rw [hplaces]
  exact ⟨Along.of_stop, Along.stop⟩

@[simp] theorem along_loc_alone : Along (e.loc :: ls) (places e) ↔ Along ls (places e) := by
  simpa using e.along_loc ls []

end Expr

@[simp] theorem Stmt.loc_mem_places (s : Stmt) : s.loc ∈ places s := by
  obtain ⟨rest, hplaces⟩ := s.exists_places
  rw [hplaces]
  exact List.mem_cons_self

end GoSyntax
