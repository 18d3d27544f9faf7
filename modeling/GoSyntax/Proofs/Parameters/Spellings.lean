import GoSyntax.Proofs.Canonical.Trees
import GoSyntax.Proofs.Kinds.Taken

/-!
# Spellings of types

A type may be spelled in more ways than one. What spells a type at the end of a list of parameters or in front of a comma spells it in front
of another type as well, because a type ends with a name or with a token that closes it. Only a function type may go on behind its
parameters: a type that comes next is its result.
-/

namespace GoSyntax

open Parse Grammar Productions

/-- The last part of the type is the signature of a function. -/
def Expr.endsInFunction : Expr → Bool
  | .functionType _ _ => true
  | .star _ t | .arrayType _ _ t | .mapType _ _ t | .channelType _ _ t => t.endsInFunction
  | _ => false

theorem Expr.endsInFunction_shape : ∀ t : Expr, t.shape.endsInFunction = t.endsInFunction
  | .functionType _ _ => rfl
  | .star _ t | .arrayType _ _ t | .mapType _ _ t | .channelType _ _ t => t.endsInFunction_shape
  | .bad _ | .ident _ _ | .literal _ _ | .composite _ _ _ | .function _ _ _ | .paren _ _ | .selector _ _ _ | .assertion _ _ _
  | .index _ _ _ | .slice _ _ _ _ _ _ | .call _ _ _ _ | .unary _ _ _ | .binary _ _ _ _ | .keyValue _ _ _ | .structType _ _
  | .interfaceType _ _ | .variadicType _ _ => rfl

/-- These are tokens of a text, and in front of a comma or of the parenthesis that closes a list of parameters they are read as this type. -/
structure Expr.SpelledBy (t : Expr) (word : List TokenKind) : Prop where
  scanned : ∀ kind ∈ word, kind.IsScanned
  yields : ∀ rest, nextKind rest = .punctuation .comma ∨ nextKind rest = .punctuation .rParen →
    Yields (type? .full false) (fun r => ∃ t', r = some t' ∧ t'.shape = t.shape) (word ++ rest) rest

/-- A type that is read from these tokens in front of those is read from them in front of others too, unless it ends in a function. -/
def Detached (word rest : List TokenKind) : Prop :=
  ∀ t, Consumes (type .full) t word rest → t.endsInFunction = false → t.ReadsFrom word false

section Forms

variable {word rest : List TokenKind} {t : Expr}

theorem goesOnward_type : GoesOnward (type .full) := .of_pursued fun _ h => type_follows h

/-- A type that is not missing. -/
theorem Consumes.type (h : Consumes (Grammar.type .full) t word rest) : Consumes (type? .full false) (some t) word rest := by
  have hfirst : GoesOnward full.type? := by
    rw [type?_full]
    exact .of_pursued fun _ h => type?_follows h false
  have hmissing : GoesOnward (reportHere .expectedType) := .of_pursued fun _ _ => .reportHere _
  have hskip : GoesOnward (skipTo Recovery.operand) := .of_pursued fun _ _ => .skipTo _
  have hlook : GoesOnward Parse.current := .of_pursued fun _ _ => .current
  obtain ⟨r, u, v, rfl, hread, hlast⟩ := Consumes.bind h hfirst fun r => by
    cases r with
    | some t => exact .pure t
    | none => exact hlook.bind fun _ => hmissing.bind fun _ => hskip.bind fun _ => .pure _
  cases r with
  | some t' =>
    obtain ⟨rfl, rfl⟩ := hlast.pure
    rw [List.append_nil]
    rwa [type?_full] at hread
  | none =>
    obtain ⟨_, hlast⟩ := hlast.current
    obtain ⟨_, _, _, -, hreport, -⟩ := hlast.bind hmissing fun _ => hskip.bind fun _ => .pure _
    exact absurd hreport Consumes.not_reportHere

/-- A type name ends with its last name, or with its first one if no dot comes behind it. -/
theorem readsFrom_typeName (h : Consumes typeName t word rest) : t.ReadsFrom word false := by
  have hname : GoesOnward Parse.name := .of_pursued fun _ _ => .name
  have hdot : GoesOnward (Parse.accept Punctuation.dot) := .of_pursued fun _ _ => .accept _
  have hmore : ∀ (base : Name) (found : Bool), GoesOnward (if found = true then do
      return .selector base.loc (.ident base.loc base.text) (← Parse.name) else return .ident base.loc base.text : Parse Expr) := by
    intro base found
    split
    · exact hname.bind fun _ => .pure _
    · exact .pure _
  obtain ⟨base, u, v, rfl, hbase, hlast⟩ := Consumes.bind h hname fun base => hdot.bind (hmore base)
  obtain ⟨text, rfl, rfl⟩ := hbase.name
  obtain ⟨found, u, v, rfl, hfound, hend⟩ := Consumes.bind hlast hdot (hmore base)
  rcases hfound.accept with ⟨rfl, rfl⟩ | ⟨rfl, rfl, -⟩
  · rw [if_pos rfl] at hend
    obtain ⟨n, u, v, rfl, hn, hret⟩ := hend.bind hname fun _ => .pure _
    obtain ⟨text, rfl, rfl⟩ := hn.name
    obtain ⟨rfl, rfl⟩ := hret.pure
    exact Expr.readsAsType_typeName (t := .selector base.loc (.ident base.loc base.text) n) rfl
  · rw [if_neg Bool.false_ne_true] at hend
    obtain ⟨rfl, rfl⟩ := hend.pure
    exact Expr.readsAsType_typeName (t := .ident base.loc base.text) rfl

theorem readsFrom_pointerType (ih : ∀ v, v.length ≤ word.length → Detached v rest)
    (h : Consumes (pointerType .full) t (.operator .mul :: word) rest)
    (ht : t.endsInFunction = false) : t.ReadsFrom (.operator .mul :: word) false := by
  obtain ⟨_, h⟩ := Consumes.consume h
  obtain ⟨inner, u, v, rfl, hinner, hlast⟩ := h.bind goesOnward_type fun _ => .pure _
  obtain ⟨rfl, rfl⟩ := hlast.pure
  rw [List.append_nil] at ih ⊢
  exact Expr.readsFrom_star (ih u le_rfl inner hinner ht)

/-- The length of an array type is closed by its bracket. -/
theorem ArrayLength.readsFrom_of_consumes {l : ArrayLength} (h : Consumes (arrayLength .full false) l word rest) :
    ∃ u, word = u ++ [.punctuation .rBracket] ∧ l.ReadsFrom u false := by
  have hgiven : Pursued (givenLength .full false) := fun _ h =>
    (FollowsAt.andM (.pure rfl) (.accept _)).bind fun _ => .ite (.pure rfl) ((h.expr 0).bind fun _ => .pure rfl)
  have hclose : GoesOnward (Parse.expect Punctuation.rBracket) := .of_pursued fun _ _ => .expect _
  obtain ⟨found, u, v, rfl, hslice, hlast⟩ := Consumes.bind h (.of_pursued fun _ _ => .accept _) fun found => by
    split
    · exact .pure _
    · exact (GoesOnward.of_pursued hgiven).bind fun _ => hclose.bind fun _ => .pure _
  rcases hslice.accept with ⟨rfl, rfl⟩ | ⟨rfl, rfl, hnext⟩
  · rw [if_pos rfl] at hlast
    obtain ⟨rfl, rfl⟩ := hlast.pure
    exact ⟨[], rfl, fun tail => .ifAccept rfl (.ret rfl)⟩
  · rw [if_neg Bool.false_ne_true] at hlast
    obtain ⟨l', u, v, rfl, hlast, hread⟩ := hlast.closed (S := ArrayLength.shape) ArrayLength.shape_move hgiven fun _ => .pure _
    obtain ⟨rfl, rfl⟩ := hlast.pure
    refine ⟨u, rfl, fun tail => .ifNotAccept ?_ (.bind (hread tail) fun _ hl => .expect rfl fun _ => .ret hl)⟩
    cases u with
    | nil => nomatch hnext
    | cons first u => exact hnext

theorem readsFrom_arrayType (ih : ∀ v, v.length ≤ word.length → Detached v rest)
    (h : Consumes (arrayType .full false) t (.punctuation .lBracket :: word) rest) (ht : t.endsInFunction = false) :
    t.ReadsFrom (.punctuation .lBracket :: word) false := by
  obtain ⟨_, h⟩ := Consumes.consume h
  obtain ⟨length, u, v, rfl, hlength, h⟩ := h.bind (.of_pursued fun _ h => arrayLength_follows h false) fun _ =>
    goesOnward_type.bind fun _ => .pure _
  obtain ⟨elem, w, v, rfl, helem, hlast⟩ := h.bind goesOnward_type fun _ => .pure _
  obtain ⟨rfl, rfl⟩ := hlast.pure
  obtain ⟨u, rfl, hread⟩ := ArrayLength.readsFrom_of_consumes hlength
  rw [List.append_nil] at ih ⊢
  rw [List.append_assoc]
  exact Expr.readsFrom_arrayType hread (ih w (by simp; omega) elem helem ht)

theorem readsFrom_parenType (h : Consumes (parenType .full) t (.punctuation .lParen :: word) rest) :
    t.ReadsFrom (.punctuation .lParen :: word) false := by
  obtain ⟨_, h⟩ := Consumes.consume h
  obtain ⟨inner, u, v, rfl, hlast, hread⟩ := h.closed (S := Expr.shape) Expr.shape_move (fun _ h => type_follows h) fun _ => .pure _
  obtain ⟨rfl, rfl⟩ := hlast.pure
  exact Expr.readsFrom_paren hread

theorem readsFrom_mapType (ih : ∀ v, v.length ≤ word.length → Detached v rest) (h : Consumes (mapType .full) t (.keyword .map :: word) rest)
    (ht : t.endsInFunction = false) : t.ReadsFrom (.keyword .map :: word) false := by
  have hopen : GoesOnward (Parse.expect Punctuation.lBracket) := .of_pursued fun _ _ => .expect _
  have hclose : GoesOnward (Parse.expect Punctuation.rBracket) := .of_pursued fun _ _ => .expect _
  obtain ⟨_, h⟩ := Consumes.consume h
  obtain ⟨_, u, v, rfl, hbracket, hinside⟩ := h.bind hopen fun _ => goesOnward_type.bind fun _ => hclose.bind fun _ =>
    goesOnward_type.bind fun _ => .pure _
  obtain rfl := hbracket.expect
  obtain ⟨key, u, v, rfl, hbehind, hkey⟩ := hinside.closed (S := Expr.shape) Expr.shape_move (fun _ h => type_follows h) fun _ =>
    goesOnward_type.bind fun _ => .pure _
  obtain ⟨value, w, v, rfl, hvalue, hlast⟩ := hbehind.bind goesOnward_type fun _ => .pure _
  obtain ⟨rfl, rfl⟩ := hlast.pure
  rw [List.append_nil] at ih ⊢
  exact Expr.readsFrom_mapType hkey (ih w (by simp; omega) value hvalue ht)

/-- Where a channel may go either way, no arrow comes behind its keyword. -/
theorem channelDirection_of_consumes {direction : ChannelDirection} (h : Consumes channelDirection direction word rest) :
    word = direction.word ∧ (direction = .both → (nextKind rest).sameKind Operator.arrow = false) := by
  have hchan : GoesOnward (Parse.accept Keyword.chan) := .of_pursued fun _ _ => .accept _
  have harrow : GoesOnward (Parse.accept Operator.arrow) := .of_pursued fun _ _ => .accept _
  have hexpect : ∀ kind, GoesOnward (Parse.expect kind) := fun kind => .of_pursued fun _ _ => .expect kind
  have hsend : ∀ found : Bool, GoesOnward (if found = true then return .send else return .both : Parse ChannelDirection) := by
    intro found
    split <;> exact .pure _
  obtain ⟨found, u, v, rfl, hfound, hlast⟩ := Consumes.bind h hchan fun found => by
    split
    · exact harrow.bind hsend
    · exact (hexpect _).bind fun _ => (hexpect _).bind fun _ => .pure _
  rcases hfound.accept with ⟨rfl, rfl⟩ | ⟨rfl, rfl, -⟩
  · rw [if_pos rfl] at hlast
    obtain ⟨found, u, v, rfl, hfound, hret⟩ := hlast.bind harrow hsend
    rcases hfound.accept with ⟨rfl, rfl⟩ | ⟨rfl, rfl, hnext⟩
    · obtain ⟨rfl, rfl⟩ := hret.pure
      exact ⟨rfl, fun h => nomatch h⟩
    · obtain ⟨rfl, rfl⟩ := hret.pure
      exact ⟨rfl, fun _ => hnext⟩
  · rw [if_neg Bool.false_ne_true] at hlast
    obtain ⟨_, u, v, rfl, hfirst, hlast⟩ := hlast.bind (hexpect _) fun _ => (hexpect _).bind fun _ => .pure _
    obtain ⟨_, w, v, rfl, hsecond, hlast⟩ := hlast.bind (hexpect _) fun _ => .pure _
    obtain ⟨rfl, rfl⟩ := hlast.pure
    rw [hfirst.expect, hsecond.expect]
    exact ⟨rfl, fun h => nomatch h⟩

/-- A type starts with a token, if none starts behind it. -/
theorem exists_head_of_consumes (hrest : (nextKind rest).startsType = false) (h : Consumes (type? .full false) (some t) word rest) :
    ∃ kind tail, word = kind :: tail ∧ kind.startsType = true := by
  have hstart : (nextKind (word ++ rest)).startsType = true := by
    by_contra hnone
    have hyields : Yields (type? .full false) (· = none) (word ++ rest) (word ++ rest) := by
      rw [← type?_full]
      exact Yields.noType (eq_false_of_ne_true hnone)
    nomatch (h.of_every hyields).1
  cases word with
  | nil => exact absurd hstart (ne_true_of_eq_false hrest)
  | cons kind tail => exact ⟨kind, tail, rfl, hstart⟩

theorem readsFrom_channelType (ih : ∀ v, v.length < word.length → Detached v rest) (hrest : (nextKind rest).startsType = false)
    (h : Consumes (channelType .full) t word rest) (ht : t.endsInFunction = false) : t.ReadsFrom word false := by
  obtain ⟨_, h⟩ := Consumes.current h
  obtain ⟨direction, u, v, rfl, hdirection, h⟩ := h.bind (.of_pursued fun _ _ => channelDirection_follows) fun _ =>
    goesOnward_type.bind fun _ => .pure _
  obtain ⟨elem, w, v, rfl, helem, hlast⟩ := h.bind goesOnward_type fun _ => .pure _
  obtain ⟨rfl, rfl⟩ := hlast.pure
  obtain ⟨rfl, harrow⟩ := channelDirection_of_consumes hdirection
  rw [List.append_nil] at ih harrow ⊢
  have hshorter : w.length < (direction.word ++ w).length := by
    rw [List.length_append]
    cases direction <;> exact Nat.lt_add_of_pos_left (by decide)
  obtain ⟨kind, tail, rfl, -⟩ := exists_head_of_consumes hrest helem.type
  exact Expr.readsFrom_channelType (ih _ hshorter elem helem ht) fun hboth _ => harrow hboth

/-- Items in braces are closed by the second one. -/
theorem bodyItems_of_consumes {α γ : Type} [Movable α] {S : List α → γ} (hS : ∀ shift as, S (moved shift as) = S as)
    {starts : TokenKind → Bool}
    {item : Parse α} {missing : String → Fault} (hloop : Pursued (loop #[] (itemPass starts item missing))) {items : List α}
    (h : Consumes (bodyItems starts item missing) items word rest) :
    ∀ tail, Yields (bodyItems starts item missing) (fun items' => S items' = S items) (word ++ tail) tail := by
  have hopen : GoesOnward (Parse.expect Punctuation.lBrace) := .of_pursued fun _ _ => .expect _
  have hclose : GoesOnward (Parse.expect Punctuation.rBrace) := .of_pursued fun _ _ => .expect _
  have hmoved : ∀ shift (as : Array α), S (moved shift as).toList = S as.toList := by
    intro shift as
    rw [toList_moved, hS]
  obtain ⟨_, u, v, rfl, hbrace, hinside⟩ := Consumes.bind h hopen fun _ => (GoesOnward.of_pursued hloop).bind fun _ =>
    hclose.bind fun _ => .pure _
  obtain rfl := hbrace.expect
  obtain ⟨read, u, v, rfl, hlast, hread⟩ := hinside.closed (S := fun as : Array α => S as.toList) hmoved hloop fun _ => .pure _
  obtain ⟨rfl, rfl⟩ := hlast.pure
  intro tail
  rw [List.append_assoc, List.append_assoc]
  exact .expect rfl fun _ => .bind (hread tail) fun _ hitems => .expect rfl fun _ => .ret hitems

theorem readsFrom_structType (h : Consumes (structType .full) t (.keyword .struct :: word) rest) :
    t.ReadsFrom (.keyword .struct :: word) false := by
  have hloop : Pursued (loop #[] (itemPass startsField (field .full) .expectedField)) := fun _ h =>
    .loop h.paced.fields (by simp) fun items => itemPass_follows ((field_follows h).weaken fun _ _ => trivial) items
  have hshapes : ∀ shift (fields : List Field), shapesOfFields (moved shift fields) = shapesOfFields fields := by
    intro shift fields
    rw [← movesOfFields_eq, shapesOfFields_move]
  obtain ⟨_, h⟩ := Consumes.consume h
  obtain ⟨fields, u, v, rfl, hfields, hlast⟩ := h.bind (.of_pursued fun B h =>
    bodyItems_follows h.paced.fields ((field_follows h).weaken fun _ _ => trivial)) fun _ => .pure _
  obtain ⟨rfl, rfl⟩ := hlast.pure
  intro tail _
  rw [List.append_nil]
  refine .current fun _ => .someType (.consume fun _ => .bind (bodyItems_of_consumes hshapes hloop hfields tail) fun _ hshape => .ret ?_)
  rw [Expr.shape, Expr.shape, hshape]

theorem readsFrom_interfaceType (h : Consumes (interfaceType .full) t (.keyword .interface :: word) rest) :
    t.ReadsFrom (.keyword .interface :: word) false := by
  have hloop : Pursued (loop #[] (itemPass TokenKind.isIdent (interfaceElem .full) .expectedMethodSpec)) := fun _ h =>
    .loop h.paced.methods (by simp) fun items => itemPass_follows (interfaceElem_follows h) items
  have hshapes : ∀ shift (elems : List InterfaceElem), shapesOfElems (moved shift elems) = shapesOfElems elems := by
    intro shift elems
    rw [← movesOfElems_eq, shapesOfElems_move]
  obtain ⟨_, h⟩ := Consumes.consume h
  obtain ⟨elems, u, v, rfl, helems, hlast⟩ := h.bind (.of_pursued fun B h =>
    bodyItems_follows h.paced.methods (interfaceElem_follows h)) fun _ => .pure _
  obtain ⟨rfl, rfl⟩ := hlast.pure
  intro tail _
  rw [List.append_nil]
  refine .current fun _ => .someType (.consume fun _ => .bind (bodyItems_of_consumes hshapes hloop helems tail) fun _ hshape => .ret ?_)
  rw [Expr.shape, Expr.shape, hshape]

theorem endsInFunction_of_consumes (h : Consumes (functionType .full) t (.keyword .func :: word) rest) : t.endsInFunction = true := by
  obtain ⟨_, h⟩ := Consumes.consume h
  obtain ⟨sig, u, v, rfl, -, hlast⟩ := h.bind (.of_pursued fun _ h => signature_follows h) fun _ => .pure _
  obtain ⟨-, rfl⟩ := hlast.pure
  rfl

end Forms

/-- What a type is read from does not depend on what comes behind it, if it does not end in a function. -/
theorem detached (word : List TokenKind) {rest : List TokenKind} (hrest : (nextKind rest).startsType = false) : Detached word rest := by
  induction hlength : word.length using Nat.strong_induction_on generalizing word with
  | _ n ih =>
    subst hlength
    intro t h ht
    have hread := h.type
    obtain ⟨kind, tail, rfl, hstart⟩ := exists_head_of_consumes hrest hread
    have hshorter : ∀ v : List TokenKind, v.length < (kind :: tail).length → Detached v rest := fun v hv => ih _ hv v rfl
    have hparts : ∀ v : List TokenKind, v.length ≤ tail.length → Detached v rest := fun v hv => hshorter v (Nat.lt_succ_of_le hv)
    obtain ⟨loc, hform⟩ := hread.current
    cases kind with
    | ident text => exact readsFrom_typeName hform.of_map_some
    | punctuation mark =>
      cases mark with
      | lBracket => exact readsFrom_arrayType hparts hform.of_map_some ht
      | lParen => exact readsFrom_parenType hform.of_map_some
      | _ => nomatch hstart
    | operator op =>
      cases op with
      | mul => exact readsFrom_pointerType hparts hform.of_map_some ht
      | arrow => exact readsFrom_channelType hshorter hrest hform.of_map_some ht
      | _ => nomatch hstart
    | keyword word =>
      cases word with
      | struct => exact readsFrom_structType hform.of_map_some
      | interface => exact readsFrom_interfaceType hform.of_map_some
      | map => exact readsFrom_mapType hparts hform.of_map_some ht
      | chan => exact readsFrom_channelType hshorter hrest hform.of_map_some ht
      | func =>
        rw [endsInFunction_of_consumes hform.of_map_some] at ht
        nomatch ht
      | _ => nomatch hstart
    | _ => nomatch hstart

namespace Expr

variable {t : Expr} {word : List TokenKind}

/-- What spells a type is read as it in some run. -/
theorem SpelledBy.exists_consumes (h : t.SpelledBy word) :
    ∃ t', t'.shape = t.shape ∧ Consumes (type .full) t' word [.punctuation .comma] := by
  have hscanned : ∀ kind ∈ word ++ [.punctuation .comma], kind.IsScanned := by
    intro kind hkind
    rcases List.mem_append.1 hkind with hkind | hkind
    · exact h.scanned kind hkind
    · obtain rfl := List.mem_singleton.1 hkind
      trivial
  have hyields : Yields (type .full) (·.shape = t.shape) (word ++ [.punctuation .comma]) [.punctuation .comma] := by
    rw [type, type?_full]
    refine .bind (h.yields _ (.inl rfl)) ?_
    rintro _ ⟨t', rfl, ht'⟩
    exact .ret ht'
  refine Consumes.of_yields hyields (c := ⟨Cursor.numberedFrom 0 _, #[], Cursor.scanned_numberedFrom hscanned 0⟩) ⟨?_, rfl, ?_⟩
  · exact Cursor.pending_numberedFrom 0 _
  · rw [Cursor.kinds, Cursor.tokens, List.map_map]
    exact Cursor.kinds_numberedFrom 0 _

theorem SpelledBy.exists_head (h : t.SpelledBy word) : ∃ kind tail, word = kind :: tail ∧ kind.startsType = true := by
  obtain ⟨t', -, hread⟩ := h.exists_consumes
  exact exists_head_of_consumes (by rfl) hread.type

/-- What spells a type that does not end in a function spells it in front of everything but a dot. -/
theorem SpelledBy.readsFrom (h : t.SpelledBy word) (ht : t.endsInFunction = false) : t.ReadsFrom word false := by
  obtain ⟨t', ht', hread⟩ := h.exists_consumes
  have hends : t'.endsInFunction = false := by rw [← endsInFunction_shape, ht', endsInFunction_shape, ht]
  have hdetached := detached word (by rfl) t' hread hends
  rwa [ReadsFrom, ht'] at hdetached

/-- The word of a type spells it. -/
theorem spelledBy_word (h : t.IsType false) (hscanned : ∀ kind ∈ t.word, kind.IsScanned) : t.SpelledBy t.word where
  scanned := hscanned
  yields rest hrest := by
    refine t.readsAsType false h rest ?_
    rcases hrest with hrest | hrest <;> rw [hrest] <;> rfl

end Expr

end GoSyntax
