import GoSyntax.Proofs.Recovery.Enclosures

/-!
# Declarations around a list that nothing closes

A list of members is enclosed by the tokens in front of it, the head of its declaration, and by the closing token. The head is read alike in
two runs that part behind the members. So if the second run has to leave the list unclosed, it leaves the declaration around it as well, and
all that it reports is the closing token.
-/

namespace GoSyntax

open Parse Cursor Grammar Productions

/-! ## Heads are read alike -/

namespace LeavesOpen

variable {shift : Location → Location} {ours theirs : Feed Token} {due : List Diagnostic} {closing : Punctuation} {α β : Type} [Movable α]
  [Movable β] {t : Token} {ts : List Token} {f g : Parse α}

theorem current {k k' : Token → Parse α} (h : LeavesOpen shift ours theirs due closing (t :: ts) (k t) (k' (moved shift t))) :
    LeavesOpen shift ours theirs due closing (t :: ts) (Parse.current >>= k) (Parse.current >>= k') := by
  intro c c' hparting hdues
  have hcurrent := current_of_dues hdues
  have hlooked := hparting.current (by rw [hcurrent]; exact hparting.clean)
  rw [hcurrent] at hlooked
  have hours : (Parse.current >>= k) c = k t c := by rw [bind_apply, hcurrent, hparting.here_eq]
  have htheirs : (Parse.current >>= k') c' = k' (moved shift t) (Parse.current c').2 := by
    rw [← hparting.here_eq']
    rfl
  rw [hours, htheirs]
  exact h _ _ hlooked hdues

theorem consume {k k' : Token → Parse α} (h : LeavesOpen shift ours theirs due closing ts (k t) (k' (moved shift t))) :
    LeavesOpen shift ours theirs due closing (t :: ts) (Parse.consume >>= k) (Parse.consume >>= k') := by
  intro c c' hparting hdues
  have htaken : (Parse.consume c).2.dues = [] := (dues_consume hparting.tokens).trans hdues
  have hours : (Parse.consume >>= k) c = k t (Parse.consume c).2 := by
    rw [← hparting.here_eq]
    rfl
  have htheirs : (Parse.consume >>= k') c' = k' (moved shift t) (Parse.consume c').2 := by
    rw [← hparting.here_eq']
    rfl
  rw [hours, htheirs]
  exact h _ _ (hparting.consume (eq_nil_of_dues htaken).1) htaken

theorem isAt {kind : TokenKind} {k k' : Bool → Parse α}
    (h : LeavesOpen shift ours theirs due closing (t :: ts) (k (t.kind.sameKind kind)) (k' (t.kind.sameKind kind))) :
    LeavesOpen shift ours theirs due closing (t :: ts) (Parse.isAt kind >>= k) (Parse.isAt kind >>= k') := by
  rw [Parse.isAt, bind_assoc, bind_assoc]
  refine .current ?_
  rw [pure_bind, pure_bind]
  exact h

theorem accept {kind : TokenKind} (hkind : t.kind.sameKind kind = true) {k k' : Bool → Parse α}
    (h : LeavesOpen shift ours theirs due closing ts (k true) (k' true)) :
    LeavesOpen shift ours theirs due closing (t :: ts) (Parse.accept kind >>= k) (Parse.accept kind >>= k') := by
  rw [accept_bind, accept_bind]
  refine .isAt ?_
  rw [if_pos hkind, if_pos hkind]
  exact .consume h

theorem acceptNot {kind : TokenKind} (hkind : t.kind.sameKind kind = false) {k k' : Bool → Parse α}
    (h : LeavesOpen shift ours theirs due closing (t :: ts) (k false) (k' false)) :
    LeavesOpen shift ours theirs due closing (t :: ts) (Parse.accept kind >>= k) (Parse.accept kind >>= k') := by
  rw [accept_bind, accept_bind]
  refine .isAt ?_
  rwa [hkind, if_neg Bool.false_ne_true, if_neg Bool.false_ne_true]

theorem expect {kind : TokenKind} (hkind : t.kind.sameKind kind = true) {k k' : Location → Parse α}
    (h : LeavesOpen shift ours theirs due closing ts (k t.loc) (k' (shift t.loc))) :
    LeavesOpen shift ours theirs due closing (t :: ts) (Parse.expect kind >>= k) (Parse.expect kind >>= k') := by
  rw [Parse.expect, bind_assoc, bind_assoc]
  refine .current ?_
  rw [bind_assoc, bind_assoc]
  refine .accept hkind ?_
  exact h

theorem name {text : String} (hkind : t.kind = .ident text) {k k' : Name → Parse α}
    (h : LeavesOpen shift ours theirs due closing ts (k ⟨t.loc, text⟩) (k' ⟨shift t.loc, text⟩)) :
    LeavesOpen shift ours theirs due closing (t :: ts) (Parse.name >>= k) (Parse.name >>= k') := by
  obtain ⟨kind, loc⟩ := t
  obtain rfl : kind = .ident text := hkind
  rw [Parse.name, bind_assoc, bind_assoc]
  refine .current ?_
  change LeavesOpen shift ours theirs due closing _ (Parse.consume >>= fun _ => k ⟨loc, text⟩)
    (Parse.consume >>= fun _ => k' ⟨shift loc, text⟩)
  exact .consume h

theorem map {r r' : α → β} (h : LeavesOpen shift ours theirs due closing ts f g) (hr : ∀ a, r' (moved shift a) = moved shift (r a)) :
    LeavesOpen shift ours theirs due closing ts (f >>= fun a => pure (r a)) (g >>= fun a => pure (r' a)) := by
  intro c c' hparting hdues hclean hend
  obtain ⟨hresult, hfeed, hreported⟩ := h c c' hparting hdues hclean hend
  refine ⟨?_, hfeed, hreported⟩
  change r' (g c').1 = _
  rw [hresult, hr]
  rfl

end LeavesOpen

/-! ## Enclosures -/

/-- What encloses a list of members: the braces of a struct or an interface of this name, or the parentheses of a group. -/
inductive Enclosure
  | struct (name : String)
  | interface (name : String)
  | group (keyword : Keyword) (declares : keyword ∈ [Keyword.const, .import, .type, .var])
  deriving DecidableEq, Repr

namespace Enclosure

/-- The keyword of the declaration. -/
def keyword : Enclosure → Keyword
  | .struct _ | .interface _ => .type
  | .group keyword _ => keyword

theorem declares : (e : Enclosure) → e.keyword ∈ [Keyword.const, .import, .type, .var]
  | .struct _ | .interface _ => (by decide : Keyword.type ∈ [Keyword.const, .import, .type, .var])
  | .group _ declares => declares

/-- The head of the declaration behind its keyword. -/
def head : Enclosure → List TokenKind
  | .struct name => [.ident name, .keyword .struct, .punctuation .lBrace]
  | .interface name => [.ident name, .keyword .interface, .punctuation .lBrace]
  | .group _ _ => [.punctuation .lParen]

/-- The kinds of the tokens in front of the members. -/
def opening (e : Enclosure) : List TokenKind := .keyword e.keyword :: e.head

/-- What closes the list of members. -/
def closing : Enclosure → Punctuation
  | .struct _ | .interface _ => .rBrace
  | .group _ _ => .rParen

/-- The number of tokens from the keyword of the declaration up to the closing token. -/
def reach (e : Enclosure) (members : List TokenKind) : Nat := e.opening.length + members.length

/-- Behind the head and behind members that a `;` ends a parser looks no further ahead. -/
theorem announces_of_getLast? (e : Enclosure) {members : List TokenKind}
    (h : ∀ kind, members.getLast? = some kind → kind = Punctuation.semicolon) {kind : TokenKind}
    (hkind : (e.opening ++ members).getLast? = some kind) : kind.announces = false := by
  rw [List.getLast?_append] at hkind
  rcases hlast : members.getLast? with _ | k
  · rw [hlast] at hkind
    cases e <;> cases hkind <;> rfl
  · rw [hlast] at hkind
    obtain rfl := Option.some.inj hkind
    rw [h k hlast]
    rfl

section Declarations

variable {shift : Location → Location} {ours theirs : Feed Token} {due : List Diagnostic} {ts : List Token} {t t₁ t₂ t₃ : Token}

theorem typeSpec_leavesOpen {name : String} (hname : t₁.kind = .ident name) {closing : Punctuation}
    (h : LeavesOpen shift ours theirs due closing ts (type full) (type full)) (loc : Location) :
    LeavesOpen shift ours theirs due closing (t₁ :: ts) (typeSpec full loc) (typeSpec full (shift loc)) :=
  .name hname (h.map fun _ => rfl)

/-- The declaration of one type is left unclosed if the type is. -/
theorem declGroup_type_leavesOpen {name : String} (hname : t₁.kind = .ident name) {closing : Punctuation}
    (h : LeavesOpen shift ours theirs due closing ts (type full) (type full)) :
    LeavesOpen shift ours theirs due closing (t :: t₁ :: ts) (declGroup full .type) (declGroup full .type) := by
  refine .consume (.acceptNot (by rw [hname]; rfl) ?_)
  refine .map (.current ?_) (fun _ => by simp)
  exact typeSpec_leavesOpen hname h _

/-- A body is left unclosed behind its brace. -/
theorem bodyItems_leavesOpen {β : Type} [Movable β] {starts : TokenKind → Bool} {item : Parse β} {missing : String → Fault}
    (hbrace : t.kind = .punctuation .lBrace)
    (h : ∀ items, LeavesOpen shift ours theirs due .rBrace ts (bodyRest starts item missing items)
      (bodyRest starts item missing (moved shift items))) :
    LeavesOpen shift ours theirs due .rBrace (t :: ts) (bodyItems starts item missing) (bodyItems starts item missing) := by
  have hopen : bodyItems starts item missing = Parse.expect Punctuation.lBrace >>= fun _ => bodyRest starts item missing #[] := rfl
  have hitems := h #[]
  rw [moved_empty] at hitems
  rw [hopen]
  exact .expect (by rw [hbrace]; rfl) hitems

/-- The lists are left unclosed at a keyword that starts a declaration. -/
structure Cut (ours theirs : Feed Token) (due : List Diagnostic) (closing : Punctuation) (ts : List Token) : Prop where
  lexical : Lexical due
  start : Recovery.declarationStart.contains (theirs.peek 0).kind = true
  ours : (ours.items.map fun n => n.value.kind) = [.punctuation closing, .punctuation .semicolon]
  last : ∀ kind, (ts.map Token.kind).getLast? = some kind → kind = Punctuation.semicolon

theorem structType_leavesOpen (hword : t.kind = .keyword .struct) (hbrace : t₁.kind = .punctuation .lBrace)
    (h : Cut ours theirs due .rBrace ts) :
    LeavesOpen shift ours theirs due .rBrace (t :: t₁ :: ts) (type full) (type full) := by
  have hfollows : ∀ B : Pursuit, full.Pursued B full → FollowsAt B (fun t => startsField t.kind = true) (field full) (field full) :=
    fun B hB => (field_follows hB).weaken fun _ _ => trivial
  have hitems : ∀ items, LeavesOpen shift ours theirs due .rBrace ts (bodyRest startsField (field full) .expectedField items)
      (bodyRest startsField (field full) .expectedField (moved shift items)) :=
    bodyRest_leavesOpen loopsEnd_full.fields (hfollows _ (pursued_of_reports fun _ => id)) (fun _ => TokenKind.endsBody_of_startsField)
      (hfollows _ (pursued_parting shift ours theirs due)) field_readsArmed h.lexical h.start h.ours h.last
  have hbody := bodyItems_leavesOpen hbrace hitems
  rw [type, type?_full, Grammar.type?, bind_assoc]
  refine .current ?_
  rw [Token.kind_moved, hword]
  change LeavesOpen shift ours theirs due .rBrace (t :: t₁ :: ts) (structType full) (structType full)
  exact .consume (hbody.map fun _ => by simp)

theorem interfaceType_leavesOpen (hword : t.kind = .keyword .interface) (hbrace : t₁.kind = .punctuation .lBrace)
    (h : Cut ours theirs due .rBrace ts) :
    LeavesOpen shift ours theirs due .rBrace (t :: t₁ :: ts) (type full) (type full) := by
  have hstarts : ∀ kind : TokenKind, kind.isIdent = true → endsBody kind = false := fun kind hident =>
    TokenKind.endsBody_of_startsField (Bool.or_eq_true_iff.2 (.inl hident))
  have hitems : ∀ items, LeavesOpen shift ours theirs due .rBrace ts (bodyRest TokenKind.isIdent (interfaceElem full) .expectedMethodSpec items)
      (bodyRest TokenKind.isIdent (interfaceElem full) .expectedMethodSpec (moved shift items)) :=
    bodyRest_leavesOpen loopsEnd_full.methods (interfaceElem_follows (pursued_of_reports fun _ => id)) hstarts
      (interfaceElem_follows (pursued_parting shift ours theirs due)) interfaceElem_readsArmed h.lexical h.start h.ours h.last
  have hbody := bodyItems_leavesOpen hbrace hitems
  rw [type, type?_full, Grammar.type?, bind_assoc]
  refine .current ?_
  rw [Token.kind_moved, hword]
  change LeavesOpen shift ours theirs due .rBrace (t :: t₁ :: ts) (interfaceType full) (interfaceType full)
  exact .consume (hbody.map fun _ => by simp)

/-- A group is left unclosed behind its parenthesis. -/
theorem declGroup_leavesOpen (keyword : Keyword) (hparen : t₁.kind = .punctuation .lParen) (h : Cut ours theirs due .rParen ts) :
    LeavesOpen shift ours theirs due .rParen (t :: t₁ :: ts) (declGroup full keyword) (declGroup full keyword) := by
  have hgroup : LeavesOpen shift ours theirs due .rParen ts (groupRest keyword (#[], true)) (groupRest keyword (moved shift (#[], true))) :=
    groupRest_leavesOpen keyword h.lexical h.start h.ours h.last _
  rw [moved_pair, moved_empty] at hgroup
  refine .consume (.accept (by rw [hparen]; rfl) ?_)
  exact .map (hgroup : LeavesOpen shift ours theirs due .rParen ts (specGroup full keyword) (specGroup full keyword)) fun _ => by simp

end Declarations

variable {shift : Location → Location} {ours theirs : Feed Token} {due : List Diagnostic} {ts : List Token}

/-- What a list that is not closed stands in is left with the list. -/
theorem leavesOpen (e : Enclosure) {us : List Token} (hopening : us.map Token.kind = e.opening) (h : Cut ours theirs due e.closing ts) :
    LeavesOpen shift ours theirs due e.closing (us ++ ts) (declGroup full e.keyword) (declGroup full e.keyword) := by
  cases e with
  | struct name =>
    obtain ⟨t, us, rfl, -, hus⟩ := List.map_eq_cons_iff.1 hopening
    obtain ⟨t₁, us, rfl, hname, hus⟩ := List.map_eq_cons_iff.1 hus
    obtain ⟨t₂, us, rfl, hword, hus⟩ := List.map_eq_cons_iff.1 hus
    obtain ⟨t₃, us, rfl, hbrace, hus⟩ := List.map_eq_cons_iff.1 hus
    obtain rfl := List.map_eq_nil_iff.1 hus
    exact declGroup_type_leavesOpen hname (structType_leavesOpen hword hbrace h)
  | interface name =>
    obtain ⟨t, us, rfl, -, hus⟩ := List.map_eq_cons_iff.1 hopening
    obtain ⟨t₁, us, rfl, hname, hus⟩ := List.map_eq_cons_iff.1 hus
    obtain ⟨t₂, us, rfl, hword, hus⟩ := List.map_eq_cons_iff.1 hus
    obtain ⟨t₃, us, rfl, hbrace, hus⟩ := List.map_eq_cons_iff.1 hus
    obtain rfl := List.map_eq_nil_iff.1 hus
    exact declGroup_type_leavesOpen hname (interfaceType_leavesOpen hword hbrace h)
  | group keyword declares =>
    obtain ⟨t, us, rfl, -, hus⟩ := List.map_eq_cons_iff.1 hopening
    obtain ⟨t₁, us, rfl, hparen, hus⟩ := List.map_eq_cons_iff.1 hus
    obtain rfl := List.map_eq_nil_iff.1 hus
    exact declGroup_leavesOpen keyword hparen h

end Enclosure

end GoSyntax
