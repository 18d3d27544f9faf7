import GoSyntax.Proofs.Kinds.Tells
import GoSyntax.Proofs.Parameters.Spellings

/-!
# Lists of parameters

A list of parameters is written down as groups of names with a type, or as types without names. It is read as fields of these names and
types, and each variadic type is reported that stands where none may. The entries in front of the first type that no comma precedes are
read as types themselves; an entry that is no name is reported where it turns out to have been one.
-/

namespace GoSyntax

open Parse Grammar Productions

/-! ## How parameters are written -/

/-- A type and the tokens that spell it. -/
structure SpelledType where
  type : Expr
  word : List TokenKind
  spelled : type.SpelledBy word

/-- The type of a group of parameters, with dots in front of it or without. -/
structure WrittenType extends SpelledType where
  variadic : Bool

/-- A group of parameters: names, which may be missing, and a type. -/
structure WrittenGroup where
  names : List Name
  type : WrittenType

theorem SpelledType.startsType (x : SpelledType) (tail : List TokenKind) : (nextKind (x.word ++ tail)).startsType = true := by
  obtain ⟨kind, rest, hword, hstart⟩ := x.spelled.exists_head
  rw [hword]
  exact hstart

namespace WrittenType

/-- The dots of a variadic type and what comes behind them. -/
def spelling (t : WrittenType) : List TokenKind := if t.variadic then .punctuation .ellipsis :: t.word else t.word

/-- The tree of the type, locations aside. -/
def expr (t : WrittenType) : Expr := if t.variadic then .variadicType default t.type.shape else t.type.shape

/-- Dots or the type come first. -/
theorem startsParameter (t : WrittenType) (tail : List TokenKind) : (nextKind (t.spelling ++ tail)).startsParameter = true := by
  obtain ⟨x, dots⟩ := t
  cases dots with
  | true => rfl
  | false => exact Bool.or_eq_true_iff.2 (.inl (x.startsType tail))

end WrittenType

namespace WrittenGroup

/-- Names with commas between them and the type behind them. -/
def word (g : WrittenGroup) : List TokenKind := namesWord g.names ++ g.type.spelling

/-- The field that the group stands for, locations aside. -/
def field (g : WrittenGroup) : Field := ⟨default, g.names.map Name.shape, g.type.expr, none⟩

/-- A name comes first, or dots, or the type. -/
theorem startsParameter (g : WrittenGroup) (tail : List TokenKind) : (nextKind (g.word ++ tail)).startsParameter = true := by
  obtain ⟨names, t⟩ := g
  cases names with
  | nil => exact t.startsParameter tail
  | cons n ns =>
    rw [word, namesWord_cons]
    rfl

end WrittenGroup

/-- A comma in front of the parenthesis that closes a list. -/
def trailingComma (comma : Bool) : List TokenKind := if comma then [.punctuation .comma] else []

/-! ## What is reported -/

/-- A variadic type where none may stand is reported where its dots are. -/
def Expr.refused (allowed : Bool) : Expr → List Diagnostic
  | .variadicType loc _ => if allowed then [] else [⟨.illegalVariadic, loc⟩]
  | _ => []

/-- A variadic type may stand in the last field of a list of parameters, if the field has at most one name. -/
def refusals (variadic : Bool) : List Field → List Diagnostic
  | [] => []
  | f :: fs => f.type.refused (variadic && fs.isEmpty && f.names.length ≤ 1) ++ refusals variadic fs

/-- The name that an entry of a list turns out to be. -/
def Expr.asName : Expr → Name
  | .ident loc text => ⟨loc, text⟩
  | entry => ⟨entry.loc, "_"⟩

/-- An entry that should have been a name is reported if it is none. -/
def Expr.misnamed : Expr → List Diagnostic
  | .ident _ _ => []
  | entry => [⟨.expectedIdentifier (describe entry), entry.loc⟩]

theorem Expr.refused_true (t : Expr) : t.refused true = [] := by cases t <;> rfl

theorem refusals_false (fields : List Field) : refusals false fields = fields.flatMap (·.type.refused false) := by
  induction fields with
  | nil => rfl
  | cons f fs ih => rw [refusals, ih, Bool.false_and, Bool.false_and, List.flatMap_cons]

/-- What is reported when the types are read, and what is reported at the end. -/
theorem refusals_eq (variadic : Bool) (fields : List Field) :
    refusals variadic fields = fields.flatMap (·.type.refused variadic) ++ if variadic then refusals true fields else [] := by
  cases variadic with
  | false => rw [refusals_false, if_neg Bool.false_ne_true, List.append_nil]
  | true =>
    have hread : fields.flatMap (·.type.refused true) = [] := List.flatMap_eq_nil_iff.2 fun f _ => f.type.refused_true
    rw [hread, if_pos rfl, List.nil_append]

/-- Entries that are names turn out to be these names. -/
theorem Expr.names_of_idents {entries : List Expr} {names : List Name}
    (h : entries.map Expr.shape = names.map fun n => (Expr.ident n.loc n.text).shape) :
    (entries.map Expr.asName).map Name.shape = names.map Name.shape ∧ entries.flatMap Expr.misnamed = [] := by
  induction entries generalizing names with
  | nil =>
    obtain rfl := List.map_eq_nil_iff.1 h.symm
    exact ⟨rfl, rfl⟩
  | cons entry entries ih =>
    obtain ⟨n, names, rfl, hfirst, hothers⟩ := List.map_eq_cons_iff.1 h.symm
    obtain ⟨hnames, hmisnamed⟩ := ih hothers.symm
    cases entry with
    | ident loc text =>
      obtain rfl : n.text = text := (Expr.ident.inj hfirst).2
      rw [List.map_cons, List.map_cons, List.map_cons, hnames, List.flatMap_cons, hmisnamed]
      exact ⟨rfl, rfl⟩
    | _ => nomatch hfirst

/-- What is read as a type has no dots. -/
theorem type_plain : Gives (fun t => ∀ allowed, t.refused allowed = []) (type .full) := by
  have hname : Gives (fun t => ∀ allowed, t.refused allowed = []) typeName :=
    .step fun _ => .step fun _ => .ite (.step fun _ => .pure fun _ => rfl) (.pure fun _ => rfl)
  have hread : Gives (fun r => ∀ t ∈ r, ∀ allowed, Expr.refused allowed t = []) (Grammar.type? .full false) := by
    refine .step fun here => ?_
    split
    · exact hname.some_
    · exact (Gives.step fun _ => .step fun _ => .step fun _ => .pure fun _ => rfl).some_
    · exact (Gives.step fun _ => .step fun _ => .step fun _ => .pure fun _ => rfl).some_
    · exact (Gives.step fun _ => .step fun _ => .pure fun _ => rfl).some_
    · exact (Gives.step fun _ => .step fun _ => .step fun _ => .pure fun _ => rfl).some_
    · exact (Gives.step fun _ => .step fun _ => .pure fun _ => rfl).some_
    · exact (Gives.step fun _ => .step fun _ => .pure fun _ => rfl).some_
    · exact (Gives.step fun _ => .step fun _ => .step fun _ => .step fun _ => .step fun _ => .pure fun _ => rfl).some_
    · exact (Gives.step fun _ => .step fun _ => .step fun _ => .pure fun _ => rfl).some_
    · exact (Gives.step fun _ => .step fun _ => .pure fun _ => rfl).some_
    · exact .none_
  rw [Grammar.type, type?_full]
  refine .bind hread fun r hr => ?_
  cases r with
  | some t => exact .pure (hr t rfl)
  | none => exact .step fun _ => .step fun _ => .step fun _ => .pure fun _ => rfl

/-- A type without dots is allowed everywhere. -/
theorem SpelledType.refused_eq_nil {x : SpelledType} {e : Expr} (h : e.shape = x.type.shape) (allowed : Bool) : e.refused allowed = [] := by
  obtain ⟨t, ht, c, -, rfl, -⟩ := x.spelled.exists_consumes
  have hplain := type_plain c
  rw [← ht] at h
  revert h hplain
  generalize (Grammar.type .full c).1 = t
  intro h hplain
  cases e with
  | variadicType => cases t <;> simp_all [Expr.shape, Expr.refused]
  | _ => rfl

namespace Tells

variable {variadic : Bool} {t : Expr} {u : WrittenType} {g : WrittenGroup} {gs : List WrittenGroup} {word rest : List TokenKind}

/-! ## Types of parameters -/

/-- These tokens are read as the type in front of those. -/
def Settled (t : Expr) (word rest : List TokenKind) : Prop :=
  Yields (Grammar.type? .full false) (fun r => ∃ t', r = some t' ∧ t'.shape = t.shape) (word ++ rest) rest

theorem Settled.type? (h : Settled t word rest) :
    Tells full.type? (fun r made => ∃ e, r = some e ∧ e.shape = t.shape ∧ made = []) (word ++ rest) rest := by
  have hshape : ∀ shift (r : Option Expr), (moved shift r).map Expr.shape = r.map Expr.shape := by
    intro shift r
    cases r with
    | none => rfl
    | some e => exact congrArg some (e.shape_move shift)
  have hyields : Yields (Grammar.type? .full false) (fun r => r.map Expr.shape = some t.shape) (word ++ rest) rest := by
    refine h.conseq ?_
    rintro _ ⟨e, rfl, he⟩
    exact congrArg some he
  rw [type?_full]
  refine (Pursued.tells (fun _ h => type?_follows h false) hshape hyields).conseq ?_
  rintro (_ | e) made ⟨he, rfl⟩
  · nomatch he
  · exact ⟨e, rfl, Option.some.inj he, rfl⟩

theorem Settled.type (h : Settled t word rest) :
    Tells (Grammar.type .full) (fun e made => e.shape = t.shape ∧ made = []) (word ++ rest) rest := by
  refine .bind h.type? ?_
  rintro _ _ ⟨e, rfl, he, rfl⟩
  exact .ret ⟨he, rfl⟩

/-- A type without dots may stand where a variadic one may. -/
theorem Settled.plain? (h : Settled t word rest) (hstart : (nextKind (word ++ rest)).startsType = true) :
    Tells (Grammar.parameterType? .full variadic) (fun r made => ∃ e, r = some e ∧ e.shape = t.shape ∧ made = []) (word ++ rest) rest :=
  .ifNotAt (TokenKind.sameKind_of_startsType hstart rfl) h.type?

theorem Settled.plain (h : Settled t word rest) (hstart : (nextKind (word ++ rest)).startsType = true) :
    Tells (Grammar.parameterType .full variadic) (fun e made => e.shape = t.shape ∧ made = []) (word ++ rest) rest := by
  refine .bind (h.plain? hstart) ?_
  rintro _ _ ⟨e, rfl, he, rfl⟩
  exact .ret ⟨he, rfl⟩

/-- A comma or the closing parenthesis comes next. -/
def EndsType (rest : List TokenKind) : Prop := nextKind rest = .punctuation .comma ∨ nextKind rest = .punctuation .rParen

/-- A variadic type that is not allowed is reported when it is read. -/
theorem writtenType? (hrest : EndsType rest) :
    Tells (Grammar.parameterType? .full variadic) (fun r made => ∃ e, r = some e ∧ e.shape = u.expr ∧ made = e.refused variadic)
      (u.spelling ++ rest) rest := by
  obtain ⟨x, dots⟩ := u
  have h : Settled x.type x.word rest := x.spelled.yields rest hrest
  cases dots with
  | false =>
    refine (h.plain? (x.startsType rest)).conseq ?_
    rintro _ _ ⟨e, rfl, he, rfl⟩
    exact ⟨e, rfl, he, (SpelledType.refused_eq_nil he variadic).symm⟩
  | true =>
    change Tells _ _ (.punctuation .ellipsis :: (x.word ++ rest)) rest
    refine .ifAt rfl (.map (.consume fun loc => .reportUnless (.bind h.type ?_)))
    rintro e _ ⟨he, rfl⟩
    refine .ret ⟨_, rfl, ?_, List.append_nil _⟩
    change (Expr.variadicType loc e).shape = Expr.variadicType default x.type.shape
    rw [Expr.shape, he]

theorem writtenType (hrest : EndsType rest) :
    Tells (Grammar.parameterType .full variadic) (fun e made => e.shape = u.expr ∧ made = e.refused variadic)
    (u.spelling ++ rest) rest := by
  refine .bind (writtenType? hrest) ?_
  rintro _ _ ⟨e, rfl, he, rfl⟩
  exact .ret ⟨he, List.append_nil _⟩

/-! ## Entries -/

/-- Behind the last entry of a list there is no comma, or only the parenthesis behind it. -/
def EndsEntries (close rest : List TokenKind) : Prop :=
  (nextKind close).sameKind Punctuation.comma = false ∧ close = rest
    ∨ close = .punctuation .comma :: rest ∧ (nextKind rest).sameKind Punctuation.rParen = true

/-- Entries with commas between them. -/
theorem parameterEntries {β : Type} {S : Expr → β → Prop} {word : β → List TokenKind} {told : Expr → List Diagnostic} {xs : List β}
    {close : List TokenKind} (hne : xs ≠ []) (hclose : EndsEntries close rest)
    (hstart : ∀ x ∈ xs, ∀ tail, (nextKind (word x ++ tail)).sameKind Punctuation.rParen = false)
    (hitem : ∀ x ∈ xs, ∀ tail, nextKind tail = .punctuation .comma →
      Tells (Grammar.parameterType .full variadic) (fun t made => S t x ∧ made = told t) (word x ++ tail) tail)
    (hlast : ∀ x, xs.getLast? = some x →
      Tells (Grammar.parameterType .full variadic) (fun t made => S t x ∧ made = told t) (word x ++ close) close) :
    Tells (Grammar.parameterEntries .full variadic) (fun ts made => List.Forall₂ S ts xs ∧ made = ts.flatMap told)
      (commas (xs.map word) ++ close) rest := by
  have hloop : Tells (loop #[] (entryPass .full variadic)) (Added S told #[] xs) (commas (xs.map word) ++ close) rest := by
    refine loopJoined (loopsEnd_full.entries variadic) (F := fun kind => kind.sameKind Punctuation.rParen = false) xs hne hstart
      (fun x hx acc tail htail => .bind (hitem x hx _ rfl) ?_) (fun x hx acc => .bind (hlast x hx) ?_) #[]
    · rintro t _ ⟨ht, rfl⟩
      exact .ifAccept rfl (.ifNotAt htail (.ret ⟨t, rfl, ht, List.append_nil _⟩))
    · rintro t _ ⟨ht, rfl⟩
      rcases hclose with ⟨hcomma, rfl⟩ | ⟨rfl, hparen⟩
      · exact .ifNotAccept hcomma (.ret ⟨t, rfl, ht, List.append_nil _⟩)
      · exact .ifAccept rfl (.ifAt hparen (.ret ⟨t, rfl, ht, List.append_nil _⟩))
  refine .bind hloop ?_
  rintro ts _ ⟨new, hts, hnew, rfl⟩
  obtain rfl : ts.toList = new := hts
  exact .ret ⟨hnew, List.append_nil _⟩

/-- Entries that turn out to be names. -/
theorem namesOf (entries : List Expr) :
    Tells (Grammar.namesOf entries) (fun ns made => ns = entries.map Expr.asName ∧ made = entries.flatMap Expr.misnamed) rest rest := by
  induction entries with
  | nil => exact .ret ⟨rfl, rfl⟩
  | cons entry entries ih =>
    have hname : Tells (nameOf entry) (fun n made => n = entry.asName ∧ made = entry.misnamed) rest rest := by
      cases entry with
      | ident loc text => exact .ret ⟨rfl, rfl⟩
      | _ => exact .report (.ret ⟨rfl, rfl⟩)
    refine .bind hname ?_
    rintro _ _ ⟨rfl, rfl⟩
    refine .bind ih ?_
    rintro _ _ ⟨rfl, rfl⟩
    exact .ret ⟨rfl, by rw [List.append_nil, List.flatMap_cons]⟩

/-! ## Groups -/

theorem parameterGroup (hnames : g.names ≠ []) (hrest : EndsType rest) :
    Tells (Grammar.parameterGroup .full variadic) (fun f made => f.shape = g.field ∧ made = f.type.refused variadic)
      (g.word ++ rest) rest := by
  have hcomma : (nextKind (g.type.spelling ++ rest)).sameKind Punctuation.comma = false :=
    TokenKind.sameKind_of_startsParameter (g.type.startsParameter rest) rfl
  have hshapes : ∀ shift (ns : List Name), (moved shift ns).map Name.shape = ns.map Name.shape := fun _ _ => List.map_map
  have hlist := Pursued.tells (f := Parse.names) (fun _ _ => .names) hshapes (Yields.names hnames hcomma)
  rw [WrittenGroup.word, List.append_assoc]
  refine .current fun loc => .bind hlist ?_
  rintro ns _ ⟨hns, rfl⟩
  refine .bind (writtenType hrest) ?_
  rintro t _ ⟨ht, rfl⟩
  refine .ret ⟨?_, List.append_nil _⟩
  rw [Field.shape, WrittenGroup.field, hns, ht, Option.map_none]

/-- What stands behind the last field of a list. -/
def closing (comma : Bool) (rest : List TokenKind) : List TokenKind := trailingComma comma ++ .punctuation .rParen :: rest

theorem endsType_closing (comma : Bool) (rest : List TokenKind) : EndsType (closing comma rest) := by
  cases comma with
  | false => exact .inr rfl
  | true => exact .inl rfl

/-- The groups behind the first one. -/
def moreWords (gs : List WrittenGroup) : List TokenKind := gs.flatMap (.punctuation .comma :: ·.word)

theorem endsType_moreWords (gs : List WrittenGroup) (comma : Bool) (rest : List TokenKind) :
    EndsType (moreWords gs ++ closing comma rest) := by
  cases gs with
  | nil => exact endsType_closing comma rest
  | cons g gs => exact .inl rfl

/-- The groups behind the first one are read up to the closing parenthesis. -/
theorem moreGroups (hnames : ∀ g ∈ gs, g.names ≠ []) (comma : Bool) :
    Tells (Grammar.moreGroups .full variadic)
      (fun fs made => fs.map Field.shape = gs.map WrittenGroup.field ∧ made = fs.flatMap (·.type.refused variadic))
      (moreWords gs ++ closing comma rest) (.punctuation .rParen :: rest) := by
  have hend : ∀ acc, Tells (groupPass .full variadic acc) (fun s made => s = .done acc ∧ made = [])
      (closing comma rest) (.punctuation .rParen :: rest) := by
    intro acc
    cases comma with
    | false => exact .ifNotAccept rfl (.ret ⟨rfl, rfl⟩)
    | true => exact .ifAccept rfl (.ifAt rfl (.ret ⟨rfl, rfl⟩))
  have hloop : Tells (loop #[] (groupPass .full variadic)) (Added (fun f g => f.shape = g.field) (·.type.refused variadic) #[] gs)
      (moreWords gs ++ closing comma rest) (.punctuation .rParen :: rest) := by
    refine loopItems (loopsEnd_full.parameters variadic) (F := fun kind => kind = .punctuation .comma ∨ kind = .punctuation .rParen)
      (endsType_closing comma rest) hend gs (fun g _ tail => .inl rfl) (fun g hg acc tail htail => ?_) #[]
    have hstart : (nextKind (g.word ++ tail)).sameKind Punctuation.rParen = false :=
      TokenKind.sameKind_of_startsParameter (g.startsParameter tail) rfl
    refine .ifAccept rfl (.ifNotAt hstart (.bind (parameterGroup (hnames g hg) htail) ?_))
    rintro f _ ⟨hf, rfl⟩
    exact .ret ⟨f, rfl, hf, List.append_nil _⟩
  refine .bind hloop ?_
  rintro fs _ ⟨new, hfs, hnew, rfl⟩
  obtain rfl : fs.toList = new := hfs
  exact .ret ⟨map_eq_map_of_forall₂ hnew, List.append_nil _⟩

/-! ## Lists -/

/-- The closing parenthesis ends the entries, with a comma in front of it or without. -/
theorem endsEntries_closing (comma : Bool) : EndsEntries (closing comma rest) (.punctuation .rParen :: rest) := by
  cases comma with
  | false => exact .inl ⟨rfl, rfl⟩
  | true => exact .inr ⟨rfl, rfl⟩

/-- At the closing parenthesis no type of a parameter starts. -/
theorem noParameterType : Tells (Grammar.parameterType? .full variadic) (fun r made => r = none ∧ made = []) (.punctuation .rParen :: rest)
    (.punctuation .rParen :: rest) := by
  refine .ifNotAt rfl ?_
  rw [type?_full]
  exact .current fun _ => .ret ⟨rfl, rfl⟩

/-- A list without names is read as the types of its groups. -/
theorem unnamedList (hne : gs ≠ []) (hnames : ∀ g ∈ gs, g.names = []) (comma : Bool) :
    Tells (parameterList .full variadic)
      (fun fs made => fs.map Field.shape = gs.map WrittenGroup.field ∧ made = fs.flatMap (·.type.refused variadic))
      (commas (gs.map WrittenGroup.word) ++ closing comma rest) (.punctuation .rParen :: rest) := by
  have hread : ∀ g ∈ gs, ∀ tail, EndsType tail →
      Tells (Grammar.parameterType .full variadic) (fun t made => (unnamed t).shape = g.field ∧ made = t.refused variadic)
        (g.word ++ tail) tail := by
    intro g hg tail htail
    have hword : g.word = g.type.spelling := by
      rw [WrittenGroup.word, hnames g hg]
      rfl
    rw [hword]
    refine (writtenType htail).conseq ?_
    rintro t _ ⟨ht, rfl⟩
    refine ⟨?_, rfl⟩
    rw [unnamed, Field.shape, WrittenGroup.field, ht, hnames g hg]
    rfl
  refine .bind (parameterEntries hne (endsEntries_closing comma)
    (fun g _ tail => TokenKind.sameKind_of_startsParameter (g.startsParameter tail) rfl)
    (fun g hg tail htail => hread g hg tail (.inl htail))
    fun g hg => hread g (List.mem_of_getLast? hg) _ (endsType_closing comma rest)) ?_
  rintro entries _ ⟨hentries, rfl⟩
  refine .bind noParameterType ?_
  rintro _ _ ⟨rfl, rfl⟩
  refine .ret ⟨?_, ?_⟩
  · exact map_eq_map_of_forall₂ (List.forall₂_map_left_iff.2 hentries)
  · rw [List.flatMap_map, List.append_nil, List.append_nil]
    rfl

/-- The first field has the names that the entries turn out to be; the other fields are as they are written. -/
inductive Renamed (variadic : Bool) (xs : List (Expr × List TokenKind)) (u : WrittenType) (gs : List WrittenGroup) :
    List Field → List Diagnostic → Prop
  | intro {entries : List Expr} {e : Expr} {fields : List Field} (loc : Location) :
    entries.map Expr.shape = xs.map (·.1.shape) → e.shape = u.expr → fields.map Field.shape = gs.map WrittenGroup.field →
    Renamed variadic xs u gs (⟨loc, entries.map Expr.asName, e, none⟩ :: fields)
      (e.refused variadic ++ (entries.flatMap Expr.misnamed ++ fields.flatMap (·.type.refused variadic)))

/-- Entries in front of a type turn out to be names. -/
theorem renamedList {xs : List (Expr × List TokenKind)} (hne : xs ≠ []) (hread : ∀ x ∈ xs, x.1.ReadsFrom x.2 false)
    (hstart : ∀ x ∈ xs, ∀ tail, (nextKind (x.2 ++ tail)).startsType = true) (hnames : ∀ g ∈ gs, g.names ≠ []) (comma : Bool) :
    Tells (parameterList .full variadic) (Renamed variadic xs u gs)
      (commas (xs.map Prod.snd) ++ (u.spelling ++ (moreWords gs ++ closing comma rest))) (.punctuation .rParen :: rest) := by
  have hbehind := u.startsParameter (moreWords gs ++ closing comma rest)
  have hentry : ∀ x ∈ xs, ∀ tail, (nextKind tail).sameKind Punctuation.dot = false →
      Tells (Grammar.parameterType .full variadic) (fun e made => e.shape = x.1.shape ∧ made = []) (x.2 ++ tail) tail :=
    fun x hx tail htail => Settled.plain (hread x hx tail htail) (hstart x hx tail)
  refine .bind (parameterEntries (S := fun e x => e.shape = x.1.shape) hne
    (.inl ⟨TokenKind.sameKind_of_startsParameter hbehind rfl, rfl⟩)
    (fun x hx tail => TokenKind.sameKind_of_startsType (hstart x hx tail) rfl)
    (fun x hx tail htail => hentry x hx tail (by rw [htail]; rfl))
    fun x hx => hentry x (List.mem_of_getLast? hx) _ (TokenKind.sameKind_of_startsParameter hbehind rfl)) ?_
  rintro entries _ ⟨hentries, rfl⟩
  refine .bind (writtenType? (endsType_moreWords gs comma rest)) ?_
  rintro _ _ ⟨e, rfl, he, rfl⟩
  refine .bind (namesOf entries) ?_
  rintro _ _ ⟨rfl, rfl⟩
  refine .bind (moreGroups hnames comma) ?_
  rintro fields _ ⟨hfields, rfl⟩
  have hquiet : entries.flatMap (fun _ => ([] : List Diagnostic)) = [] := List.flatMap_eq_nil_iff.2 fun _ _ => rfl
  refine .ret ?_
  rw [hquiet, List.nil_append, List.append_nil]
  exact .intro _ (map_eq_map_of_forall₂ hentries) he hfields

/-- A list of groups is read as these groups. -/
theorem namedList (hne : gs ≠ []) (hnames : ∀ g ∈ gs, g.names ≠ []) (comma : Bool) :
    Tells (parameterList .full variadic)
      (fun fs made => fs.map Field.shape = gs.map WrittenGroup.field ∧ made = fs.flatMap (·.type.refused variadic))
      (commas (gs.map WrittenGroup.word) ++ closing comma rest) (.punctuation .rParen :: rest) := by
  obtain ⟨⟨names, u⟩, gs, rfl⟩ := List.exists_cons_of_ne_nil hne
  have hfirst : names ≠ [] := hnames _ (List.mem_cons_self ..)
  have hword : commas ((⟨names, u⟩ :: gs).map WrittenGroup.word) ++ closing comma rest
      = commas ((names.map fun n => (Expr.ident n.loc n.text, [TokenKind.ident n.text])).map Prod.snd)
        ++ (u.spelling ++ (moreWords gs ++ closing comma rest)) := by
    rw [List.map_cons, commas_cons, List.flatMap_map, List.map_map, moreWords, WrittenGroup.word, namesWord]
    simp only [List.append_assoc]
    rfl
  rw [hword]
  refine (renamedList (by simpa using hfirst) ?_ ?_ (fun g hg => hnames g (List.mem_cons_of_mem _ hg)) comma).conseq ?_
  · intro x hx
    obtain ⟨n, -, rfl⟩ := List.mem_map.1 hx
    exact Expr.readsAsType_typeName (t := .ident n.loc n.text) rfl
  · intro x hx tail
    obtain ⟨n, -, rfl⟩ := List.mem_map.1 hx
    rfl
  · rintro _ _ ⟨loc, hentries, he, hfields⟩
    rw [List.map_map] at hentries
    obtain ⟨hasName, hmisnamed⟩ := Expr.names_of_idents hentries
    refine ⟨?_, ?_⟩
    · rw [List.map_cons, List.map_cons, hfields, Field.shape, he, hasName]
      rfl
    · rw [hmisnamed, List.nil_append]
      rfl

/-! ## Checks -/

theorem checkVariadic (fields : List Field) :
    Tells (Grammar.checkVariadic fields) (fun _ made => made = refusals true fields) rest rest := by
  induction fields with
  | nil => exact .ret rfl
  | cons f fs ih =>
    have hfield : Tells (checkField fs.isEmpty f) (fun _ made => made = f.type.refused (fs.isEmpty && f.names.length ≤ 1)) rest rest := by
      obtain ⟨loc, names, t, tag⟩ := f
      cases t with
      | variadicType dots t => exact .last (.reportUnless (.ret (List.append_nil _)))
      | _ => exact .ret rfl
    refine .bind hfield ?_
    rintro _ _ rfl
    refine ih.conseq ?_
    rintro _ _ rfl
    rw [refusals, Bool.true_and]

/-- What is reported about the types of a list when they are read and at its end. -/
theorem checkFields (fields : List Field) :
    Tells (Grammar.checkFields variadic fields) (fun _ made => fields.flatMap (·.type.refused variadic) ++ made = refusals variadic fields)
      rest rest := by
  cases variadic with
  | true =>
    refine (checkVariadic fields).conseq ?_
    rintro _ _ rfl
    exact (refusals_eq true fields).symm
  | false => exact .ret (refusals_eq false fields).symm

/-- In parentheses a list is read and then checked. -/
theorem inParentheses {P : List Field → List Diagnostic → Prop} {input : List TokenKind}
    (hstart : (nextKind input).sameKind Punctuation.rParen = false)
    (h : Tells (parameterList .full variadic) P input (.punctuation .rParen :: rest)) :
    Tells (Grammar.parameters .full variadic)
      (fun fs made => ∃ read checked, made = read ++ checked ∧ P fs read
        ∧ fs.flatMap (·.type.refused variadic) ++ checked = refusals variadic fs)
      (.punctuation .lParen :: input) rest := by
  have hfields : Tells (parameterFields .full variadic)
      (fun fs made => ∃ read checked, made = read ++ checked ∧ P fs read
        ∧ fs.flatMap (·.type.refused variadic) ++ checked = refusals variadic fs) input (.punctuation .rParen :: rest) := by
    refine .ifNotAt hstart (.bind h fun fs read hread => .bind (checkFields fs) fun _ checked hchecked => .ret ?_)
    exact ⟨read, checked, by rw [List.append_nil], hread, hchecked⟩
  refine .expect rfl fun _ => .bind hfields fun fs made hmade => .expect rfl fun _ => .ret ?_
  rwa [List.append_nil]

/-- Groups of names, or types without names, are read in parentheses. -/
theorem writtenGroups (halike : (∀ g ∈ gs, g.names = []) ∨ ∀ g ∈ gs, g.names ≠ []) (comma : Bool) (hcomma : comma = true → gs ≠ []) :
    Tells (Grammar.parameters .full variadic) (fun fs made => fs.map Field.shape = gs.map WrittenGroup.field ∧ made = refusals variadic fs)
      (.punctuation .lParen :: (commas (gs.map WrittenGroup.word) ++ closing comma rest)) rest := by
  by_cases hne : gs = []
  · subst hne
    obtain rfl : comma = false := eq_false_of_ne_true fun h => hcomma h rfl
    have hnone : Tells (parameterFields .full variadic) (fun fs made => fs = [] ∧ made = []) (closing false rest)
      (.punctuation .rParen :: rest) :=
      .ifAt rfl (.ret ⟨rfl, rfl⟩)
    refine .expect rfl fun _ => .bind hnone ?_
    rintro _ _ ⟨rfl, rfl⟩
    exact .expect rfl fun _ => .ret ⟨rfl, rfl⟩
  · have hlist : Tells (parameterList .full variadic)
        (fun fs made => fs.map Field.shape = gs.map WrittenGroup.field ∧ made = fs.flatMap (·.type.refused variadic))
        (commas (gs.map WrittenGroup.word) ++ closing comma rest) (.punctuation .rParen :: rest) := by
      rcases halike with hnone | hall
      · exact unnamedList hne hnone comma
      · exact namedList hne hall comma
    have hstart : (nextKind (commas (gs.map WrittenGroup.word) ++ closing comma rest)).sameKind Punctuation.rParen = false := by
      obtain ⟨g, gs, rfl⟩ := List.exists_cons_of_ne_nil hne
      rw [List.map_cons, commas_cons, List.append_assoc]
      exact TokenKind.sameKind_of_startsParameter (g.startsParameter _) rfl
    refine (inParentheses hstart hlist).conseq ?_
    rintro fs _ ⟨read, checked, rfl, ⟨hfs, rfl⟩, hchecked⟩
    exact ⟨hfs, hchecked⟩

/-- Types in front of a type are read in parentheses, and turn out to be names. -/
theorem writtenNames {xs : List SpelledType} {x : SpelledType} (hne : xs ≠ []) (hends : ∀ x ∈ xs, x.type.endsInFunction = false)
    (comma : Bool) :
    Tells (Grammar.parameters .full variadic)
      (fun fs made => ∃ (loc : Location) (entries : List Expr) (e : Expr), fs = [⟨loc, entries.map Expr.asName, e, none⟩]
        ∧ entries.map Expr.shape = xs.map (·.type.shape) ∧ e.shape = x.type.shape ∧ made = entries.flatMap Expr.misnamed)
      (.punctuation .lParen :: (commas (xs.map (·.word)) ++ (x.word ++ closing comma rest))) rest := by
  have hlist : Tells (parameterList .full variadic) (Renamed variadic (xs.map fun x => (x.type, x.word)) ⟨x, false⟩ [])
      (commas (xs.map (·.word)) ++ (x.word ++ closing comma rest)) (.punctuation .rParen :: rest) := by
    have hwords : (xs.map fun x => (x.type, x.word)).map Prod.snd = xs.map (·.word) := List.map_map
    rw [← hwords]
    refine renamedList ?_ ?_ ?_ (fun _ hg => absurd hg List.not_mem_nil) comma
    · simpa using hne
    · intro p hp
      obtain ⟨y, hy, rfl⟩ := List.mem_map.1 hp
      exact y.spelled.readsFrom (hends y hy)
    · intro p hp tail
      obtain ⟨y, -, rfl⟩ := List.mem_map.1 hp
      exact y.startsType tail
  have hstart : (nextKind (commas (xs.map (·.word)) ++ (x.word ++ closing comma rest))).sameKind Punctuation.rParen = false := by
    obtain ⟨y, ys, rfl⟩ := List.exists_cons_of_ne_nil hne
    rw [List.map_cons, commas_cons, List.append_assoc]
    exact TokenKind.sameKind_of_startsType (y.startsType _) rfl
  refine (inParentheses hstart hlist).conseq ?_
  rintro _ _ ⟨_, checked, rfl, @⟨entries, e, fields, loc, hentries, he, hfields⟩, hchecked⟩
  obtain rfl := List.map_eq_nil_iff.1 hfields
  have hplain : ∀ allowed, e.refused allowed = [] := SpelledType.refused_eq_nil (x := x) he
  rw [List.map_map] at hentries
  rw [refusals, List.flatMap_singleton, hplain, hplain] at hchecked
  obtain rfl : checked = [] := hchecked
  rw [hplain, List.flatMap_nil, List.nil_append, List.append_nil, List.append_nil]
  exact ⟨loc, entries, e, rfl, hentries, he, rfl⟩

end Tells

/-- Groups of names, or types without names, are read in parentheses as the fields that they stand for, and what is reported is each
variadic type where none may stand: in parameters, in a field that is not the last or has more than one name; in results and receivers,
anywhere. Types in front of a type are read as one field of that type with as many names: those that are identifiers are its names, and
for each of the others a missing name is reported. A comma may stand behind the last field. -/
theorem parameterLists_exact (variadic comma : Bool) (rest : List TokenKind) :
    (∀ gs : List WrittenGroup, (∀ g ∈ gs, g.names = []) ∨ (∀ g ∈ gs, g.names ≠ []) → (comma = true → gs ≠ []) →
        Tells (parameters .full variadic) (fun fs made => fs.map Field.shape = gs.map WrittenGroup.field ∧ made = refusals variadic fs)
          (.punctuation .lParen :: (commas (gs.map WrittenGroup.word) ++ (trailingComma comma ++ .punctuation .rParen :: rest))) rest)
      ∧ ∀ (xs : List SpelledType) (x : SpelledType), xs ≠ [] → (∀ x ∈ xs, x.type.endsInFunction = false) →
        Tells (parameters .full variadic)
          (fun fs made => ∃ (loc : Location) (entries : List Expr) (e : Expr), fs = [⟨loc, entries.map Expr.asName, e, none⟩]
            ∧ entries.map Expr.shape = xs.map (·.type.shape) ∧ e.shape = x.type.shape ∧ made = entries.flatMap Expr.misnamed)
          (.punctuation .lParen :: (commas (xs.map (·.word)) ++ (x.word ++ (trailingComma comma ++ .punctuation .rParen :: rest)))) rest :=
  ⟨fun _ halike hcomma => Tells.writtenGroups halike comma hcomma, fun _ _ hne hends => Tells.writtenNames hne hends comma⟩

/-- In `(a, b ...int, c string,)` the first type is not the last and has two names, and in `(a, b.c int)` the second entry is no name. -/
theorem parameterLists_exact_samples : ∃ groups names : List UInt8,
    (parameters .full true (.start ⟨0, "p.go"⟩ groups)).1.map Field.shape
        = [⟨default, [⟨default, "a"⟩, ⟨default, "b"⟩], .variadicType default (.ident default "int"), none⟩,
          ⟨default, [⟨default, "c"⟩], .ident default "string", none⟩]
      ∧ (parameters .full true (.start ⟨0, "p.go"⟩ groups)).2.log.toList = refusals true (parameters .full true (.start ⟨0, "p.go"⟩ groups)).1
      ∧ ∃ (loc : Location) (entries : List Expr) (e : Expr),
        (parameters .full true (.start ⟨0, "p.go"⟩ names)).1 = [⟨loc, entries.map Expr.asName, e, none⟩]
          ∧ entries.map Expr.shape = [.ident default "a", .selector default (.ident default "b") ⟨default, "c"⟩]
          ∧ e.shape = .ident default "int"
          ∧ (parameters .full true (.start ⟨0, "p.go"⟩ names)).2.log.toList = entries.flatMap Expr.misnamed := by
  have hname : ∀ text, (TokenKind.ident text).IsScanned → (Expr.ident default text).SpelledBy [.ident text] := by
    intro text htext
    refine Expr.spelledBy_word (t := .ident default text) trivial ?_
    rintro _ (_ | ⟨_, ⟨⟩⟩)
    exact htext
  have hqualified : (Expr.selector default (.ident default "b") ⟨default, "c"⟩).SpelledBy [.ident "b", .punctuation .dot, .ident "c"] := by
    refine Expr.spelledBy_word (t := .selector default (.ident default "b") ⟨default, "c"⟩) trivial ?_
    rintro _ (_ | ⟨_, _ | ⟨_, _ | ⟨_, ⟨⟩⟩⟩⟩)
    · exact ⟨'b', [], by decide, rfl⟩
    · trivial
    · exact ⟨'c', [], by decide, rfl⟩
  have hint := hname "int" ⟨'i', ['n', 't'], by decide, rfl⟩
  have hkinds : (Cursor.start ⟨0, "p.go"⟩ (Utf8.encode "(a, b ...int, c string,)\n".toList)).kinds
      = [.punctuation .lParen, .ident "a", .punctuation .comma, .ident "b", .punctuation .ellipsis, .ident "int", .punctuation .comma,
        .ident "c", .ident "string", .punctuation .comma, .punctuation .rParen, .punctuation .semicolon] := by decide +kernel
  have hkinds' : (Cursor.start ⟨0, "p.go"⟩ (Utf8.encode "(a, b.c int)\n".toList)).kinds
      = [.punctuation .lParen, .ident "a", .punctuation .comma, .ident "b", .punctuation .dot, .ident "c", .ident "int",
        .punctuation .rParen, .punctuation .semicolon] := by decide +kernel
  have hgroups := (parameterLists_exact true true [.punctuation .semicolon]).1
    [⟨[⟨default, "a"⟩, ⟨default, "b"⟩], ⟨⟨_, _, hint⟩, true⟩⟩,
      ⟨[⟨default, "c"⟩], ⟨⟨_, _, hname "string" ⟨'s', ['t', 'r', 'i', 'n', 'g'], by decide, rfl⟩⟩, false⟩⟩]
    (.inr (by simp)) (by simp) (.start ⟨0, "p.go"⟩ (Utf8.encode "(a, b ...int, c string,)\n".toList)) (by decide +kernel) hkinds
  have hnames := (parameterLists_exact true false [.punctuation .semicolon]).2
    [⟨_, _, hname "a" ⟨'a', [], by decide, rfl⟩⟩, ⟨_, _, hqualified⟩] ⟨_, _, hint⟩ (by simp) (by simp [Expr.endsInFunction])
    (.start ⟨0, "p.go"⟩ (Utf8.encode "(a, b.c int)\n".toList)) (by decide +kernel) hkinds'
  obtain ⟨made, ⟨hfields, rfl⟩, -, -, hlog⟩ := hgroups
  obtain ⟨made', ⟨loc, entries, e, hfield, hentries, he, rfl⟩, -, -, hlog'⟩ := hnames
  exact ⟨_, _, hfields, hlog, loc, entries, e, hfield, hentries, he, hlog'⟩

end GoSyntax
