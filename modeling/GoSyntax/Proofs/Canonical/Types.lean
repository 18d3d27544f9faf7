import GoSyntax.Proofs.Canonical.Yields

/-!
# Types are read back

The word of a type is read as a type of the same shape, if no dot behind it goes on with it. Whether the entries of a list of parameters
are names shows behind the first of them that no comma follows: there the type of the first group stands, or the list ends. A field of a
struct is an embedded one if what follows its first name starts no type.
-/

namespace GoSyntax

open Parse Grammar

/-! ## The productions -/

namespace Productions

theorem type?_full : full.type? = Grammar.type? .full false := congrArg Productions.type? deepen_full.symm

theorem expr_full : full.expr = Grammar.expr .full := congrArg Productions.expr deepen_full.symm

theorem unary_full : full.unary = Grammar.unary .full := congrArg Productions.unary deepen_full.symm

theorem elementValue_full : full.elementValue = Grammar.elementValue .full := congrArg Productions.elementValue deepen_full.symm

theorem stmt_full : full.stmt = Grammar.stmt .full := congrArg Productions.stmt deepen_full.symm

end Productions

open Productions

/-- Nothing goes on with an expression in front of a token of this kind. -/
def TokenKind.closes : TokenKind → Bool
  | .punctuation mark => mark != .dot && mark != .lParen && mark != .lBracket && mark != .lBrace
  | .operator op => op.precedence?.isNone
  | _ => true

/-- Where a type is asked for, these tokens are read as a type of the same shape, if no dot comes behind them. -/
def Expr.ReadsFrom (t : Expr) (word : List TokenKind) (inferable : Bool) : Prop :=
  ∀ rest, (nextKind rest).sameKind Punctuation.dot = false →
    Yields (Grammar.type? .full inferable) (fun r => ∃ t', r = some t' ∧ t'.shape = t.shape) (word ++ rest) rest

/-- The word of the type is read as one of the same shape. -/
def Expr.ReadsAsType (t : Expr) (inferable : Bool) : Prop := t.ReadsFrom t.word inferable

/-- Where an expression is asked for, the word of the expression is read as one of the same shape, if nothing behind it goes on
with it. -/
structure Expr.ReadsAsValue (e : Expr) (level : Int) : Prop where
  starts : ∀ tail, (nextKind (e.word ++ tail)).startsValue = true
  yields : ∀ rest, (nextKind rest).closes = true ∨ nextKind rest = .punctuation .lBrace ∧ e.opensBody level = false →
    Yields (Grammar.expr .full level) (·.shape = e.shape) (e.word ++ rest) rest

/-- Where a type is due, these tokens are read as a type of the same shape in front of this token. -/
def Expr.ReadsBefore (t : Expr) (word : List TokenKind) (close : TokenKind) : Prop :=
  ∀ rest, Yields (Grammar.type .full) (·.shape = t.shape) (word ++ close :: rest) (close :: rest)

/-- Behind an opening bracket, these tokens are read with the closing one as the length of an array type. -/
def ArrayLength.ReadsFrom (l : ArrayLength) (word : List TokenKind) (inferable : Bool) : Prop :=
  ∀ rest, Yields (Grammar.arrayLength .full inferable) (·.shape = l.shape) (word ++ .punctuation .rBracket :: rest) rest

/-- So is the word of the length. -/
def ArrayLength.Reads (l : ArrayLength) (inferable : Bool) : Prop := l.ReadsFrom l.word inferable

/-- Where a type of a parameter is asked for, the word of this one is read. -/
def Expr.ReadsAsParameter (t : Expr) (variadic : Bool) : Prop :=
  ∀ rest, (nextKind rest).sameKind Punctuation.dot = false →
    Yields (Grammar.parameterType? .full variadic) (fun r => ∃ t', r = some t' ∧ t'.shape = t.shape) (t.word ++ rest) rest

/-- The word of a signature is read back. -/
def Signature.Reads (s : Signature) : Prop :=
  ∀ rest, Yields (Grammar.signature .full) (·.shape = s.shape) (s.word ++ rest) rest

/-- In the body of a struct, the word of a field is read back. -/
def Field.Reads (f : Field) : Prop :=
  ∀ rest, Yields (Grammar.field .full) (·.shape = f.shape) (f.word ++ .punctuation .semicolon :: rest) (.punctuation .semicolon :: rest)

/-- In the body of an interface, the word of an element is read back. -/
def InterfaceElem.Reads (e : InterfaceElem) : Prop :=
  ∀ rest, Yields (Grammar.interfaceElem .full) (·.shape = e.shape) (e.word ++ .punctuation .semicolon :: rest)
    (.punctuation .semicolon :: rest)

variable {spelling keySpelling lengthSpelling rest : List TokenKind} {inferable variadic : Bool} {t key value elem : Expr}

namespace Yields

theorem type (h : t.ReadsFrom spelling false) (hrest : (nextKind rest).sameKind Punctuation.dot = false) :
    Yields (Grammar.type .full) (·.shape = t.shape) (spelling ++ rest) rest := by
  rw [Grammar.type, type?_full]
  refine .bind (h rest hrest) ?_
  rintro _ ⟨t', rfl, ht⟩
  exact .ret ht

/-- A type that is read may stand where one may be missing. -/
theorem someType {f : Parse Expr} {input : List TokenKind} (h : Yields f (·.shape = t.shape) input rest) :
    Yields (some <$> f) (fun r => ∃ t', r = some t' ∧ t'.shape = t.shape) input rest :=
  .map (h.conseq fun t' ht => ⟨t', rfl, ht⟩)

/-- A token that starts no type leaves the type out. -/
theorem noType (h : (nextKind rest).startsType = false) : Yields full.type? (· = none) rest rest := by
  rw [type?_full]
  refine .current fun loc => ?_
  generalize nextKind rest = kind at h
  cases kind with
  | ident => nomatch h
  | punctuation mark => cases mark <;> first | exact nomatch (h : true = false) | exact .ret rfl
  | operator op => cases op <;> first | exact nomatch (h : true = false) | exact .ret rfl
  | keyword word => cases word <;> first | exact nomatch (h : true = false) | exact .ret rfl
  | _ => exact .ret rfl

/-! ## The forms of types -/

theorem typeName (ht : isTypeName t = true) (hrest : (nextKind rest).sameKind Punctuation.dot = false) :
    Yields Grammar.typeName (·.shape = t.shape) (t.word ++ rest) rest := by
  cases t with
  | ident loc text => exact .name fun _ => .ifNotAccept hrest (.ret rfl)
  | selector loc operand field =>
    cases operand with
    | ident loc' text => exact .name fun _ => .ifAccept rfl (.name fun _ => .ret rfl)
    | _ => nomatch ht
  | _ => nomatch ht

theorem parenType {loc : Location} (h : t.ReadsBefore spelling Punctuation.rParen) : Yields (Grammar.parenType .full)
    (·.shape = (Expr.paren loc t).shape) (.punctuation .lParen :: (spelling ++ .punctuation .rParen :: rest)) rest := by
  refine .consume fun _ => .bind (h rest) fun t' ht => .expect rfl fun _ => .ret ?_
  rw [Expr.shape, Expr.shape, ht]

theorem pointerType {loc : Location} (h : t.ReadsFrom spelling false) (hrest : (nextKind rest).sameKind Punctuation.dot = false) :
    Yields (Grammar.pointerType .full) (·.shape = (Expr.star loc t).shape) (.operator .mul :: (spelling ++ rest)) rest := by
  refine .consume fun _ => .bind (.type h hrest) fun t' ht => .ret ?_
  rw [Expr.shape, Expr.shape, ht]

theorem arrayType {loc : Location} {length : ArrayLength} (hlength : length.ReadsFrom lengthSpelling inferable)
    (h : elem.ReadsFrom spelling false)
    (hrest : (nextKind rest).sameKind Punctuation.dot = false) :
    Yields (Grammar.arrayType .full inferable) (·.shape = (Expr.arrayType loc length elem).shape)
      (.punctuation .lBracket :: (lengthSpelling ++ .punctuation .rBracket :: (spelling ++ rest))) rest := by
  refine .consume fun _ => .bind (hlength _) fun length' hl => .bind (.type h hrest) fun t' ht => .ret ?_
  rw [Expr.shape, Expr.shape, hl, ht]

theorem mapType {loc : Location} (hkey : key.ReadsBefore keySpelling Punctuation.rBracket) (hvalue : value.ReadsFrom spelling false)
    (hrest : (nextKind rest).sameKind Punctuation.dot = false) :
    Yields (Grammar.mapType .full) (·.shape = (Expr.mapType loc key value).shape)
      (.keyword .map :: .punctuation .lBracket :: (keySpelling ++ .punctuation .rBracket :: (spelling ++ rest))) rest := by
  refine .consume fun _ => .expect rfl fun _ => .bind (hkey _) fun k hk => .expect rfl fun _ => ?_
  refine .bind (.type hvalue hrest) fun v hv => .ret ?_
  rw [Expr.shape, Expr.shape, hk, hv]

theorem channelType (loc : Location) {direction : ChannelDirection} (h : elem.ReadsFrom spelling false)
    (harrow : direction = .both → (nextKind (spelling ++ rest)).sameKind Operator.arrow = false)
    (hrest : (nextKind rest).sameKind Punctuation.dot = false) :
    Yields (Grammar.channelType .full) (·.shape = (Expr.channelType loc direction elem).shape)
      (direction.word ++ (spelling ++ rest)) rest := by
  have hdirection : Yields channelDirection (· = direction) (direction.word ++ (spelling ++ rest)) (spelling ++ rest) := by
    cases direction with
    | both => exact .ifAccept rfl (.ifNotAccept (harrow rfl) (.ret rfl))
    | send => exact .ifAccept rfl (.ifAccept rfl (.ret rfl))
    | receive => exact .ifNotAccept rfl (.expect rfl fun _ => .expect rfl fun _ => .ret rfl)
  refine .current fun _ => .bind hdirection ?_
  rintro _ rfl
  refine .bind (.type h hrest) fun t' ht => .ret ?_
  rw [Expr.shape, Expr.shape, ht]

theorem functionType {loc : Location} {sig : Signature} (h : sig.Reads) :
    Yields (Grammar.functionType .full) (·.shape = (Expr.functionType loc sig).shape)
      ((Expr.functionType loc sig).word ++ rest) rest := by
  refine .consume fun _ => .bind (h _) fun s hs => .ret ?_
  rw [Expr.shape, Expr.shape, hs]

end Yields

/-- The length of an array type is not missing, and no `...` unless it may be. -/
theorem ArrayLength.reads {l : ArrayLength} (h : l.InGrammar inferable) (hvalue : ∀ e, l = .fixed e → e.ReadsAsValue 0) :
    l.Reads inferable := by
  intro rest
  cases l with
  | slice => exact .ifAccept rfl (.ret rfl)
  | inferred =>
    have hlength : Yields (givenLength .full inferable) (·.shape = ArrayLength.inferred)
        (.punctuation .ellipsis :: .punctuation .rBracket :: rest) (.punctuation .rBracket :: rest) := by
      obtain rfl : inferable = true := h
      exact .andM (.ifAccept rfl (.ret rfl))
    exact .ifNotAccept rfl (.bind hlength fun _ hl => .expect rfl fun _ => .ret hl)
  | fixed e =>
    have hstart := (hvalue e rfl).starts (.punctuation .rBracket :: rest)
    have hlength : Yields (givenLength .full inferable) (·.shape = ArrayLength.fixed e.shape)
        (e.word ++ .punctuation .rBracket :: rest) (.punctuation .rBracket :: rest) := by
      have hread : Yields (do return ArrayLength.fixed (← full.expr 0)) (·.shape = ArrayLength.fixed e.shape)
          (e.word ++ .punctuation .rBracket :: rest) (.punctuation .rBracket :: rest) := by
        rw [expr_full]
        refine .bind ((hvalue e rfl).yields _ (.inl rfl)) fun e' he => .ret ?_
        rw [ArrayLength.shape, he]
      refine .andM ?_
      cases inferable with
      | false =>
        refine .bind (.ret rfl) ?_
        rintro _ rfl
        exact .no Bool.false_ne_true hread
      | true => exact .ifNotAccept (TokenKind.sameKind_of_startsValue hstart rfl) hread
    exact .ifNotAccept (TokenKind.sameKind_of_startsValue hstart rfl) (.bind hlength fun _ hl => .expect rfl fun _ => .ret hl)

/-! ## Parameters -/

/-- The token can start the type of a parameter. -/
def TokenKind.startsParameter (kind : TokenKind) : Bool := kind.startsType || kind.sameKind Punctuation.ellipsis

theorem TokenKind.sameKind_of_startsParameter {kind kind' : TokenKind} (h : kind.startsParameter = true)
    (h' : kind'.startsParameter = false) : kind.sameKind kind' = false :=
  sameKind_eq_false (fun k k' => by cases k <;> cases k' <;> simp_all [sameKind, startsParameter, startsType]) h h'

namespace Expr

/-- A type name is read as a type. -/
theorem readsAsType_typeName (ht : isTypeName t = true) : t.ReadsAsType inferable := by
  intro rest hrest
  have hread := Yields.typeName ht hrest
  cases t with
  | ident loc text => exact .current fun _ => hread.someType
  | selector loc operand field =>
    cases operand with
    | ident loc' text => exact .current fun _ => hread.someType
    | _ => nomatch ht
  | _ => nomatch ht

theorem ReadsAsType.parameter (h : t.ReadsAsType false) (ht : t.IsType false) : t.ReadsAsParameter variadic := by
  intro rest hrest
  refine .ifNotAt (TokenKind.sameKind_of_startsType (startsType_word ht _) rfl) ?_
  rw [type?_full]
  exact h rest hrest

theorem ReadsAsType.ellipsis {loc : Location} (h : t.ReadsAsType false) : (variadicType loc t).ReadsAsParameter true := by
  intro rest hrest
  refine .ifAt rfl (.map (.consume fun _ => .reportUnless rfl (.bind (.type h hrest) fun t' ht => .ret ?_)))
  exact ⟨_, rfl, by rw [shape, shape, ht]⟩

end Expr

/-- What stands for a group of parameters in a list. -/
theorem ParametersInGrammar.mem {fields : List Field} (h : ParametersInGrammar fields variadic) {f : Field} (hf : f ∈ fields) :
    ∃ v, f.IsParameter v := by
  induction fields with
  | nil => nomatch hf
  | cons g gs ih =>
    rcases List.mem_cons.1 hf with rfl | hf
    · exact ⟨_, h.1⟩
    · exact ih h.2 hf

namespace Field

variable {f : Field}

theorem IsParameter.startsParameter (h : f.IsParameter variadic) (tail : List TokenKind) :
    (nextKind (f.type.word ++ tail)).startsParameter = true := by
  obtain ⟨loc, names, type, tag⟩ := f
  cases type with
  | variadicType => rfl
  | _ => exact Bool.or_eq_true_iff.2 (.inl (Expr.startsType_word h.2 tail))

theorem IsParameter.tag_eq (h : f.IsParameter variadic) : f.tag = none := by
  obtain ⟨loc, names, type, tag⟩ := f
  cases type with
  | variadicType => exact h.2.2.1
  | _ => exact h.1

theorem IsParameter.word (h : f.IsParameter variadic) : f.word = namesWord f.names ++ f.type.word := by
  have hword : f.word = namesWord f.names ++ (f.type.word ++ wordOf? Literal.word f.tag) := by
    cases f
    exact word_mk _ _ _ _
  rw [hword, h.tag_eq, wordOf?, List.append_nil]

theorem IsParameter.startsParameter_word (h : f.IsParameter variadic) (tail : List TokenKind) :
    (nextKind (f.word ++ tail)).startsParameter = true := by
  rw [h.word]
  cases hnames : f.names with
  | nil => exact h.startsParameter tail
  | cons n ns =>
    rw [namesWord_cons]
    rfl

theorem IsParameter.shape (h : f.IsParameter variadic) : f.shape = ⟨default, f.names.map Name.shape, f.type.shape, none⟩ := by
  have hshape : f.shape = ⟨default, f.names.map Name.shape, f.type.shape, f.tag.map Literal.shape⟩ := by cases f; rfl
  rw [hshape, h.tag_eq, Option.map_none]

end Field

namespace Yields

/-- A type that is asked for in a list of parameters. -/
theorem parameterType (h : t.ReadsAsParameter variadic) (hrest : (nextKind rest).sameKind Punctuation.dot = false) :
    Yields (Grammar.parameterType .full variadic) (·.shape = t.shape) (t.word ++ rest) rest := by
  refine .bind (h rest hrest) ?_
  rintro _ ⟨t', rfl, ht⟩
  exact .ret ht

/-- Entries with commas between them, of which none is taken for the end of the list. -/
theorem parameterEntries {β : Type} {S : Expr → β → Prop} {word : β → List TokenKind} {xs : List β} (hne : xs ≠ [])
    (hdot : (nextKind rest).sameKind Punctuation.dot = false) (hcomma : (nextKind rest).sameKind Punctuation.comma = false)
    (hstart : ∀ x ∈ xs, ∀ tail, (nextKind (word x ++ tail)).sameKind Punctuation.rParen = false)
    (hitem : ∀ x ∈ xs, ∀ tail, (nextKind tail).sameKind Punctuation.dot = false →
      Yields (Grammar.parameterType .full variadic) (S · x) (word x ++ tail) tail) :
    Yields (Grammar.parameterEntries .full variadic) (List.Forall₂ S · xs) (commas (xs.map word) ++ rest) rest := by
  refine .bind (loopJoined (loopsEnd_full.entries variadic) (F := fun kind => kind.sameKind Punctuation.rParen = false) xs hne hstart
    (fun x hx acc tail htail => ?_) (fun x hx acc => ?_) #[]) fun as has => .ret has.forall₂
  · refine .bind (hitem x hx _ rfl) fun a ha => .ifAccept rfl (.ifNotAt htail (.ret ⟨_, rfl, a, rfl, ha⟩))
  · refine .bind (hitem x hx _ hdot) fun a ha => .ifNotAccept hcomma (.ret ⟨_, rfl, a, rfl, ha⟩)

/-- Entries that are names. -/
theorem namesOf {entries : List Expr} {ns : List Name}
    (h : List.Forall₂ (fun a n => a.shape = (Expr.ident n.loc n.text).shape) entries ns) :
    Yields (Grammar.namesOf entries) (fun r => r.map Name.shape = ns.map Name.shape) rest rest := by
  induction h with
  | nil => exact .ret rfl
  | @cons a n entries ns ha _ ih =>
    cases a with
    | ident loc text =>
      obtain ⟨-, rfl⟩ := Expr.ident.inj ha
      exact .bind (.ret rfl) fun _ hn => .bind ih fun _ hns => .ret (by rw [← hn, List.map_cons, List.map_cons, hns]; rfl)
    | _ => nomatch ha

variable {f : Field} {fields : List Field}

/-- A group of names and the type behind them. -/
theorem parameterGroup (hnames : f.names ≠ []) (hin : f.IsParameter variadic) {v : Bool} (htype : f.type.ReadsAsParameter v)
    (hrest : (nextKind rest).sameKind Punctuation.dot = false) :
    Yields (Grammar.parameterGroup .full v) (·.shape = f.shape) (f.word ++ rest) rest := by
  have hcomma : (nextKind (f.type.word ++ rest)).sameKind Punctuation.comma = false :=
    TokenKind.sameKind_of_startsParameter (hin.startsParameter rest) rfl
  rw [hin.word, List.append_assoc]
  refine .current fun loc => .bind (.names hnames hcomma) fun ns hns => .bind (.parameterType htype hrest) fun t' ht => .ret ?_
  rw [hin.shape, Field.shape, hns, ht, Option.map_none]

/-- The groups behind the first one. -/
theorem moreGroups (hnames : ∀ f ∈ fields, f.names ≠ []) (hin : ∀ f ∈ fields, ∃ v, f.IsParameter v)
    (htype : ∀ f ∈ fields, f.type.ReadsAsParameter variadic) :
    Yields (Grammar.moreGroups .full variadic) (List.Forall₂ (fun a f => a.shape = f.shape) · fields)
      (fields.flatMap (.punctuation .comma :: ·.word) ++ .punctuation .rParen :: rest) (.punctuation .rParen :: rest) := by
  refine .bind (loopItems (loopsEnd_full.parameters variadic)
    (F := fun kind => kind = .punctuation .comma ∨ kind = .punctuation .rParen)
    (.inr rfl) (fun acc => .ifNotAccept rfl (.ret rfl)) fields (fun f _ tail => .inl rfl) (fun f hf acc tail htail => ?_) #[])
    fun as has => .ret has.forall₂
  obtain ⟨v, hf'⟩ := hin f hf
  have hdot : (nextKind tail).sameKind Punctuation.dot = false := by
    rcases htail with h | h <;> rw [h] <;> rfl
  have hparen : (nextKind (f.word ++ tail)).sameKind Punctuation.rParen = false :=
    TokenKind.sameKind_of_startsParameter (hf'.startsParameter_word tail) rfl
  refine .ifAccept rfl (.ifNotAt hparen (.bind (parameterGroup (hnames f hf) hf' (htype f hf) hdot) fun a ha => ?_))
  exact .ret ⟨_, rfl, a, rfl, ha⟩

/-- A parameter that may be variadic is not reported. -/
theorem checkField {a f : Field} {read : List Field} (ha : a.shape = f.shape) (hlength : read.length = fields.length)
    (hin : f.IsParameter (true && fields.isEmpty)) : Yields (Grammar.checkField read.isEmpty a) (fun _ => True) rest rest := by
  obtain ⟨loc, ns, t, tag⟩ := a
  obtain ⟨loc', ns', t', tag'⟩ := f
  obtain ⟨-, hnames, htype, -⟩ := Field.mk.inj ha
  cases t with
  | variadicType =>
    cases t' with
    | variadicType =>
      obtain ⟨hlast, hone, -⟩ := hin
      have hns : ns.length = ns'.length := by
        rw [← List.length_map (f := Name.shape), hnames, List.length_map]
      have hread : read.isEmpty = true := by
        rw [List.isEmpty_iff_length_eq_zero, hlength, ← List.isEmpty_iff_length_eq_zero]
        exact hlast
      refine .last (.reportUnless ?_ (.ret trivial))
      rw [hread, Bool.true_and, decide_eq_true_eq, hns]
      exact hone
    | _ => nomatch htype
  | _ => exact .ret trivial

/-- Where only the last parameter is variadic there is nothing to report. -/
theorem checkFields {read : List Field} (h : List.Forall₂ (fun a f => a.shape = f.shape) read fields)
    (hin : ParametersInGrammar fields variadic) : Yields (Grammar.checkFields variadic read) (fun _ => True) rest rest := by
  cases variadic with
  | false => exact .ret trivial
  | true =>
    change Yields (checkVariadic read) _ _ _
    induction h with
    | nil => exact .ret trivial
    | @cons a f read fields ha has ih =>
      obtain ⟨hf, hfs⟩ := hin
      exact .bind (checkField ha has.length_eq hf) fun _ _ => ih hfs

/-- Entries that are all types: no type comes behind them. -/
theorem unnamedList (hne : fields ≠ []) (hnames : ∀ f ∈ fields, f.names = []) (hin : ∀ f ∈ fields, ∃ v, f.IsParameter v)
    (htype : ∀ f ∈ fields, f.type.ReadsAsParameter variadic) :
    Yields (parameterList .full variadic) (List.Forall₂ (fun a f => a.shape = f.shape) · fields)
      (fieldsWord fields ++ .punctuation .rParen :: rest) (.punctuation .rParen :: rest) := by
  have hword : ∀ f ∈ fields, f.word = f.type.word := by
    intro f hf
    obtain ⟨v, hf'⟩ := hin f hf
    rw [hf'.word, hnames f hf]
    rfl
  refine .bind (parameterEntries hne rfl rfl (S := fun t f => (unnamed t).shape = f.shape) (fun f hf tail => ?_)
    (fun f hf tail htail => ?_)) fun entries hentries => ?_
  · obtain ⟨v, hf'⟩ := hin f hf
    exact TokenKind.sameKind_of_startsParameter (hf'.startsParameter_word tail) rfl
  · obtain ⟨v, hf'⟩ := hin f hf
    rw [hword f hf]
    refine (parameterType (htype f hf) htail).conseq fun t' ht => ?_
    rw [hf'.shape, unnamed, Field.shape, ht, hnames f hf]
    rfl
  · have hnone : Yields (parameterType? .full variadic) (· = none) (.punctuation .rParen :: rest) (.punctuation .rParen :: rest) :=
      .ifNotAt rfl (noType rfl)
    refine .bind hnone ?_
    rintro _ rfl
    exact .ret (List.forall₂_map_left_iff.2 hentries)

/-- Entries of which the first are names: a type comes behind them. -/
theorem namedList (hne : fields ≠ []) (hnames : ∀ f ∈ fields, f.names ≠ []) (hin : ∀ f ∈ fields, ∃ v, f.IsParameter v)
    (htype : ∀ f ∈ fields, f.type.ReadsAsParameter variadic) :
    Yields (parameterList .full variadic) (List.Forall₂ (fun a f => a.shape = f.shape) · fields)
      (fieldsWord fields ++ .punctuation .rParen :: rest) (.punctuation .rParen :: rest) := by
  obtain ⟨f, fs, rfl⟩ := List.exists_cons_of_ne_nil hne
  obtain ⟨v, hf⟩ := hin f (List.mem_cons_self ..)
  have hstart := hf.startsParameter (fs.flatMap (.punctuation .comma :: ·.word) ++ .punctuation .rParen :: rest)
  have hdot : (nextKind (fs.flatMap (.punctuation .comma :: ·.word) ++ .punctuation .rParen :: rest)).sameKind Punctuation.dot
      = false := by
    cases fs <;> rfl
  rw [fieldsWord_cons, List.flatMap_map, hf.word, List.append_assoc, List.append_assoc]
  refine .bind (parameterEntries (hnames f (List.mem_cons_self ..)) (S := fun a n => a.shape = (Expr.ident n.loc n.text).shape)
    (TokenKind.sameKind_of_startsParameter hstart rfl) (TokenKind.sameKind_of_startsParameter hstart rfl) (fun n _ tail => rfl)
    fun n _ tail htail => ?_) fun entries hentries => .bind (htype f (List.mem_cons_self ..) _ hdot) ?_
  · exact parameterType ((Expr.readsAsType_typeName rfl).parameter trivial) htail
  · rintro _ ⟨t', rfl, ht⟩
    refine .bind (namesOf hentries) fun ns hns => ?_
    refine .bind (moreGroups (fun g hg => hnames g (List.mem_cons_of_mem f hg)) (fun g hg => hin g (List.mem_cons_of_mem f hg))
      fun g hg => htype g (List.mem_cons_of_mem f hg)) fun gs hgs => .ret (.cons ?_ hgs)
    rw [hf.shape, Field.shape, hns, ht, Option.map_none]

/-- Parameters, all with names or all without, in parentheses. -/
theorem parameters (halike : namedAlike fields) (hin : ParametersInGrammar fields variadic)
    (htype : ∀ f ∈ fields, f.type.ReadsAsParameter variadic) :
    Yields (Grammar.parameters .full variadic) (fun r => shapesOfFields r = shapesOfFields fields)
      (.punctuation .lParen :: (fieldsWord fields ++ .punctuation .rParen :: rest)) rest := by
  have hfields : Yields (parameterFields .full variadic) (fun r => shapesOfFields r = shapesOfFields fields)
      (fieldsWord fields ++ .punctuation .rParen :: rest) (.punctuation .rParen :: rest) := by
    by_cases hne : fields = []
    · subst hne
      exact .ifAt rfl (.ret rfl)
    · have hlist : Yields (parameterList .full variadic) (List.Forall₂ (fun a f => a.shape = f.shape) · fields)
          (fieldsWord fields ++ .punctuation .rParen :: rest) (.punctuation .rParen :: rest) := by
        rcases halike with hnone | hall
        · exact unnamedList hne hnone (fun _ => hin.mem) htype
        · exact namedList hne hall (fun _ => hin.mem) htype
      have hstart : (nextKind (fieldsWord fields ++ .punctuation .rParen :: rest)).sameKind Punctuation.rParen = false := by
        obtain ⟨f, fs, rfl⟩ := List.exists_cons_of_ne_nil hne
        obtain ⟨v, hf⟩ := hin.mem (List.mem_cons_self ..)
        rw [fieldsWord_cons, List.append_assoc]
        exact TokenKind.sameKind_of_startsParameter (hf.startsParameter_word _) rfl
      refine .ifNotAt hstart (.bind hlist fun read hread => .bind (checkFields hread hin) fun _ _ => .ret ?_)
      exact shapes_congr shapesOfFields_eq hread
  exact .expect rfl fun _ => .bind hfields fun _ h => .expect rfl fun _ => .ret h

end Yields

/-- A signature whose parameters are read back. -/
theorem Signature.reads {s : Signature} (h : s.InGrammar) (hparams : ∀ f ∈ s.params, f.type.ReadsAsParameter true)
    (hresults : ∀ f ∈ s.results, f.type.ReadsAsParameter false) : s.Reads := by
  intro rest
  obtain ⟨params, results⟩ := s
  obtain ⟨⟨hparams', hin⟩, hresults', hin'⟩ := h
  rw [word_mk, List.cons_append, List.append_assoc, List.cons_append, List.cons_append, List.append_assoc]
  refine .bind (.parameters hparams' hin hparams) fun ps hps => ?_
  refine .bind (.ifAt rfl (.parameters hresults' hin' hresults)) fun rs hrs => ?_
  refine .ret ?_
  rw [shape, shape, hps, hrs]

/-! ## Bodies of structs and interfaces -/

namespace Yields

/-- Items in braces, a `;` behind each. -/
theorem bodyItems {α β : Type} {S : α → β → Prop} {word : β → List TokenKind} {starts : TokenKind → Bool} {item : Parse α}
    {missing : String → Fault} (hends : Ends (itemPass starts item missing)) {xs : List β}
    (hstart : ∀ x ∈ xs, ∀ tail, starts (nextKind (word x ++ tail)) = true)
    (hbody : ∀ kind, starts kind = true → endsBody kind = false)
    (hitem : ∀ x ∈ xs, ∀ tail, Yields item (S · x) (word x ++ .punctuation .semicolon :: tail) (.punctuation .semicolon :: tail)) :
    Yields (Grammar.bodyItems starts item missing) (List.Forall₂ S · xs)
      (.punctuation .lBrace :: (terminatedWords (xs.map word) ++ .punctuation .rBrace :: rest)) rest := by
  rw [terminatedWords, List.flatMap_map]
  refine .expect rfl fun _ => .bind (loopItems hends (F := fun _ => True) trivial (fun acc => ?_) xs (fun _ _ _ => trivial)
    (fun x hx acc tail _ => ?_) #[]) fun as has => .expect rfl fun _ => .ret has.forall₂
  · exact .current fun _ => .ret rfl
  · refine .current fun _ => ?_
    rw [List.append_assoc, if_neg, if_pos]
    · refine .bind (hitem x hx _) fun a ha => .orM (.ifNotAt rfl (.accept rfl ?_))
      exact .ret ⟨_, rfl, a, rfl, ha⟩
    · exact hstart x hx _
    · rw [hbody _ (hstart x hx _)]
      exact Bool.false_ne_true

/-- The tag behind a field, if there is one. -/
theorem tag {l : Option Literal} (h : ∀ t ∈ l, t.isString = true) : Yields stringLiteral? (·.map Literal.shape = l.map Literal.shape)
    (wordOf? Literal.word l ++ .punctuation .semicolon :: rest) (.punctuation .semicolon :: rest) := by
  cases l with
  | none => exact (noStringLiteral rfl).conseq fun r hr => by rw [hr]
  | some t =>
    refine (stringLiteral (h t rfl)).conseq ?_
    rintro _ ⟨loc, rfl⟩
    rfl

end Yields

/-- What starts a field does not end the body. -/
theorem TokenKind.endsBody_of_startsField {kind : TokenKind} (h : startsField kind = true) : endsBody kind = false := by
  have hstart : Recovery.declarationStart.contains kind = false := by
    by_contra hcontains
    obtain ⟨word, -, rfl⟩ := (TokenSet.contains_keywords _ _).1 (eq_true_of_ne_false hcontains)
    nomatch h
  rw [endsBody, hstart]
  cases kind with
  | ident | operator => rfl
  | _ => nomatch h

/-- The token ends the type of a field: a `;`, or the tag before one. -/
def TokenKind.endsField (kind : TokenKind) : Bool := kind.sameKind Punctuation.semicolon || kind.isStringLiteral

theorem TokenKind.namesNoField_of_endsField {kind : TokenKind} (h : kind.endsField = true) :
    namesNoField kind = true ∧ kind.sameKind Punctuation.dot = false := by
  rcases Bool.or_eq_true_iff.1 h with h | h
  · obtain rfl := (Bare.sameKind_iff kind).1 h
    exact ⟨rfl, rfl⟩
  · refine ⟨by rw [namesNoField, h, Bool.or_true], ?_⟩
    cases kind with
    | literal value => rfl
    | _ => nomatch h

namespace Yields

/-- The name of a type on its own embeds the type. -/
theorem embeddedType (ht : isTypeName t = true) (hrest : (nextKind rest).endsField = true) :
    Yields (fieldType .full) (fun r => r.1.map Name.shape = [] ∧ r.2.shape = t.shape) (t.word ++ rest) rest := by
  obtain ⟨hnone, hdot⟩ := TokenKind.namesNoField_of_endsField hrest
  have hname := typeName ht hdot
  cases t with
  | ident loc text =>
    exact .current fun _ => .yes rfl (.peekSecond fun _ => .yes hnone (.bind hname fun t' ht => .ret ⟨rfl, ht⟩))
  | selector loc operand field =>
    cases operand with
    | ident loc' text =>
      exact .current fun _ => .yes rfl (.peekSecond fun _ => .yes rfl (.bind hname fun t' ht => .ret ⟨rfl, ht⟩))
    | _ => nomatch ht
  | _ => nomatch ht

/-- So does a pointer to a type. -/
theorem embeddedPointer {loc : Location} (ht : isTypeName t = true) (hrest : (nextKind rest).endsField = true) :
    Yields (fieldType .full) (fun r => r.1.map Name.shape = [] ∧ r.2.shape = (Expr.star loc t).shape)
      ((Expr.star loc t).word ++ rest) rest := by
  refine .current fun _ => .consume fun _ => .bind (typeName ht (TokenKind.namesNoField_of_endsField hrest).2) fun t' ht => .ret ?_
  exact ⟨rfl, by rw [Expr.shape, Expr.shape, ht]⟩

/-- Names come before a comma or a type. -/
theorem namedType {ns : List Name} (hne : ns ≠ []) (ht : t.IsType false) (h : t.ReadsAsType false)
    (hrest : (nextKind rest).endsField = true) :
    Yields (fieldType .full) (fun r => r.1.map Name.shape = ns.map Name.shape ∧ r.2.shape = t.shape)
      (namesWord ns ++ (t.word ++ rest)) rest := by
  have hstart := Expr.startsType_word ht rest
  have hnames := names hne (TokenKind.sameKind_of_startsType hstart rfl)
  have hdot := (TokenKind.namesNoField_of_endsField hrest).2
  obtain ⟨n, ns, rfl⟩ := List.exists_cons_of_ne_nil hne
  rw [namesWord_cons, List.cons_append] at hnames ⊢
  have hsecond : namesNoField (nextKind ((ns.map Name.word).flatMap (.punctuation .comma :: ·) ++ (t.word ++ rest))) = false := by
    cases ns with
    | nil =>
      change namesNoField (nextKind (t.word ++ rest)) = false
      generalize nextKind (t.word ++ rest) = kind at hstart
      rw [namesNoField, TokenKind.sameKind_of_startsType hstart rfl, TokenKind.sameKind_of_startsType hstart rfl,
        TokenKind.sameKind_of_startsType hstart rfl]
      cases kind with
      | literal value => nomatch hstart
      | _ => rfl
    | cons n' ns => rfl
  refine .current fun _ => .yes rfl (.peekSecond fun _ => .no (ne_true_of_eq_false hsecond) ?_)
  exact .bind hnames fun ns' hns => .bind (.type h hdot) fun t' ht => .ret ⟨hns, ht⟩

end Yields

/-- A field of a struct is read back, embedded or with names. -/
theorem Field.reads {f : Field} (h : f.InGrammar) (htype : f.names ≠ [] → f.type.ReadsAsType false) : f.Reads := by
  intro rest
  obtain ⟨loc, names, type, tag⟩ := f
  have htag : ∀ l ∈ tag, l.isString = true := by
    cases names with
    | nil => cases type <;> exact h.2
    | cons n ns => exact h.2
  have hrest : (nextKind (wordOf? Literal.word tag ++ .punctuation .semicolon :: rest)).endsField = true := by
    cases tag with
    | none => rfl
    | some l => exact htag l rfl
  have hfield : Yields (fieldType .full) (fun r => r.1.map Name.shape = names.map Name.shape ∧ r.2.shape = type.shape)
      (namesWord names ++ (type.word ++ (wordOf? Literal.word tag ++ .punctuation .semicolon :: rest)))
      (wordOf? Literal.word tag ++ .punctuation .semicolon :: rest) := by
    cases names with
    | nil =>
      cases type with
      | star loc' type => exact .embeddedPointer h.1 hrest
      | _ => exact .embeddedType h.1 hrest
    | cons n ns => exact .namedType (List.cons_ne_nil n ns) h.1 (htype (List.cons_ne_nil n ns)) hrest
  rw [word_mk, List.append_assoc, List.append_assoc]
  refine .current fun _ => .bind hfield ?_
  rintro ⟨names', type'⟩ ⟨hnames, ht⟩
  refine .bind (.tag htag) fun tag' htag' => .ret ?_
  rw [shape, shape, hnames, ht, htag']

theorem Field.InGrammar.startsField_word {f : Field} (h : f.InGrammar) (tail : List TokenKind) :
    startsField (nextKind (f.word ++ tail)) = true := by
  obtain ⟨loc, names, type, tag⟩ := f
  rw [word_mk]
  cases names with
  | nil =>
    cases type with
    | star => rfl
    | ident => rfl
    | selector loc operand field =>
      cases operand with
      | ident => rfl
      | _ => nomatch h.1
    | _ => nomatch h.1
  | cons n ns =>
    rw [namesWord_cons]
    rfl

/-- An element of an interface is read back: a parenthesis behind its name makes it a method. -/
theorem InterfaceElem.reads {e : InterfaceElem} (h : e.InGrammar) (hsig : ∀ loc name sig, e = .method loc name sig → sig.Reads) :
    e.Reads := by
  intro rest
  cases e with
  | method loc n sig =>
    have hparen : ∃ tail, sig.word = .punctuation .lParen :: tail := by
      obtain ⟨params, results⟩ := sig
      exact ⟨_, Signature.word_mk params results⟩
    obtain ⟨tail, hparen⟩ := hparen
    have hread := hsig loc n sig rfl (.punctuation .semicolon :: rest)
    rw [word_method, hparen] at *
    refine .current fun _ => .peekSecond fun _ => .name fun _ => .bind hread fun sig' hs => .ret ?_
    rw [shape, shape, hs]
    rfl
  | embedded loc type =>
    have hembed : ∀ here : Location, Yields (do return InterfaceElem.embedded here (← typeName)) (·.shape = (embedded loc type).shape)
        (type.word ++ .punctuation .semicolon :: rest) (.punctuation .semicolon :: rest) := by
      refine fun here => .bind (.typeName h rfl) fun t' ht => .ret ?_
      rw [shape, shape, ht]
    cases type with
    | ident => exact .current fun _ => .peekSecond fun _ => .no Bool.false_ne_true (hembed _)
    | selector loc' operand field =>
      cases operand with
      | ident => exact .current fun _ => .peekSecond fun _ => .no Bool.false_ne_true (hembed _)
      | _ => nomatch h
    | _ => nomatch h

theorem InterfaceElem.InGrammar.isIdent_word {e : InterfaceElem} (h : e.InGrammar) (tail : List TokenKind) :
    (nextKind (e.word ++ tail)).isIdent = true := by
  cases e with
  | method => rfl
  | embedded loc type =>
    cases type with
    | ident => rfl
    | selector loc operand field =>
      cases operand with
      | ident => rfl
      | _ => nomatch h
    | _ => nomatch h

namespace Yields

theorem structType {loc : Location} {fields : List Field} (hin : ∀ f ∈ fields, f.InGrammar) (h : ∀ f ∈ fields, f.Reads) :
    Yields (Grammar.structType .full) (·.shape = (Expr.structType loc fields).shape)
      ((Expr.structType loc fields).word ++ rest) rest := by
  rw [Expr.word_structType, List.cons_append, List.cons_append, List.append_assoc]
  refine .consume fun _ => .bind (bodyItems loopsEnd_full.fields (fun f hf => (hin f hf).startsField_word)
    (fun _ => TokenKind.endsBody_of_startsField) h) fun read hread => .ret ?_
  rw [Expr.shape, Expr.shape, shapes_congr shapesOfFields_eq hread]

theorem interfaceType {loc : Location} {elems : List InterfaceElem} (hin : ∀ e ∈ elems, e.InGrammar) (h : ∀ e ∈ elems, e.Reads) :
    Yields (Grammar.interfaceType .full) (·.shape = (Expr.interfaceType loc elems).shape)
      ((Expr.interfaceType loc elems).word ++ rest) rest := by
  have hbody : ∀ kind : TokenKind, kind.isIdent = true → endsBody kind = false := fun kind h =>
    TokenKind.endsBody_of_startsField (Bool.or_eq_true_iff.2 (.inl h))
  rw [Expr.word_interfaceType, List.cons_append, List.cons_append, List.append_assoc]
  refine .consume fun _ => ?_
  refine .bind (bodyItems loopsEnd_full.methods (fun e he => (hin e he).isIdent_word) hbody h) fun read hread => .ret ?_
  rw [Expr.shape, Expr.shape, shapes_congr shapesOfElems_eq hread]

end Yields

/-! ## All types -/

namespace Expr

variable {loc : Location}

theorem readsFrom_paren (h : t.ReadsBefore spelling Punctuation.rParen) :
    (paren loc t).ReadsFrom (.punctuation .lParen :: (spelling ++ [.punctuation .rParen])) inferable := by
  intro rest _
  rw [List.cons_append, List.append_assoc]
  exact .current fun _ => (Yields.parenType h).someType

theorem readsAsType_paren (h : t.ReadsAsType false) : (paren loc t).ReadsAsType inferable :=
  readsFrom_paren fun _ => .type h rfl

theorem readsFrom_star (h : t.ReadsFrom spelling false) : (star loc t).ReadsFrom (.operator .mul :: spelling) inferable := fun _ hrest =>
  .current fun _ => (Yields.pointerType h hrest).someType

theorem readsAsType_star (h : t.ReadsAsType false) : (star loc t).ReadsAsType inferable := readsFrom_star h

theorem readsFrom_arrayType {length : ArrayLength} (hlength : length.ReadsFrom lengthSpelling inferable)
    (h : elem.ReadsFrom spelling false) :
    (Expr.arrayType loc length elem).ReadsFrom (.punctuation .lBracket :: (lengthSpelling ++ .punctuation .rBracket :: spelling)) inferable := by
  intro rest hrest
  rw [List.cons_append, List.append_assoc]
  exact .current fun _ => (Yields.arrayType hlength h hrest).someType

theorem readsAsType_arrayType {length : ArrayLength} (hlength : length.Reads inferable) (h : elem.ReadsAsType false) :
    (Expr.arrayType loc length elem).ReadsAsType inferable := by
  rw [ReadsAsType, word_arrayType]
  exact readsFrom_arrayType hlength h

theorem readsAsType_structType {fields : List Field} (hin : ∀ f ∈ fields, f.InGrammar) (h : ∀ f ∈ fields, f.Reads) :
    (structType loc fields).ReadsAsType inferable := fun _ _ =>
  .current fun _ => (Yields.structType hin h).someType

theorem readsAsType_functionType {sig : Signature} (h : sig.Reads) : (functionType loc sig).ReadsAsType inferable := fun _ _ =>
  .current fun _ => (Yields.functionType h).someType

theorem readsAsType_interfaceType {elems : List InterfaceElem} (hin : ∀ e ∈ elems, e.InGrammar) (h : ∀ e ∈ elems, e.Reads) :
    (interfaceType loc elems).ReadsAsType inferable := fun _ _ =>
  .current fun _ => (Yields.interfaceType hin h).someType

theorem readsFrom_mapType (hkey : key.ReadsBefore keySpelling Punctuation.rBracket) (hvalue : value.ReadsFrom spelling false) :
    (mapType loc key value).ReadsFrom (.keyword .map :: .punctuation .lBracket :: (keySpelling ++ .punctuation .rBracket :: spelling)) inferable := by
  intro rest hrest
  rw [List.cons_append, List.cons_append, List.append_assoc]
  exact .current fun _ => (Yields.mapType hkey hvalue hrest).someType

theorem readsAsType_mapType (hkey : key.ReadsAsType false) (hvalue : value.ReadsAsType false) :
    (mapType loc key value).ReadsAsType inferable := by
  rw [ReadsAsType, word_mapType]
  exact readsFrom_mapType (fun _ => .type hkey rfl) hvalue

/-- Only the type of a channel to receive from starts with an arrow that could be taken for the direction of another channel. -/
theorem sameKind_arrow_word (ht : t.IsType false) (h : t.isReceiveType = false) (tail : List TokenKind) :
    (nextKind (t.word ++ tail)).sameKind Operator.arrow = false := by
  cases t with
  | channelType loc direction elem =>
    cases direction with
    | receive => nomatch h
    | _ => rfl
  | ident | paren | star | arrayType | structType | functionType | interfaceType | mapType => rfl
  | selector loc operand field =>
    cases operand with
    | ident => rfl
    | _ => exact ht.elim
  | _ => exact ht.elim

theorem readsFrom_channelType {direction : ChannelDirection} (h : elem.ReadsFrom spelling false)
    (harrow : direction = .both → ∀ rest, (nextKind (spelling ++ rest)).sameKind Operator.arrow = false) :
    (channelType loc direction elem).ReadsFrom (direction.word ++ spelling) inferable := by
  intro rest hrest
  have hread := Yields.channelType loc h (fun hboth => harrow hboth rest) hrest
  rw [List.append_assoc]
  cases direction <;> exact .current fun _ => hread.someType

theorem readsAsType_channelType {direction : ChannelDirection} (hin : elem.IsType false)
    (hreceive : direction = .both → elem.isReceiveType = false) (h : elem.ReadsAsType false) :
    (channelType loc direction elem).ReadsAsType inferable := by
  rw [ReadsAsType, word_channelType]
  exact readsFrom_channelType h fun hboth => sameKind_arrow_word hin (hreceive hboth)

end Expr

end GoSyntax
