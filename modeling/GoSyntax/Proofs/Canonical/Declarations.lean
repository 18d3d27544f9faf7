import GoSyntax.Proofs.Canonical.Control
import GoSyntax.Grammar.File

/-!
# Declarations are read back

A specification is read back in front of a `;`. So are the members of a group: the first one is known as the first, and behind each a `;`
stands, so that the group is not given up.
-/

namespace GoSyntax

open Parse Grammar Productions

variable {rest : List TokenKind} {loc : Location} {keyword : Keyword} {isFirst : Bool}

/-- In a declaration, the word of a specification is read back in front of a `;`. -/
structure Spec.Reads (s : Spec) (keyword : Keyword) (isFirst : Bool) : Prop where
  starts : ∀ tail, startsSpec keyword (nextKind (s.word ++ tail)) = true
  yields : ∀ rest, Yields (Grammar.spec .full keyword isFirst) (·.shape = s.shape) (s.word ++ .punctuation .semicolon :: rest)
    (.punctuation .semicolon :: rest)

/-- Specifications of one declaration are read back. -/
def SpecsRead : List Spec → Keyword → Bool → Prop
  | [], _, _ => True
  | s :: ss, keyword, isFirst => s.Reads keyword isFirst ∧ SpecsRead ss keyword false

/-- The word of a declaration is read back in front of a `;`. -/
def DeclGroup.Reads (g : DeclGroup) : Prop :=
  ∀ rest, Yields (Grammar.declGroup .full g.keyword) (·.shape = g.shape) (g.word ++ .punctuation .semicolon :: rest)
    (.punctuation .semicolon :: rest)

namespace Spec

/-- An import. -/
theorem reads_import {spec : ImportSpec} (hpath : spec.path.isString = true) : (Spec.import loc spec).Reads .import isFirst where
  starts tail := by
    rw [word_import loc spec hpath]
    cases spec.name with
    | none => exact hpath
    | some n =>
      rw [wordOf?, importNameWord]
      split <;> rfl
  yields rest := by
    have hname : Yields importName? (fun r => r.map Name.shape = spec.name.map Name.shape)
        (wordOf? importNameWord spec.name ++ (spec.path.word ++ .punctuation .semicolon :: rest))
        (spec.path.word ++ .punctuation .semicolon :: rest) := by
      cases spec.name with
      | none => exact .current fun _ => .no Bool.false_ne_true (.no Bool.false_ne_true (.ret rfl))
      | some n =>
        rw [wordOf?, importNameWord]
        split
        · next hdot =>
          refine .current fun _ => .yes rfl (.consume fun _ => .ret ?_)
          rw [Option.map_some, Option.map_some, Name.shape, Name.shape, hdot]
        · exact .current fun _ => .no Bool.false_ne_true (.yes rfl (.map (.last (.name fun _ => .ret rfl))))
    have hread : Yields importPath (·.shape = spec.path.shape) (spec.path.word ++ .punctuation .semicolon :: rest)
        (.punctuation .semicolon :: rest) := by
      refine .bind (.stringLiteral hpath) ?_
      rintro _ ⟨loc', rfl⟩
      exact .ret rfl
    have hspec : Yields importSpec (·.shape = spec.shape)
        (wordOf? importNameWord spec.name ++ (spec.path.word ++ .punctuation .semicolon :: rest))
        (.punctuation .semicolon :: rest) := by
      refine .bind hname fun name' hn => .bind hread fun path' hp => .ret ?_
      rw [ImportSpec.shape, ImportSpec.shape, hn, hp]
    rw [word_import loc spec hpath, List.append_assoc]
    refine .current fun _ => .bind hspec fun spec' hs => .ret ?_
    rw [shape, shape, hs]

theorem reads_type {name : Name} {type : Expr} (h : type.ReadsAsType false) : (Spec.type loc name type).Reads .type isFirst where
  starts tail := rfl
  yields rest := by
    refine .current fun _ => .name fun _ => .bind (.type h rfl) fun type' ht => .ret ?_
    rw [shape, shape, ht]
    rfl

/-- The type of a specification may be missing, if nothing that starts a type comes next. -/
theorem yields_type? {type : Option Expr} (htype : ∀ t ∈ type, t.ReadsAsType false) (hstart : (nextKind rest).startsType = false)
    (hdot : (nextKind rest).sameKind Punctuation.dot = false) :
    Yields full.type? (fun r => shapeOfExpr? r = shapeOfExpr? type) (wordOf? Expr.word type ++ rest) rest := by
  cases type with
  | none => exact (Yields.noType hstart).conseq fun r hr => by rw [hr]
  | some t =>
    rw [type?_full]
    refine ((htype t rfl) _ hdot).conseq ?_
    rintro _ ⟨t', rfl, ht⟩
    exact congrArg some ht

/-- The values of a specification may be missing, unless they are required. -/
theorem yields_specValues {values : List Expr} {required : Bool} (hvalues : required = true → values ≠ [])
    (h : ∀ e ∈ values, e.ReadsAsValue 0) :
    Yields (specValues .full required) (fun r => shapesOfExprs r = shapesOfExprs values)
      (valuesWord values ++ .punctuation .semicolon :: rest) (.punctuation .semicolon :: rest) := by
  cases values with
  | nil =>
    obtain rfl : required = false := eq_false_of_ne_true fun hr => hvalues hr rfl
    exact .ifNotAccept rfl (.ret rfl)
  | cons e es =>
    exact .ifAccept rfl (.bind (.exprList (List.cons_ne_nil e es) h rfl (.inl rfl)) fun r hr => .ret (shapes_congr shapesOfExprs_eq hr))

/-- Constants or variables. -/
theorem reads_value {names : List Name} {type : Option Expr} {values : List Expr} (hkeyword : keyword = .const ∨ keyword = .var)
    (hne : names ≠ []) (hvalues : keyword = .const → (type.isSome || isFirst) = true → values ≠ [])
    (htype : ∀ t ∈ type, t.IsType false ∧ t.ReadsAsType false) (h : ∀ e ∈ values, e.ReadsAsValue 0) :
    (Spec.value loc names type values).Reads keyword isFirst where
  starts tail := by
    obtain ⟨n, ns, rfl⟩ := List.exists_cons_of_ne_nil hne
    rw [word_value, namesWord_cons]
    rcases hkeyword with rfl | rfl <;> rfl
  yields rest := by
    have hend : ∀ tail, (nextKind (valuesWord values ++ .punctuation .semicolon :: tail)).startsType = false
        ∧ (nextKind (valuesWord values ++ .punctuation .semicolon :: tail)).sameKind Punctuation.dot = false
        ∧ (nextKind (valuesWord values ++ .punctuation .semicolon :: tail)).sameKind Punctuation.comma = false := by
      intro tail
      cases values <;> exact ⟨rfl, rfl, rfl⟩
    obtain ⟨hstart, hdot, hcomma⟩ := hend rest
    have hnames : (nextKind (wordOf? Expr.word type ++ (valuesWord values ++ .punctuation .semicolon :: rest))).sameKind
        Punctuation.comma = false := by
      cases type with
      | none => exact hcomma
      | some t => exact TokenKind.sameKind_of_startsType (Expr.startsType_word (htype t rfl).1 _) rfl
    have hrequired : (keyword == .const && (type.isSome || isFirst)) = true → values ≠ [] := fun hr =>
      hvalues (eq_of_beq (Bool.and_eq_true_iff.1 hr).1) (Bool.and_eq_true_iff.1 hr).2
    have hspec : ∀ loc', Yields (valueSpec .full keyword isFirst loc') (·.shape = (value loc names type values).shape)
        (namesWord names ++ (wordOf? Expr.word type ++ (valuesWord values ++ .punctuation .semicolon :: rest)))
        (.punctuation .semicolon :: rest) := by
      refine fun loc' => .bind (.names hne hnames) fun names' hn =>
        .bind (yields_type? (fun t ht => (htype t ht).2) hstart hdot) fun type' ht => ?_
      rw [Expr.isSome_eq_of_shape ht]
      refine .bind (yields_specValues hrequired h) fun values' hv => .ret ?_
      rw [shape, shape, hn, ht, hv]
    rw [word_value, List.append_assoc, List.append_assoc]
    rcases hkeyword with rfl | rfl <;> exact .current fun _ => hspec _

end Spec

theorem sameKind_of_startsSpec {kind kind' : TokenKind} [TokenKind.Bare kind'] (h : startsSpec keyword kind = true)
    (h' : startsSpec keyword kind' = false) : kind.sameKind kind' = false := by
  refine eq_false_of_ne_true fun hsame => ?_
  rw [(TokenKind.Bare.sameKind_iff kind).1 hsame, h'] at h
  exact Bool.false_ne_true h

theorem startsSpec_eq_false (keyword : Keyword) : startsSpec keyword Punctuation.lParen = false
    ∧ startsSpec keyword Punctuation.rParen = false ∧ startsSpec keyword .eof = false := by
  unfold startsSpec
  split <;> exact ⟨rfl, rfl, rfl⟩

namespace Yields

/-- The members of a group that are left: the first of the group is known by the members before it, of which there are none. -/
theorem specLoop {specs : List Spec} (h : SpecsRead specs keyword isFirst) {acc : Array Spec} (hacc : acc.isEmpty = isFirst) :
    Yields (loop (acc, true) (specPass .full keyword)) (fun r => r.2 = true ∧ Grown (fun a s => a.shape = s.shape) acc specs r.1)
      (terminatedWords (specs.map Spec.word) ++ .punctuation .rParen :: rest) (.punctuation .rParen :: rest) := by
  induction specs generalizing acc isFirst with
  | nil => exact .loopDone (loopsEnd_full.specs keyword) (.current fun _ => .yes rfl (.ret ⟨_, rfl, rfl, .nil acc⟩))
  | cons s specs ih =>
    obtain ⟨hs, hspecs⟩ := h
    have hstart := hs.starts (.punctuation .semicolon :: (terminatedWords (specs.map Spec.word) ++ .punctuation .rParen :: rest))
    have hmember : ∀ kind, startsSpec keyword kind = true → (kind.sameKind Punctuation.rParen || kind.sameKind .eof) = false := by
      intro kind hkind
      rw [sameKind_of_startsSpec hkind (startsSpec_eq_false keyword).2.1,
        sameKind_of_startsSpec hkind (startsSpec_eq_false keyword).2.2]
      rfl
    have hpass : Yields (specPass .full keyword (acc, true))
        (fun r => ∃ g, r = .yield g ∧ ∃ a : Spec, g = (acc.push a, true) ∧ a.shape = s.shape)
        (s.word ++ .punctuation .semicolon :: (terminatedWords (specs.map Spec.word) ++ .punctuation .rParen :: rest))
        (terminatedWords (specs.map Spec.word) ++ .punctuation .rParen :: rest) := by
      refine .current fun _ => .no (ne_true_of_eq_false (hmember _ hstart)) (.reports fun _ => .yes hstart ?_)
      rw [hacc]
      refine .bind (hs.yields _) fun a ha => .orM (.ifNotAt rfl (.accept rfl ?_))
      exact .ret ⟨_, rfl, a, rfl, ha⟩
    rw [List.map_cons, terminatedWords, List.flatMap_cons, List.append_assoc, List.append_assoc]
    refine .loopYield (loopsEnd_full.specs keyword) hpass ?_
    rintro _ ⟨a, rfl, ha⟩
    exact (ih hspecs (by simp)).conseq fun r hr => ⟨hr.1, hr.2.cons ha⟩

end Yields

/-- A group of specifications, or a single one, is read back. -/
theorem DeclGroup.reads {g : DeclGroup} (hsingle : g.grouped = false → g.specs.length = 1) (h : SpecsRead g.specs g.keyword true) :
    g.Reads := by
  intro rest
  obtain ⟨keyword, specs, grouped⟩ := g
  cases grouped with
  | true =>
    have hgroup : Yields (specGroup .full keyword) (fun r => shapesOfSpecs r = shapesOfSpecs specs)
        (terminatedWords (specs.map Spec.word) ++ .punctuation .rParen :: .punctuation .semicolon :: rest)
        (.punctuation .semicolon :: rest) := by
      have hclose : Yields (closeGroup true) (fun _ => True) (.punctuation .rParen :: .punctuation .semicolon :: rest)
          (.punctuation .semicolon :: rest) := .expect rfl fun _ => .ret trivial
      refine .bind (.specLoop h rfl) ?_
      rintro ⟨read, _⟩ ⟨rfl, hread⟩
      exact .bind hclose fun _ _ => .ret (shapes_congr shapesOfSpecs_eq hread.forall₂)
    rw [word_group, List.cons_append, List.cons_append, List.append_assoc]
    refine .consume fun _ => .ifAccept rfl (.bind hgroup fun read hread => .ret ?_)
    rw [shape, shape, hread]
  | false =>
    obtain ⟨s, rfl⟩ := List.length_eq_one_iff.1 (hsingle rfl)
    obtain ⟨hs, -⟩ := h
    have hstart := hs.starts (.punctuation .semicolon :: rest)
    rw [word_single, List.cons_append]
    refine .consume fun _ => .ifNotAccept (sameKind_of_startsSpec hstart (startsSpec_eq_false keyword).1) ?_
    refine .bind (hs.yields rest) fun s' hs' => .ret ?_
    have hspecs : shapesOfSpecs [s'] = shapesOfSpecs [s] := congrArg (fun s => [s]) hs'
    rw [shape, shape, hspecs]

end GoSyntax
