import GoSyntax.Grammar.Specification
import GoSyntax.Proofs.Reading.Expression

/-!
# Reading specifications

A member of a group that starts as one takes a token. One that does not is skipped, up to a token at which the group goes on or ends.
-/

namespace GoSyntax.Grammar

open Parse

variable {n m : Nat} {p q : Productions} {start : Cursor} {t u : Tally} {φ : Token → Prop}

/-! ## Imports -/

/-- The name of an import. -/
def importNameTally (name : Option Name) : Tally := (Layout.maybe (name.map Layout.ofImportName)).tally []

theorem importNameTally_of_ne {name : String} (h : name ≠ ".") (loc : Location) :
    importNameTally (some ⟨loc, name⟩) = .token (.ident name) := by
  have hname : Layout.ofImportName ⟨loc, name⟩ = Layout.token (.ident name) := if_neg h
  change (Layout.ofImportName ⟨loc, name⟩).tally [] = _
  rw [hname]
  rfl

/-- The path of an import. -/
def importPathTally (path : Literal) : Tally := if path.value = .error then .fault path.loc else path.tally

theorem ImportSpec.tally_eq (spec : ImportSpec) : spec.tally = importNameTally spec.name * importPathTally spec.path :=
  ImportSpec.tally_mk spec.name spec.path

theorem importName?_same :
    Same (Reached start (m + 1) t φ) importName? importName? fun r c =>
      Reached start m (t * importNameTally r) ⊤ c
        ∨ r = none ∧ Reached start (m + 1) t (fun a => φ a ∧ a.kind ≠ Punctuation.dot ∧ ¬a.kind.isIdent = true) c := by
  refine .current fun here hhere => .ite (fun hdot => ?_) fun hdot => .ite (fun hident => ?_) fun hident => ?_
  · have hkind : here.kind = Punctuation.dot := (TokenKind.Bare.sameKind_iff _).1 hdot
    exact .consumeKind (by rintro _ rfl; exact hkind) fun _ => .pure fun _ hc => .inl hc
  · refine .given (φ := here.kind.IsScanned) (fun c hc => hc.face ▸ Cursor.isScanned_here ?_) fun hscanned => ?_
    · rw [hc.face]
      intro heof
      rw [heof] at hident
      cases hident
    obtain ⟨kind, loc⟩ := here
    cases kind with
    | ident text =>
      refine .map (.current fun here' heq => ?_)
      subst heq
      refine .consumeHere (.pure fun _ hc => .inl (hc.done (le_of_eq (congrArg _ ?_))))
      exact (importNameTally_of_ne (TokenKind.ne_dot_of_isScanned hscanned) loc).symm
    | _ => cases hident
  · exact .pure fun _ hc => .inr ⟨rfl, hc.mono le_rfl le_rfl
      (by rintro rfl; exact ⟨hhere, fun h => hdot ((TokenKind.Bare.sameKind_iff _).2 h), hident⟩)⟩

/-- A path that is there is taken, and a missing one is reported where it is missing. -/
theorem importPath_same :
    Same (Reached start (m + 1) t φ) importPath importPath fun path c =>
      Reached start m (t * importPathTally path) ⊤ c
        ∨ Reached start (m + 1) (t * importPathTally path) (fun a => φ a ∧ ¬a.kind.isStringLiteral = true) c := by
  refine .bind stringLiteral?_same fun r => .or (.anyOf fun l => .and ?_) (.and ?_)
  · rintro rfl
    exact .and fun hne => .pure fun _ hc => .inl (hc.done (le_of_eq (congrArg _ (if_neg hne).symm)))
  · rintro rfl
    refine .current fun here hhere => .reportHere (fun _ => rfl) ?_
    rintro _ rfl
    exact .pure fun _ hc => .inr (hc.mono le_rfl le_rfl (by rintro rfl; exact hhere))

theorem importPath_reads (n : Nat) : Reads n importPathTally importPath importPath := by
  intro m _ start t
  cases m with
  | zero => exact .absurd fun c hc => Nat.not_lt_zero _ hc.room
  | succ m =>
    exact importPath_same.conseq (fun _ hc => hc) fun _ _ hQ => hQ.elim (fun hc => hc.mono (Nat.le_succ m) le_rfl id)
      fun hc => hc.done le_rfl

theorem importSpec_reads (n : Nat) : Reads n ImportSpec.tally importSpec importSpec := by
  intro m _ start t
  have hpath : ∀ name, Same (Reached start m (t * importNameTally name) ⊤) (do return ImportSpec.mk name (← importPath))
      (do return ImportSpec.mk name (← importPath)) fun spec => Reached start m (t * spec.tally) ⊤ := fun name =>
    (importPath_reads m).bind le_rfl fun path => .ret (le_of_eq (by rw [ImportSpec.tally_eq, mul_assoc]))
  cases m with
  | zero => exact .absurd fun c hc => Nat.not_lt_zero _ hc.room
  | succ m =>
    refine .bind importName?_same fun r => .or ((hpath r).weaken (Nat.le_succ m) le_rfl fun _ => id) (.and ?_)
    rintro rfl
    exact (hpath none).weaken le_rfl (le_of_eq (mul_one t).symm) fun _ _ => trivial

theorem importSpec_takes (n : Nat) :
    Takes n (fun a => startsSpec .import a.kind = true) ImportSpec.tally importSpec importSpec := by
  intro m _ start t
  refine .bind importName?_same fun r => .or ?_ (.and ?_)
  · exact (importPath_reads m).bind le_rfl fun path => .ret (le_of_eq (by rw [ImportSpec.tally_eq, mul_assoc]))
  · rintro rfl
    refine .bind importPath_same fun path => .or (.pure fun _ hc => hc.done (le_of_eq ?_)) (.absurd fun c hc => ?_)
    · rw [ImportSpec.tally_eq]
      exact congrArg _ (one_mul _).symm
    · obtain ⟨⟨hstart, hdot, hident⟩, hstring⟩ := hc.face
      rw [startsSpec, if_pos rfl, Bool.or_eq_true, Bool.or_eq_true, TokenKind.Bare.sameKind_iff] at hstart
      exact hstart.elim (fun h => h.elim hident hdot) hstring

/-! ## Constants, variables and types -/

/-- The values of a specification, with the `=` before them. -/
def valuesTally (values : List Expr) : Tally := (Layout.values (layoutsOfExprs values)).tally (nodesOfExprs values)

theorem missingValues_reads (n : Nat) (required : Bool) : Reads n (fun _ => 1) (missingValues required) (missingValues required) := by
  intro m _ start t
  cases required with
  | true => exact reportExpected_reads m _ rfl m le_rfl start t
  | false => exact .ret (le_of_eq (mul_one t).symm)

theorem specValues_reads (h : Agrees n p q) (required : Bool) :
    Reads n valuesTally (specValues p required) (specValues q required) := by
  intro m hm start t
  refine .ifAccept ?_ ?_
  · refine (exprList_reads h 0).bind (hm.trans (Nat.le_succ n)) fun r => .ret (le_of_eq ?_)
    rw [valuesTally, tally_values_cons, mul_assoc, exprsTally]
  · exact (missingValues_reads m required).bind le_rfl fun _ => .ret le_rfl

/-- What follows the names of constants or variables. -/
theorem valueSpec_rest (h : Agrees n p q) (hm : m ≤ n) (keyword : Keyword) (first : Bool) (loc : Location) (list : List Name) :
    Same (Reached start m (t * .joined (list.map Name.tally)) φ)
      (do
        let e ← p.type?
        return Spec.value loc list e (← specValues p (keyword == .const && (e.isSome || first))))
      (do
        let e ← q.type?
        return Spec.value loc list e (← specValues q (keyword == .const && (e.isSome || first))))
      fun spec => Reached start m (t * spec.tally) ⊤ := by
  refine h.type?.bind hm fun e => (specValues_reads h _).bind hm fun values => .ret (le_of_eq ?_)
  simp only [Spec.tally_value, valuesTally, tally?, mul_assoc]

theorem valueSpec_reads (h : Agrees n p q) (keyword : Keyword) (first : Bool) (loc : Location) :
    Reads n Spec.tally (valueSpec p keyword first loc) (valueSpec q keyword first loc) := fun _ hm _ _ =>
  (names_reads n).bind hm fun list => valueSpec_rest h hm keyword first loc list

theorem valueSpec_takes (h : Agrees n p q) (keyword : Keyword) (first : Bool) (loc : Location) :
    Takes n (fun a => a.kind.isIdent = true) Spec.tally (valueSpec p keyword first loc) (valueSpec q keyword first loc) :=
  fun _ hm _ _ => (names_takes n).bind hm (fun _ => id) fun list => valueSpec_rest h hm keyword first loc list

theorem typeSpec_reads (h : Agrees n p q) (loc : Location) : Reads n Spec.tally (typeSpec p loc) (typeSpec q loc) :=
  fun _ hm _ _ => (name_reads n).bind hm fun name => (type_reads h).bind hm fun e =>
    .ret (le_of_eq (by rw [Spec.tally_type, mul_assoc]))

theorem typeSpec_takes (h : Agrees n p q) (loc : Location) :
    Takes n (fun a => a.kind.isIdent = true) Spec.tally (typeSpec p loc) (typeSpec q loc) :=
  fun _ hm _ _ => (name_takes n).bind hm (fun _ => id) fun name => (type_reads h).bind hm fun e =>
    .ret (le_of_eq (by rw [Spec.tally_type, mul_assoc]))

theorem spec_reads (h : Agrees n p q) (keyword : Keyword) (first : Bool) :
    Reads n Spec.tally (spec p keyword first) (spec q keyword first) := by
  intro m hm start t
  refine .current fun here _ => ?_
  cases keyword with
  | «import» => exact (importSpec_reads m).bind le_rfl fun s => .ret (le_of_eq (by rw [Spec.tally_import]))
  | type => exact (typeSpec_reads h here.loc).last hm fun _ => le_rfl
  | _ => exact (valueSpec_reads h _ first here.loc).last hm fun _ => le_rfl

theorem spec_takes (h : Agrees n p q) (keyword : Keyword) (first : Bool) :
    Takes n (fun a => startsSpec keyword a.kind = true) Spec.tally (spec p keyword first) (spec q keyword first) := by
  intro m hm start t
  refine .current fun here hhere => ?_
  cases keyword with
  | «import» =>
    exact (importSpec_takes m).bind le_rfl (by rintro _ rfl; exact hhere) fun s => .ret (le_of_eq (by rw [Spec.tally_import]))
  | type => exact (typeSpec_takes h here.loc).last hm (by rintro _ rfl; exact hhere) fun _ => le_rfl
  | _ => exact (valueSpec_takes h _ first here.loc).last hm (by rintro _ rfl; exact hhere) fun _ => le_rfl

/-! ## Groups -/

/-- Going on after a fault takes a `;`, unless it stays at the closing parenthesis. -/
theorem nextMember_same {T U : Array Spec → Tally} (hTU : ∀ xs, T xs ≤ U xs) (xs : Array Spec) {k : Nat} (hk : m ≤ k)
    (hφ : m + 1 ≤ k ∨ ∀ a, φ a → a.kind ≠ Punctuation.rParen) :
    Same (Reached start (m + 1) (.lost (T xs)) φ) (nextMember xs) (nextMember xs) (Continues
      (fun g => Reached start k (T g.1) ⊤) fun g => Reached start (m + 1) (U g.1 * .given (g.2 = true)) ⊤) := by
  refine .bind (.orM accept_same (R := fun b c => if b then Reached start k (T xs) ⊤ c
    else Reached start (m + 1) (.lost (T xs)) ⊤ c) (fun c hc => Reached.mono hc hk (Tally.lost_mul_le _ _) id) ?_) fun b => ?_
  · refine isAt_same.conseq (fun _ hc => hc) fun b c hc => ?_
    cases b with
    | true =>
      rcases hφ with hroom | hno
      · exact hc.mono hroom (Tally.lost_le _) fun _ => trivial
      · exact absurd (hc.face.2.2 rfl) (hno _ hc.face.1.1)
    | false => exact hc.done le_rfl
  · cases b with
    | true => exact .pure fun _ hc => hc
    | false =>
      exact .pure fun _ hc => Reached.done hc (Tally.le_of_words_eq_zero rfl (by simpa using (hTU xs).2))

/-- Behind a member that has taken a token the group goes on in any way. -/
theorem resumeGroup_same {T U : Array Spec → Tally} (hTU : ∀ xs, T xs ≤ U xs) (before : Nat) {xs : Array Spec}
    (h : (T xs).placeholders ≤ t.placeholders + u.placeholders) :
    Same (Reached start m (t * .given (before = 0) * u) φ) (resumeGroup before xs) (resumeGroup before xs) (Continues
      (fun g => Reached start m (T g.1) ⊤) fun g => Reached start m (U g.1 * .given (g.2 = true)) ⊤) := by
  refine .bind (reportMissing_same before _) fun _ => (skipTo_reads m _).bind le_rfl fun _ => ?_
  cases m with
  | zero => exact .absurd fun c hc => Nat.not_lt_zero _ hc.room
  | succ m =>
    refine (nextMember_same hTU xs (Nat.le_succ m) (.inl le_rfl)).weaken le_rfl ?_ fun _ => id
    exact (Tally.lost_mul_le_lost _ _).trans (Tally.lost_mono (by simpa using h))

/-- A token that neither starts a member nor ends the group is skipped, or it is a `;` and taken. -/
theorem resumeGroup_takes {T U : Array Spec → Tally} (hTU : ∀ xs, T xs ≤ U xs) (before : Nat) {xs : Array Spec}
    (hφ : ∀ a, φ a → a.kind ≠ Punctuation.rParen) :
    Same (Reached start (m + 1) (T xs * .given (before = 0)) φ) (resumeGroup before xs) (resumeGroup before xs) (Continues
      (fun g => Reached start m (T g.1) ⊤) fun g => Reached start (m + 1) (U g.1 * .given (g.2 = true)) ⊤) := by
  have hlost : Tally.lost (T xs * 1) * ⊤ ≤ Tally.lost (T xs) :=
    (Tally.lost_mul_le_lost _ _).trans (le_of_eq (by rw [mul_one]))
  refine .bind ((reportMissing_same (u := 1) before _).weaken le_rfl (le_of_eq (mul_one _).symm) fun _ => id) fun _ => ?_
  refine .bind (skipTo_same _) fun _ => .or ?_ ?_
  · cases m with
    | zero => exact .absurd fun c hc => Nat.not_lt_zero _ hc.room
    | succ m =>
      refine ((nextMember_same hTU xs (Nat.le_succ m) (.inl le_rfl)).weaken le_rfl hlost fun _ => id).conseq
        (fun _ hc => hc) fun r c hr => ?_
      cases r with
      | yield g => exact hr
      | done g => exact Reached.mono hr (Nat.le_succ _) le_rfl id
  · exact (nextMember_same hTU xs le_rfl (.inr fun a ha => hφ a ha.1)).weaken le_rfl hlost fun _ => id

theorem specPass_passesTo (h : Agrees n p q) (keyword : Keyword) {T U : Array Spec → Tally}
    (hT : ∀ xs x, T xs * (x.tally * .token Punctuation.semicolon) ≤ T (xs.push x)) (hU : ∀ xs x, T xs * x.tally ≤ U (xs.push x))
    (hTU : ∀ xs, T xs ≤ U xs) :
    PassesTo n (fun g => T g.1) (fun g => U g.1 * .given (g.2 = true)) (·.kind = Punctuation.rParen) (specPass p keyword)
      (specPass q keyword) where
  step m hm start g := by
    have hend : ∀ here : Token, (here.kind.sameKind Punctuation.rParen || here.kind.sameKind .eof) = true ↔
        here.kind = Punctuation.rParen ∨ here.kind = .eof := fun here => by
      rw [Bool.or_eq_true, TokenKind.Bare.sameKind_iff, TokenKind.Bare.sameKind_iff]
    refine .current fun here _ => .ite (fun _ => .pure fun _ hc => ?_) fun hno => .reports fun before => .ite (fun hstarts => ?_)
      fun _ => ?_
    · exact hc.done ((hTU g.1).trans (Tally.le_mul_given rfl _))
    · refine (spec_takes h keyword _).bind hm.le (by rintro _ rfl; exact hstarts) fun x => ?_
      have hgiven : T g.1 * .given (before = 0) * x.tally ≤ T g.1 * x.tally :=
        mul_le_mul_left (mul_le_of_le_one_right' (Tally.given_le_one _)) _
      cases m with
      | zero => exact .absurd fun c hc => Nat.not_lt_zero _ hc.room
      | succ m =>
        refine .bind (endOrAccept_same (isAt_asks _)) fun b => ?_
        cases b with
        | true =>
          refine .or (.pure fun _ hc => .inr ?_) (.pure fun _ hc => .inl ?_)
          · exact hc.mono le_rfl (hgiven.trans ((hU g.1 x).trans (Tally.le_mul_given rfl _))) And.right
          · refine hc.mono (Nat.le_succ m) ((mul_le_mul_left hgiven _).trans ?_) id
            rw [mul_assoc]
            exact hT g.1 x
        | false =>
          refine (resumeGroup_same hTU before (by simpa using (hT g.1 x).2)).conseq (fun _ hc => hc) fun r c hr => ?_
          cases r with
          | yield g => exact .inl hr
          | done g => exact Reached.mono hr (Nat.le_succ _) le_rfl id
    · refine (resumeGroup_takes hTU before ?_).conseq (fun _ hc => hc) fun r c hr => ?_
      · rintro _ rfl hparen
        exact hno ((hend _).2 (.inl hparen))
      · cases r with
        | yield g => exact .inl hr
        | done g => exact hr
  stop m hm start g := by
    refine .current fun here hhere => .ite (fun _ => .pure fun _ hc => hc.done ?_) fun hends => absurd ?_ hends
    · exact mul_le_mul_right ((Tally.given_le_one _).trans (le_of_eq (Tally.given_of rfl).symm)) _
    · rw [hhere]
      rfl

/-- The closing parenthesis is asked for unless the group has been given up. -/
theorem closeGroup_same (closes : Bool) :
    Same (Reached start m (t * .given (closes = true)) φ) (closeGroup closes) (closeGroup closes)
      fun _ => Reached start m (t * .token Punctuation.rParen) ⊤ := by
  cases closes with
  | true =>
    refine (expect_reads m _).bind le_rfl fun _ => .pure fun _ hc => hc.done ?_
    exact mul_le_mul_left (mul_le_of_le_one_right' (Tally.given_le_one _)) _
  | false =>
    refine .pure fun _ hc => hc.done (Tally.le_of_words_eq_zero ?_ (by simp))
    rw [Tally.words_mul, Tally.words_given_of_not Bool.false_ne_true, mul_zero]

theorem specGroup_reads (h : Agrees n p q) (keyword : Keyword) :
    Reads n (fun specs => .terminated (specs.map Spec.tally) * .token Punctuation.rParen) (specGroup p keyword)
      (specGroup q keyword) := by
  intro m hm start t
  have hpass : PassesTo n (fun g => t * eachBefore (.token Punctuation.semicolon) Spec.tally g.1)
      (fun g => t * .terminated (g.1.toList.map Spec.tally) * .given (g.2 = true)) (·.kind = Punctuation.rParen)
      (specPass p keyword) (specPass q keyword) := by
    refine specPass_passesTo h keyword (T := fun xs => t * eachBefore (.token Punctuation.semicolon) Spec.tally xs)
      (U := fun xs => t * .terminated (xs.toList.map Spec.tally)) (fun xs x => ?_) (fun xs x => ?_) fun xs => ?_
    · rw [eachBefore_push, mul_assoc]
    · rw [mul_assoc]
      exact mul_le_mul_right (eachBefore_mul_le_separatedBy (Tally.one_le_optionalToken _) _ xs x) t
    · exact mul_le_mul_right (eachBefore_le_separatedBy (Tally.token_le_optionalToken _) _ xs) t
  refine .bind (.weaken (hpass.loop hm (#[], true)) le_rfl (by simp) fun _ => id) fun g => .bind (closeGroup_same g.2) fun _ => ?_
  exact .ret (by rw [mul_assoc])

/-! ## Declarations -/

/-- What follows the keyword of a declaration. -/
theorem declGroup_rest (h : Agrees n p q) (hm : m ≤ n) (keyword : Keyword) :
    Same (Reached start m (t * .token keyword) φ)
      (do
        if ← accept Punctuation.lParen then return ⟨keyword, ← specGroup p keyword, true⟩
        else return ⟨keyword, [← spec p keyword true], false⟩)
      (do
        if ← accept Punctuation.lParen then return ⟨keyword, ← specGroup q keyword, true⟩
        else return ⟨keyword, [← spec q keyword true], false⟩)
      fun g : DeclGroup => Reached start m (t * g.tally) ⊤ := by
  refine .ifAccept ?_ ?_
  · refine (specGroup_reads h keyword).bind hm fun specs => .ret ?_
    rw [DeclGroup.tally_group]
    simp only [mul_assoc, le_refl]
  · refine (spec_reads h keyword true).bind hm fun s => .ret ?_
    rw [DeclGroup.tally_single, mul_assoc]

theorem declGroup_takes (h : Agrees n p q) (keyword : Keyword) :
    Takes n (·.kind = keyword) DeclGroup.tally (declGroup p keyword) (declGroup q keyword) := fun _ hm _ _ =>
  .consumeKind (fun _ => id) fun _ => declGroup_rest h hm keyword

end GoSyntax.Grammar
