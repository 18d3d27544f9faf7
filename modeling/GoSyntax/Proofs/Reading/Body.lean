import GoSyntax.Proofs.Reading.Signature

/-!
# Reading the bodies of structs and interfaces, and all types
-/

namespace GoSyntax.Grammar

open Parse

variable {α : Type} {n m : Nat} {p q : Productions} {start : Cursor} {t : Tally} {φ : Token → Prop}

/-! ## Bodies -/

theorem resumeBody_same {T U : Array α → Tally} {xs : Array α} (hTU : T xs ≤ U xs) :
    Same (Reached start (m + 1) (.lost (T xs)) φ) (resumeBody xs) (resumeBody xs)
      (Continues (fun xs => Reached start m (T xs) ⊤) fun xs => Reached start (m + 1) (U xs) ⊤) := by
  refine (skipTo_reads (m + 1) _).bind le_rfl fun _ => .ifAcceptTake ?_ ?_
  · refine .pure fun _ hc => hc.done ?_
    rw [mul_assoc]
    exact Tally.lost_mul_le _ _
  · exact .pure fun _ hc => hc.done ((Tally.lost_mul_le _ _).trans hTU)

/-- Items have a `;` behind each, and the last may have none before the closing brace. -/
theorem itemPass_passesTo {starts : TokenKind → Bool} {w : α → Tally} {item item' : Parse α} {missing : String → Fault}
    (hitem : Takes n (fun a => starts a.kind = true) w item item') (hmissing : ∀ s, (missing s).isLexical = false)
    {T U : Array α → Tally} (hT : ∀ xs x, T xs * (w x * .token Punctuation.semicolon) ≤ T (xs.push x))
    (hU : ∀ xs x, T xs * w x ≤ U (xs.push x)) (hTU : ∀ xs, T xs ≤ U xs) :
    PassesTo n T U (·.kind = Punctuation.rBrace) (itemPass starts item missing) (itemPass starts item' missing) where
  step m hm start xs := by
    refine .current fun here _ => .ite (fun _ => .pure fun _ hc => hc.done (hTU xs)) fun _ => .ite (fun hstarts => ?_) fun _ => ?_
    · refine hitem.bind hm.le (by rintro _ rfl; exact hstarts) fun x => ?_
      cases m with
      | zero => exact .absurd fun c hc => Nat.not_lt_zero _ hc.room
      | succ m =>
        refine .bind (endOrAccept_same (isAt_asks _)) fun b => ?_
        cases b with
        | true =>
          refine .or (.pure fun _ hc => .inr (hc.mono le_rfl (hU xs x) And.right)) (.pure fun _ hc => .inl ?_)
          refine hc.mono (Nat.le_succ m) ?_ id
          rw [mul_assoc]
          exact hT xs x
        | false =>
          refine .reportHere (fun _ => rfl) fun _ _ => ?_
          refine ((resumeBody_same (hTU _)).weaken (Nat.le_succ _) (Tally.mul_fault_le_lost ?_ _) fun _ => id).conseq
            (fun _ hc => hc) ?_
          · simpa using (hT xs x).2
          · rintro (_ | _) c hr
            · exact hr
            · exact Or.inl hr
    · refine .reportHere hmissing fun _ _ => ((resumeBody_same (hTU xs)).weaken le_rfl (Tally.mul_fault_le_lost le_rfl _)
        fun _ => id).conseq (fun _ hc => hc) ?_
      rintro (_ | _) c hr
      · exact hr
      · exact Or.inl hr
  stop m hm start xs := by
    refine .current fun here hhere => .ite (fun _ => .pure fun _ hc => hc.done le_rfl) fun hends => absurd ?_ hends
    rw [hhere]
    rfl

theorem bodyItems_reads {starts : TokenKind → Bool} {w : α → Tally} {item item' : Parse α} {missing : String → Fault}
    (hitem : Takes n (fun a => starts a.kind = true) w item item') (hmissing : ∀ s, (missing s).isLexical = false) :
    Reads n (fun l => .token Punctuation.lBrace * .terminated (l.map w) * .token Punctuation.rBrace)
      (bodyItems starts item missing) (bodyItems starts item' missing) := by
  intro m hm start t
  have hpass : PassesTo n
      (fun xs => t * .token Punctuation.lBrace * eachBefore (.token Punctuation.semicolon) w xs)
      (fun xs => t * .token Punctuation.lBrace * .terminated (xs.toList.map w)) (·.kind = Punctuation.rBrace)
      (itemPass starts item missing) (itemPass starts item' missing) := by
    refine itemPass_passesTo hitem hmissing (fun xs x => ?_) (fun xs x => ?_) fun xs => ?_
    · rw [eachBefore_push, mul_assoc]
    · rw [mul_assoc]
      exact mul_le_mul_right (eachBefore_mul_le_separatedBy (Tally.one_le_optionalToken _) w xs x) _
    · exact mul_le_mul_right (eachBefore_le_separatedBy (Tally.token_le_optionalToken _) w xs) _
  refine (expect_reads m _).bind le_rfl fun _ => .bind (.weaken (hpass.loop hm #[]) le_rfl (by simp) fun _ => id) fun xs => ?_
  refine (expect_reads m _).bind le_rfl fun _ => .ret ?_
  simp only [mul_assoc, le_refl]

/-! ## Fields and methods -/

theorem fieldType_takes (h : Agrees n p q) :
    Takes n (fun a => startsField a.kind = true) (fun r => .joined (r.1.map Name.tally) * r.2.tally) (fieldType p)
      (fieldType q) := by
  intro m hm start t
  refine .current fun here hhere => .ite (fun hident => .peek fun next => .ite (fun _ => ?_) fun _ => ?_) fun hident => ?_
  · refine (typeName_takes n).bind hm (by rintro _ rfl; exact hident) fun e => .ret ?_
    exact mul_le_mul_right (le_of_eq (one_mul _).symm) t
  · refine (names_takes n).bind hm (by rintro _ rfl; exact hident) fun list => (type_reads h).bind hm fun e => .ret ?_
    rw [mul_assoc]
  · have hmul : here.kind = Operator.mul := by
      rw [startsField, Bool.or_eq_true, TokenKind.Bare.sameKind_iff] at hhere
      exact hhere.resolve_left hident
    refine .consumeKind (fun _ ha => ha ▸ hmul) fun star => ?_
    refine (typeName_reads m).bind le_rfl fun e => .ret ?_
    rw [mul_assoc, ← Expr.tally_star star.loc e]
    exact mul_le_mul_right (le_of_eq (one_mul _).symm) t

theorem field_takes (h : Agrees n p q) : Takes n (fun a => startsField a.kind = true) Field.tally (field p) (field q) := by
  intro m hm start t
  refine .current fun here hhere => (fieldType_takes h).bind hm (by rintro _ rfl; exact hhere) fun r => ?_
  refine (stringLiteral?_reads m).bind le_rfl fun tag => .ret (le_of_eq ?_)
  rw [Field.tally_eq, mul_assoc]

theorem structType_takes (h : Agrees n p q) : Takes n (·.kind = Keyword.struct) Expr.tally (structType p) (structType q) := by
  intro m hm start t
  refine .consumeKind (fun _ => id) fun here => (bodyItems_reads (field_takes h) fun _ => rfl).bind hm fun fields => .ret ?_
  rw [Expr.tally_structType, mul_assoc]

theorem interfaceElem_takes (h : Agrees n p q) :
    Takes n (fun a => a.kind.isIdent = true) InterfaceElem.tally (interfaceElem p) (interfaceElem q) := by
  intro m hm start t
  refine .current fun here hhere => .peek fun next => .ite (fun _ => ?_) fun _ => ?_
  · refine (name_takes n).bind hm (by rintro _ rfl; exact hhere) fun method => (signature_reads h).bind hm fun sig => .ret ?_
    rw [InterfaceElem.tally_method, mul_assoc]
  · exact (typeName_takes n).bind hm (by rintro _ rfl; exact hhere) fun e => .ret le_rfl

theorem interfaceType_takes (h : Agrees n p q) :
    Takes n (·.kind = Keyword.interface) Expr.tally (interfaceType p) (interfaceType q) := by
  intro m hm start t
  refine .consumeKind (fun _ => id) fun here => ?_
  refine (bodyItems_reads (interfaceElem_takes h) fun _ => rfl).bind hm fun elems => .ret ?_
  rw [Expr.tally_interfaceType, mul_assoc]

/-! ## All types -/

theorem functionType_takes (h : Agrees n p q) : Takes n (·.kind = Keyword.func) Expr.tally (functionType p) (functionType q) := by
  intro m hm start t
  refine .consumeKind (fun _ => id) fun here => (signature_reads h).bind hm fun sig => .ret ?_
  rw [Expr.tally_functionType, mul_assoc]

theorem parenType_takes (h : Agrees n p q) : Takes n (·.kind = Punctuation.lParen) Expr.tally (parenType p) (parenType q) := by
  intro m hm start t
  refine .consumeKind (fun _ => id) fun here => (type_reads h).bind hm fun inner => ?_
  refine (expect_reads m _).bind le_rfl fun _ => .ret (le_of_eq ?_)
  simp only [Expr.tally_paren, mul_assoc]

theorem pointerType_takes (h : Agrees n p q) : Takes n (·.kind = Operator.mul) Expr.tally (pointerType p) (pointerType q) := by
  intro m hm start t
  refine .consumeKind (fun _ => id) fun here => (type_reads h).bind hm fun inner => .ret ?_
  rw [Expr.tally_star, mul_assoc]

theorem type?_reads (h : Agrees n p q) (inferable : Bool) :
    Reads (n + 1) (tally? Expr.tally) (type? p inferable) (type? q inferable) := by
  refine .of_succ fun m hm start t => .current fun here _ => ?_
  obtain ⟨kind, loc⟩ := here
  have hm' : m + 1 ≤ n + 1 := Nat.succ_le_succ hm
  cases kind with
  | ident name => exact (typeName_takes n).weakMap hm' (by rintro _ rfl; rfl) fun _ => le_rfl
  | punctuation mark =>
    cases mark with
    | lBracket => exact (arrayType_takes h inferable).weakMap hm' (by rintro _ rfl; rfl) fun _ => le_rfl
    | lParen => exact (parenType_takes h).weakMap hm' (by rintro _ rfl; rfl) fun _ => le_rfl
    | _ => exact .ret (le_of_eq (mul_one t).symm)
  | operator op =>
    cases op with
    | mul => exact (pointerType_takes h).weakMap hm' (by rintro _ rfl; rfl) fun _ => le_rfl
    | arrow => exact (channelType_takes h).weakMap hm' (by rintro _ rfl; exact .inr rfl) fun _ => le_rfl
    | _ => exact .ret (le_of_eq (mul_one t).symm)
  | keyword word =>
    cases word with
    | struct => exact (structType_takes h).weakMap hm' (by rintro _ rfl; rfl) fun _ => le_rfl
    | interface => exact (interfaceType_takes h).weakMap hm' (by rintro _ rfl; rfl) fun _ => le_rfl
    | map => exact (mapType_takes h).weakMap hm' (by rintro _ rfl; rfl) fun _ => le_rfl
    | chan => exact (channelType_takes h).weakMap hm' (by rintro _ rfl; exact .inl rfl) fun _ => le_rfl
    | func => exact (functionType_takes h).weakMap hm' (by rintro _ rfl; rfl) fun _ => le_rfl
    | _ => exact .ret (le_of_eq (mul_one t).symm)
  | _ => exact .ret (le_of_eq (mul_one t).symm)

theorem type?_none (p q : Productions) (inferable : Bool) :
    Same (Reached start m t (·.kind = Punctuation.rParen)) (type? p inferable) (type? q inferable)
      fun r c => r = none ∧ Reached start m t (·.kind = Punctuation.rParen) c := by
  refine .current fun here hhere => ?_
  obtain ⟨kind, loc⟩ := here
  obtain rfl : kind = Punctuation.rParen := hhere
  exact .pure fun _ hc => ⟨rfl, hc.mono le_rfl le_rfl fun ha => ha ▸ rfl⟩

end GoSyntax.Grammar
