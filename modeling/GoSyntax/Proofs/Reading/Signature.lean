import GoSyntax.Proofs.Reading.TypeForm

/-!
# Reading signatures

The entries of a parameter list are read as types. If a type follows them they become names, and what is not a name is reported; so
the tally of the entries is that of the names, or there has been a fault.
-/

namespace GoSyntax.Grammar

open Parse

variable {n m : Nat} {p q : Productions} {start : Cursor} {t : Tally} {φ : Token → Prop}

/-! ## Entries and names -/

theorem variadicType_takes (h : Agrees n p q) (allowed : Bool) :
    Takes n (·.kind = Punctuation.ellipsis) Expr.tally (variadicType p allowed) (variadicType q allowed) := by
  intro m hm start t
  refine .consumeKind (fun _ => id) fun here => (reportUnless_reads m allowed rfl here.loc).bind le_rfl fun _ => ?_
  refine (type_reads h).bind hm fun elem => .ret ?_
  rw [Expr.tally_variadicType, mul_assoc, mul_assoc]
  exact mul_le_mul_right (mul_le_mul_right (mul_le_of_le_one_left' (Tally.given_le_one _)) _) t

theorem parameterType?_reads (h : Agrees n p q) (variadic : Bool) :
    Reads n (tally? Expr.tally) (parameterType? p variadic) (parameterType? q variadic) := by
  intro m hm start t
  refine .ifAt ((variadicType_takes h variadic).weakMap (hm.trans (Nat.le_succ n)) (fun _ => And.right) fun _ => le_rfl) ?_
  exact h.type?.last hm fun _ => le_rfl

/-- No parameter starts with a closing parenthesis. -/
theorem parameterType?_none (h : Agrees n p q) (hm : m ≤ n) (variadic : Bool) :
    Same (Reached start m t (·.kind = Punctuation.rParen)) (parameterType? p variadic) (parameterType? q variadic)
      fun r c => r = none ∧ Reached start m t (·.kind = Punctuation.rParen) c := by
  refine .ifAt (.absurd fun c hc => ?_) ?_
  · have hboth := hc.face.1.symm.trans hc.face.2
    cases hboth
  · exact (h.noType m hm start t).weaken le_rfl le_rfl fun _ => And.left

theorem parameterType_reads (h : Agrees n p q) (variadic : Bool) :
    Reads n Expr.tally (parameterType p variadic) (parameterType q variadic) := by
  intro m hm start t
  refine (parameterType?_reads h variadic).bind hm fun r => ?_
  cases r with
  | some e => exact .ret le_rfl
  | none => exact (type_reads h).last hm fun _ => by simp

/-- An entry that is a name is spelled as that name. -/
theorem nameOf_reads (n : Nat) (entry : Expr) :
    Reads n (fun name => .given (entry.tally = name.tally)) (nameOf entry) (nameOf entry) := by
  intro m _ start t
  cases entry with
  | ident loc text => exact .ret (Tally.le_mul_given rfl t)
  | _ => exact .report rfl (.ret (Tally.mul_fault_le_mul_given _ _))

theorem namesOf_reads (n : Nat) (entries : List Expr) :
    Reads n (fun ns => .given (entries.map Expr.tally = ns.map Name.tally)) (namesOf entries) (namesOf entries) := by
  intro m hm start t
  induction entries generalizing t with
  | nil => exact .ret (Tally.le_mul_given rfl t)
  | cons entry entries ih =>
    refine (nameOf_reads m entry).bind le_rfl fun first => .bind (ih _) fun rest => .ret ?_
    rw [mul_assoc, Tally.given_mul_given]
    refine mul_le_mul_right (le_of_eq (congrArg Tally.given ?_)) t
    simp

theorem checkField_reads (n : Nat) (isLast : Bool) (field : Field) :
    Reads n (fun _ => 1) (checkField isLast field) (checkField isLast field) := by
  intro m hm start t
  unfold checkField
  split
  · next loc _ _ =>
    exact (reportUnless_reads m _ rfl loc).last le_rfl fun _ => mul_le_mul_right (Tally.given_le_one _) t
  · exact .ret (le_of_eq (mul_one t).symm)

theorem checkVariadic_reads (n : Nat) (fields : List Field) :
    Reads n (fun _ => 1) (checkVariadic fields) (checkVariadic fields) := by
  intro m hm start t
  induction fields generalizing t with
  | nil => exact .ret (le_of_eq (mul_one t).symm)
  | cons field fields ih =>
    refine (checkField_reads m fields.isEmpty field).bind le_rfl fun _ => ?_
    rw [mul_one]
    exact ih t

theorem checkFields_reads (n : Nat) (variadic : Bool) (fields : List Field) :
    Reads n (fun _ => 1) (checkFields variadic fields) (checkFields variadic fields) := by
  intro m hm start t
  cases variadic with
  | true => exact checkVariadic_reads n fields m hm start t
  | false => exact .ret (le_of_eq (mul_one t).symm)

/-! ## Parameter lists -/

theorem entryPass_same (h : Agrees n p q) (variadic : Bool) {T U : Array Expr → Tally}
    (hT : ∀ xs x, T xs * (x.tally * .token Punctuation.comma) ≤ T (xs.push x)) (hU : ∀ xs x, T xs * x.tally ≤ U (xs.push x))
    (hm : m < n) (xs : Array Expr) :
    Same (Reached start (m + 1) (T xs) ⊤) (entryPass p variadic xs) (entryPass q variadic xs)
      (Continues (fun xs => Reached start m (T xs) ⊤) fun xs c =>
        Reached start (m + 1) (U xs) ⊤ c ∨ Reached start m (T xs) (·.kind = Punctuation.rParen) c) := by
  refine (parameterType_reads h variadic).bind hm fun x => .ifAcceptTake (.ifAt ?_ ?_) ?_
  · refine .pure fun _ hc => .inr (hc.mono le_rfl ?_ And.right)
    rw [mul_assoc]
    exact hT xs x
  · refine .pure fun _ hc => hc.done ?_
    rw [mul_assoc]
    exact hT xs x
  · exact .pure fun _ hc => .inl (hc.done (hU xs x))

/-- The entries have commas between them; a comma behind the last stands before the closing parenthesis. -/
theorem parameterEntries_same (h : Agrees n p q) (hm : m ≤ n) (variadic : Bool) :
    Same (Reached start m t ⊤) (parameterEntries p variadic) (parameterEntries q variadic) fun es c =>
      Reached start m (t * .joined (es.map Expr.tally)) ⊤ c
        ∨ Reached start m (t * .listed (es.map Expr.tally)) (·.kind = Punctuation.rParen) c := by
  have hpass : ∀ k < m, ∀ xs, Same (Reached start (k + 1) (t * eachBefore (.token Punctuation.comma) Expr.tally xs) ⊤)
      (entryPass p variadic xs) (entryPass q variadic xs) _ := fun k hk xs =>
    entryPass_same h variadic (T := fun xs => t * eachBefore (.token Punctuation.comma) Expr.tally xs)
      (U := fun xs => t * .joined (xs.toList.map Expr.tally)) (fun xs x => by rw [eachBefore_push, mul_assoc])
      (fun xs x => by
        rw [mul_assoc]
        exact mul_le_mul_right (eachBefore_mul_le_separatedBy le_rfl _ xs x) t) (hk.trans_le hm) xs
  refine .bind (.weaken (.loop (I := fun m xs => Reached start m (t * eachBefore (.token Punctuation.comma) Expr.tally xs) ⊤)
    (Q := fun xs c => Reached start m (t * .joined (xs.toList.map Expr.tally)) ⊤ c
      ∨ Reached start m (t * .listed (xs.toList.map Expr.tally)) (·.kind = Punctuation.rParen) c)
    (fun _ _ _ hc => hc.room) (fun _ _ _ hc => hc.tight) (fun k hk xs => ?_) le_rfl #[]) le_rfl (by simp) fun _ => id)
    fun xs => .pure fun _ hc => hc
  refine (hpass k hk xs).conseq (fun _ hc => hc) fun r c hr => ?_
  cases r with
  | yield xs => exact hr
  | done xs =>
    refine Or.imp (fun hr => Reached.mono hr hk le_rfl id) (fun hr => Reached.mono hr hk.le ?_ id) hr
    exact mul_le_mul_right (eachBefore_le_separatedBy (Tally.token_le_optionalToken _) _ xs) t

theorem parameterGroup_reads (h : Agrees n p q) (variadic : Bool) :
    Reads n Field.tally (parameterGroup p variadic) (parameterGroup q variadic) := by
  intro m hm start t
  refine .current fun here _ => (names_reads m).bind le_rfl fun list => ?_
  refine (parameterType_reads h variadic).bind hm fun e => .ret ?_
  simp [Field.tally_eq, mul_assoc]

theorem groupPass_passes (h : Agrees n p q) (variadic : Bool) {T U : Array Field → Tally}
    (hT : ∀ xs x, T xs * (.token Punctuation.comma * x.tally) ≤ T (xs.push x))
    (hU : ∀ xs, T xs * .optionalToken Punctuation.comma ≤ U xs) :
    Passes n T U (groupPass p variadic) (groupPass q variadic) := by
  intro m hm start xs
  refine .ifAcceptTake (.ifAt (.pure fun _ hc => ?_) ?_) (.pure fun _ hc => hc.done ?_)
  · exact hc.mono (Nat.le_succ m) ((mul_le_mul_right (Tally.token_le_optionalToken _) _).trans (hU xs)) fun _ => trivial
  · refine (parameterGroup_reads h variadic).bind hm.le fun x => .pure fun _ hc => hc.done ?_
    rw [mul_assoc]
    exact hT xs x
  · exact (le_mul_of_one_le_right' (Tally.one_le_optionalToken _)).trans (hU xs)

theorem moreGroups_reads (h : Agrees n p q) (variadic : Bool) :
    Reads n (fun l => (l.map fun f => .token Punctuation.comma * f.tally).prod * .optionalToken Punctuation.comma)
      (moreGroups p variadic) (moreGroups q variadic) := by
  intro m hm start t
  have hpass : Passes n (fun xs => t * eachBehind (.token Punctuation.comma) Field.tally xs)
      (fun xs => t * (eachBehind (.token Punctuation.comma) Field.tally xs * .optionalToken Punctuation.comma))
      (groupPass p variadic) (groupPass q variadic) :=
    groupPass_passes h variadic (fun xs x => by rw [eachBehind_push, mul_assoc]) fun xs => by rw [mul_assoc]
  exact .bind (.weaken (hpass.loop hm #[]) le_rfl (by simp) fun _ => id) fun xs => .ret le_rfl

/-- The tally of the fields of a list in parentheses. -/
def fieldsTally (fs : List Field) : Tally := .listed (fs.map Field.tally)

theorem fieldsTally_cons (loc : Location) (list : List Name) (e : Expr) (groups : List Field) :
    fieldsTally (⟨loc, list, e, none⟩ :: groups) = .joined (list.map Name.tally) * e.tally
      * ((groups.map fun f => .token Punctuation.comma * f.tally).prod * .optionalToken Punctuation.comma) := by
  rw [fieldsTally, Tally.listed, List.map_cons, Tally.separatedBy_cons, Field.tally_eq, List.map_map]
  simp only [mul_assoc, one_mul, Option.map_none, Tally.maybe_none]
  rfl

/-- Entries that have become names, and the type behind them, are the first field. -/
theorem namedParameters_same (h : Agrees n p q) (hm : m ≤ n) (variadic : Bool) (entries : List Expr) (e : Expr) :
    Same (Reached start m (t * .joined (entries.map Expr.tally) * e.tally) φ) (namedParameters p variadic entries e)
      (namedParameters q variadic entries e) fun fs => Reached start m (t * fieldsTally fs) ⊤ := by
  refine (namesOf_reads m entries).bind le_rfl fun list => (moreGroups_reads h variadic).bind hm fun groups => .ret ?_
  rw [fieldsTally_cons]
  exact Tally.reread_le (congrArg Tally.joined) (le_of_eq_of_le (placeholders_joined_names list) (Multiset.zero_le _)) t e.tally _

theorem listed_unnamed (entries : List Expr) : fieldsTally (entries.map unnamed) = .listed (entries.map Expr.tally) := by
  have hcomp : Field.tally ∘ unnamed = Expr.tally := funext fun e => Field.tally_unnamed e.loc e
  rw [fieldsTally, List.map_map, hcomp]

theorem joined_le_listed (ts : List Tally) : Tally.joined ts ≤ .listed ts :=
  Tally.separatedBy_le_of_le (Tally.one_le_optionalToken _) _ ts

theorem parameterList_reads (h : Agrees n p q) (variadic : Bool) :
    Reads n fieldsTally (parameterList p variadic) (parameterList q variadic) := by
  intro m hm start t
  refine .bind (parameterEntries_same h hm variadic) fun entries => .or ?_ ?_
  · refine (parameterType?_reads h variadic).bind hm fun r => ?_
    cases r with
    | some e => exact namedParameters_same h hm variadic entries e
    | none =>
      refine .ret ?_
      rw [listed_unnamed, tally?_none, mul_one]
      exact mul_le_mul_right (joined_le_listed _) t
  · refine .bind (parameterType?_none h hm variadic) fun r => .given (fun _ hc => hc.1) ?_
    rintro rfl
    exact .pure fun _ hc => hc.2.done (by rw [listed_unnamed])

theorem parameterFields_reads (h : Agrees n p q) (variadic : Bool) :
    Reads n fieldsTally (parameterFields p variadic) (parameterFields q variadic) := by
  intro m hm start t
  refine .ifAt (.ret (le_of_eq (mul_one t).symm)) ?_
  refine (parameterList_reads h variadic).bind hm fun fields => (checkFields_reads m variadic fields).bind le_rfl fun _ => ?_
  exact .ret (by rw [mul_one])

theorem parameters_reads (h : Agrees n p q) (variadic : Bool) :
    Reads n (fun fs => .token Punctuation.lParen * fieldsTally fs * .token Punctuation.rParen) (parameters p variadic)
      (parameters q variadic) := by
  intro m hm start t
  refine (expect_reads m _).bind le_rfl fun _ => (parameterFields_reads h variadic).bind hm fun fields => ?_
  refine (expect_reads m _).bind le_rfl fun _ => .ret ?_
  simp only [mul_assoc, le_refl]

theorem results_reads (h : Agrees n p q) : Reads n resultsTally (results p) (results q) := by
  intro m hm start t
  refine .ifAt ?_ ?_
  · exact (parameters_reads h false).last hm fun fs => mul_le_mul_right (inParens_le_resultsTally fs) t
  · refine h.type?.bind hm fun r => ?_
    cases r with
    | some e => exact .ret (mul_le_mul_right (le_resultsTally_unnamed e.loc e) t)
    | none => exact .ret (mul_le_mul_right one_le_resultsTally t)

theorem signature_reads (h : Agrees n p q) : Reads n Signature.tally (signature p) (signature q) := by
  intro m hm start t
  refine (parameters_reads h true).bind hm fun params => (results_reads h).bind hm fun results => .ret (le_of_eq ?_)
  simp only [Signature.tally_mk, fieldsTally, mul_assoc]

end GoSyntax.Grammar
