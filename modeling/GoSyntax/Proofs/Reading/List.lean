import GoSyntax.Proofs.Reading.Token

/-!
# Reading lists, names and literals

A loop reads a list if each of its passes adds to the list what it reads. `Passes n T U pass pass'` says so of one pass: the list is
tallied by `T` between the passes and by `U` when the loop has ended, and a pass that goes on takes a token.
-/

namespace GoSyntax

open Parse

variable {α β : Type} {start : Cursor} {n m : Nat} {t : Tally} {φ : Token → Prop} {Q : β → Cursor → Prop}

/-- A pass keeps the tally of what is built, and takes a token if the loop goes on. -/
def Passes (n : Nat) (T U : α → Tally) (pass pass' : α → Parse (ForInStep α)) : Prop :=
  ∀ m < n, ∀ start a, Same (Reached start (m + 1) (T a) ⊤) (pass a) (pass' a)
    (Continues (fun a => Reached start m (T a) ⊤) fun a => Reached start (m + 1) (U a) ⊤)

theorem Passes.loop {T U : α → Tally} {pass pass' : α → Parse (ForInStep α)} (h : Passes n T U pass pass') (hm : m ≤ n) (a : α) :
    Same (Reached start m (T a) φ) (loop a pass) (loop a pass') fun a => Reached start m (U a) ⊤ := by
  refine .weaken (.loop (I := fun m a => Reached start m (T a) ⊤) (fun _ _ _ hc => hc.room) (fun _ _ _ hc => hc.tight)
    (fun k hk a => ?_) le_rfl a) le_rfl le_rfl fun _ _ => trivial
  refine (h k (hk.trans_le hm) start a).conseq (fun _ hc => hc) fun r c hr => ?_
  cases r with
  | yield a => exact hr
  | done a => exact Reached.mono hr hk le_rfl id

/-- A pass as above, except that the loop may also go on at a token with `χ` that ends it at the next pass. -/
structure PassesTo (n : Nat) (T U : α → Tally) (χ : Token → Prop) (pass pass' : α → Parse (ForInStep α)) : Prop where
  step : ∀ m < n, ∀ start a, Same (Reached start (m + 1) (T a) ⊤) (pass a) (pass' a)
    (Continues (fun a c => Reached start m (T a) ⊤ c ∨ Reached start m (U a) χ c) fun a => Reached start (m + 1) (U a) ⊤)
  stop : ∀ m < n, ∀ start a, Same (Reached start (m + 1) (U a) χ) (pass a) (pass' a)
    (Continues (fun _ _ => False) fun a => Reached start (m + 1) (U a) ⊤)

theorem PassesTo.loop {T U : α → Tally} {χ : Token → Prop} {pass pass' : α → Parse (ForInStep α)}
    (h : PassesTo n T U χ pass pass') (hm : m ≤ n) (a : α) :
    Same (Reached start m (T a) φ) (loop a pass) (loop a pass') fun a => Reached start m (U a) ⊤ := by
  refine .conseq (.loop (I := fun m a c => Reached start m (T a) ⊤ c ∨ Reached start m (U a) χ c)
    (fun _ _ _ hc => hc.elim Reached.room Reached.room) (fun _ _ _ hc => hc.imp Reached.tight Reached.tight)
    (fun k hk a => .or ?_ ?_) le_rfl a) (fun _ hc => .inl (hc.done le_rfl)) fun _ _ hQ => hQ
  · refine (h.step k (hk.trans_le hm) start a).conseq (fun _ hc => hc) fun r c hr => ?_
    cases r with
    | yield a => exact hr
    | done a => exact Reached.mono hr hk le_rfl id
  · refine (h.stop k (hk.trans_le hm) start a).conseq (fun _ hc => hc) fun r c hr => ?_
    cases r with
    | yield a => exact hr.elim
    | done a => exact Reached.mono hr hk le_rfl id

/-- Parts that have a separator behind each. -/
def eachBefore (separator : Tally) (w : α → Tally) (xs : Array α) : Tally := (xs.toList.map fun x => w x * separator).prod

/-- Parts that have a separator before each. -/
def eachBehind (separator : Tally) (w : α → Tally) (xs : Array α) : Tally := (xs.toList.map fun x => separator * w x).prod

@[simp] theorem eachBefore_empty (s : Tally) (w : α → Tally) : eachBefore s w #[] = 1 := rfl

@[simp] theorem eachBehind_empty (s : Tally) (w : α → Tally) : eachBehind s w #[] = 1 := rfl

theorem eachBefore_push (s : Tally) (w : α → Tally) (xs : Array α) (x : α) :
    eachBefore s w (xs.push x) = eachBefore s w xs * (w x * s) := by
  simp [eachBefore]

theorem eachBehind_push (s : Tally) (w : α → Tally) (xs : Array α) (x : α) :
    eachBehind s w (xs.push x) = eachBehind s w xs * (s * w x) := by
  simp [eachBehind]

/-- The last of the parts between separators has none behind it. -/
theorem eachBefore_mul_le_separatedBy {s b : Tally} (hb : 1 ≤ b) (w : α → Tally) (xs : Array α) (x : α) :
    eachBefore s w xs * w x ≤ .separatedBy s b ((xs.push x).toList.map w) := by
  rw [Array.toList_push, List.map_append, List.map_singleton, Tally.separatedBy_concat, List.map_map]
  exact mul_le_mul_right (le_mul_of_one_le_right' hb) _

/-- The last of the parts has a separator behind it too. -/
theorem eachBefore_le_separatedBy {s b : Tally} (h : s ≤ b) (w : α → Tally) (xs : Array α) :
    eachBefore s w xs ≤ .separatedBy s b (xs.toList.map w) := by
  have hprod := Tally.prod_le_separatedBy h (xs.toList.map w)
  rwa [List.map_map] at hprod

theorem joined_cons (w : α → Tally) (first : α) (others : Array α) :
    Tally.joined ((first :: others.toList).map w) = w first * eachBehind (.token Punctuation.comma) w others := by
  rw [List.map_cons, Tally.joined, Tally.separatedBy_cons, List.map_map, mul_one]
  rfl

/-! ## Items between commas -/

theorem separatedPass_passes {w : α → Tally} {f g : Parse α} (h : Reads n w f g) {T : Array α → Tally}
    (hT : ∀ xs x, T xs * (.token Punctuation.comma * w x) ≤ T (xs.push x)) :
    Passes n T T (separatedPass f) (separatedPass g) := by
  intro m hm start xs
  refine .ifAcceptTake ?_ (.pure fun _ hc => hc.done le_rfl)
  refine h.bind hm.le fun x => .pure fun _ hc => hc.done ?_
  rw [mul_assoc]
  exact hT xs x

/-- What follows the first item. -/
theorem separated_rest {w : α → Tally} {f g : Parse α} (h : Reads n w f g) (hm : m ≤ n) (first : α) :
    Same (Reached start m (t * w first) φ) (do return (first, (← loop #[] (separatedPass f)).toList))
      (do return (first, (← loop #[] (separatedPass g)).toList))
      fun r => Reached start m (t * .joined ((r.1 :: r.2).map w)) ⊤ := by
  have hpass : Passes n (fun xs => t * w first * eachBehind (.token Punctuation.comma) w xs) _ (separatedPass f) (separatedPass g) :=
    separatedPass_passes h fun xs x => by rw [eachBehind_push, mul_assoc _ (eachBehind _ _ _)]
  refine .bind (.weaken (hpass.loop hm #[]) le_rfl (by simp) fun _ => id) fun others => .ret ?_
  rw [mul_assoc]
  exact mul_le_mul_right (le_of_eq (joined_cons w first others).symm) t

theorem separated_reads {w : α → Tally} {f g : Parse α} (h : Reads n w f g) :
    Reads n (fun r => .joined ((r.1 :: r.2).map w)) (separated f) (separated g) := fun _ hm _ _ =>
  h.bind hm fun first => separated_rest h hm first

theorem separated_takes {ψ : Token → Prop} {w : α → Tally} {f g : Parse α} (h : Takes n ψ w f g) (h' : Reads n w f g) :
    Takes n ψ (fun r => .joined ((r.1 :: r.2).map w)) (separated f) (separated g) := fun _ hm _ _ =>
  h.bind hm (fun _ => id) fun first => separated_rest h' hm first

/-! ## Members up to a closing bracket -/

theorem memberPass_passes {close : TokenKind} {w : α → Tally} {f g : Parse α} (h : Reads n w f g) {T U : Array α → Tally}
    (hT : ∀ xs x, T xs * (w x * .token Punctuation.comma) ≤ T (xs.push x)) (hU : ∀ xs x, T xs * w x ≤ U (xs.push x))
    (hTU : ∀ xs, T xs ≤ U xs) : Passes n T U (memberPass close f) (memberPass close g) := by
  intro m hm start xs
  refine .current fun here _ => .ite (fun _ => .pure fun _ hc => hc.done (hTU xs)) fun _ => ?_
  refine h.bind hm fun x => .ifAcceptTake ?_ ?_
  · refine .pure fun _ hc => hc.done ?_
    rw [mul_assoc]
    exact hT xs x
  · exact .pure fun _ hc => hc.done (hU xs x)

theorem members_reads {w : α → Tally} {f g : Parse α} (h : Reads n w f g) (close : TokenKind) :
    Reads n (fun l => .listed (l.map w)) (members close f) (members close g) := by
  intro m hm start t
  have hpass : Passes n (fun xs => t * eachBefore (.token Punctuation.comma) w xs) (fun xs => t * .listed (xs.toList.map w))
      (memberPass close f) (memberPass close g) := by
    refine memberPass_passes h (fun xs x => ?_) (fun xs x => ?_) fun xs => ?_
    · rw [eachBefore_push, mul_assoc]
    · rw [mul_assoc]
      exact mul_le_mul_right (eachBefore_mul_le_separatedBy (Tally.one_le_optionalToken _) w xs x) t
    · exact mul_le_mul_right (eachBefore_le_separatedBy (Tally.token_le_optionalToken _) w xs) t
  exact .bind (.weaken (hpass.loop hm #[]) le_rfl (by simp) fun _ => id) fun xs => .ret le_rfl

/-! ## Names and literals -/

/-- An identifier that is there is taken. -/
theorem name_takes (n : Nat) : Takes n (fun a => a.kind.isIdent = true) Name.tally name name := by
  intro m hm start t
  refine .current fun here hhere => ?_
  obtain ⟨kind, loc⟩ := here
  cases kind with
  | ident text => exact .consumeHere (.ret le_rfl)
  | _ => cases hhere

theorem name_reads (n : Nat) : Reads n Name.tally name name := by
  intro m hm start t
  refine .current fun here _ => ?_
  obtain ⟨kind, loc⟩ := here
  cases m with
  | zero => exact .absurd fun c hc => Nat.not_lt_zero _ hc.room
  | succ m =>
    cases kind with
    | ident text =>
      exact .consumeHere (.pure fun _ hc => hc.mono (Nat.le_succ m) le_rfl id)
    | _ => exact .reportHere (fun _ => rfl) fun _ _ => .ret (Tally.mul_fault_le_of_placeholders (Name.placeholders_tally _) _)

theorem names_reads (n : Nat) : Reads n (fun ns => .joined (ns.map Name.tally)) names names := fun _ hm _ _ =>
  (separated_reads (name_reads n)).bind hm fun _ => .ret le_rfl

theorem names_takes (n : Nat) : Takes n (fun a => a.kind.isIdent = true) (fun ns => .joined (ns.map Name.tally)) names names :=
  fun _ hm _ _ => (separated_takes (name_takes n) (name_reads n)).bind hm (fun _ => id) fun _ => .ret le_rfl

/-- A string literal is taken if it is there. -/
theorem stringLiteral?_same :
    Same (Reached start (m + 1) t φ) stringLiteral? stringLiteral? fun r c =>
      (∃ l : Literal, r = some l ∧ l.value ≠ .error ∧ Reached start m (t * l.tally) ⊤ c)
        ∨ r = none ∧ Reached start (m + 1) t (fun a => φ a ∧ ¬a.kind.isStringLiteral = true) c := by
  refine .current fun here hhere => .ite (fun hstring => .current fun here' heq => ?_) fun hno =>
    .pure fun _ hc => .inr ⟨rfl, hc.mono le_rfl le_rfl (by rintro rfl; exact ⟨hhere, hno⟩)⟩
  subst heq
  obtain ⟨kind, loc⟩ := here'
  cases kind with
  | literal value =>
    cases value with
    | string bytes => exact .consumeHere (.pure fun _ hc => .inl ⟨_, rfl, by rintro ⟨⟩, hc⟩)
    | _ => cases hstring
  | _ => cases hstring

theorem stringLiteral?_reads (n : Nat) : Reads n (fun l => .maybe (l.map Literal.tally)) stringLiteral? stringLiteral? := by
  intro m _ start t
  cases m with
  | zero => exact .absurd fun c hc => Nat.not_lt_zero _ hc.room
  | succ m =>
    refine stringLiteral?_same.conseq (fun _ hc => hc) ?_
    rintro r c (⟨l, rfl, _, hc⟩ | ⟨rfl, hc⟩)
    · exact hc.mono (Nat.le_succ m) le_rfl id
    · exact hc.done (le_of_eq (mul_one t).symm)

end GoSyntax
