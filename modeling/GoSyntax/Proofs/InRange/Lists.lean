import GoSyntax.Proofs.Reached
import GoSyntax.Grammar.Control

/-!
# Places in lists

Some parsers put what they read into a list and take it out again at a place that must be there: the three indices of a slice are
stored behind as many colons, and the first of the expressions that a simple statement or the case of a select starts with becomes its
operand, its channel or its label. Here these parsers use lists whose operations fail where there is no such place. They never
fail, and do what the grammar does.
-/

namespace GoSyntax

open Parse

/-- A parser with operations that may fail. -/
abbrev Checked := StateT Cursor Option

namespace Checked

/-- A parser without such operations. -/
def surely {α : Type} (f : Parse α) : Checked α := fun c => some (f c)

instance : MonadLift Parse Checked := ⟨surely⟩

variable {α β : Type}

theorem some_bind (a : α) (k : α → Checked β) : ((liftM (some a) : Checked α) >>= k) = k a := rfl

theorem bind_eq {f : Parse α} {k : α → Parse β} {k' : α → Checked β} (h : ∀ a, k' a = surely (k a)) :
    (surely f >>= k') = surely (f >>= k) := by
  funext c
  exact congrFun (h (f c).1) (f c).2

theorem map_eq {f : Parse α} {f' : Checked α} (r : α → β) (h : f' = surely f) : (r <$> f') = surely (r <$> f) := by
  rw [h]
  rfl

theorem map_bind_eq {γ : Type} {f : Parse α} (r : α → β) {k : α → Parse γ} {k' : β → Checked γ}
    (h : ∀ a, k' (r a) = surely (k a)) : (surely (r <$> f) >>= k') = surely (f >>= k) := by
  funext c
  exact congrFun (h (f c).1) (f c).2

theorem ite_eq {φ : Prop} [Decidable φ] {f g : Parse α} {f' g' : Checked α} (hf : φ → f' = surely f) (hg : ¬φ → g' = surely g) :
    (if φ then f' else g') = surely (if φ then f else g) := by
  by_cases h : φ
  · rw [if_pos h, if_pos h, hf h]
  · rw [if_neg h, if_neg h, hg h]

end Checked

/-! ## Looking twice -/

namespace Parse

variable {α : Type} {c : Cursor}

/-- A token that is there is accepted. -/
theorem isAt_accept (kind : TokenKind) (f g : Bool → Parse α) :
    (do if ← isAt kind then f (← accept kind) else g false)
      = (do if ← isAt kind then (do let _ ← consume; f true) else g false) := by
  funext c
  change (if c.here.kind.sameKind kind then (accept kind >>= f) else g false) (current c).2
    = (if c.here.kind.sameKind kind then (consume >>= fun _ => f true) else g false) (current c).2
  by_cases h : c.here.kind.sameKind kind = true
  · have hhere : (current c).2.here = c.here := Cursor.here_peek 0 c
    rw [if_pos h, if_pos h]
    change f (accept kind (current c).2).1 (accept kind (current c).2).2 = _
    rw [accept_of_sameKind (by rw [hhere]; exact h)]
    rfl
  · rw [if_neg h, if_neg h]

/-- The same step with something else built. -/
def stepMap {β : Type} (r : α → β) : ForInStep α → ForInStep β
  | .yield a => .yield (r a)
  | .done a => .done (r a)

/-- Passes that do the same to two values do so to the end. -/
theorem passes_map {β : Type} {pass : α → Parse (ForInStep α)} {pass' : β → Parse (ForInStep β)} (r : α → β)
    (h : ∀ a, pass' (r a) = stepMap r <$> pass a) (tokens : List (Noted Token)) (a : α) :
    passes pass' tokens (r a) = r <$> passes pass tokens a := by
  induction tokens generalizing a with
  | nil =>
    rw [passes, passes, h, bind_map_left, map_bind]
    refine bind_congr fun step => ?_
    cases step <;> rfl
  | cons token tokens ih =>
    rw [passes, passes, h, bind_map_left, map_bind]
    refine bind_congr fun step => ?_
    cases step with
    | yield a => exact ih a
    | done a => rfl

theorem loop_map {β : Type} {pass : α → Parse (ForInStep α)} {pass' : β → Parse (ForInStep β)} (r : α → β) (start : α)
    (h : ∀ a, pass' (r a) = stepMap r <$> pass a) : loop (r start) pass' = r <$> loop start pass := by
  rw [loop, loop, map_bind]
  exact bind_congr fun tokens => passes_map r h tokens start

/-- A pass that adds an item behind others adds it behind all that stands before them. -/
theorem separatedPass_append (item : Parse α) (before items : Array α) :
    separatedPass item (before ++ items) = stepMap (before ++ ·) <$> separatedPass item items := by
  rw [separatedPass, separatedPass, map_bind]
  refine bind_congr fun comma => ?_
  cases comma with
  | false => rfl
  | true =>
    simp only [if_true, map_bind]
    refine bind_congr fun item => ?_
    rw [← Array.append_push]
    rfl

end Parse

namespace Grammar

/-! ## The indices of a slice -/

/-- Three places for indices. -/
def noIndices : Array (Option Expr) := #[none, none, none]

/-- Puts an index at a place, if there is such a place. -/
def store? (indices : Array (Option Expr)) (k : Nat) (e : Expr) : Option (Array (Option Expr)) :=
  if h : k < indices.size then some (indices.set k (some e) h) else none

/-- Up to two colons, each with the index behind it, if there is one: the number of all colons, and the indices. -/
def colons? (p : Productions) (level : Int) (colons : Nat) (indices : Array (Option Expr)) : Checked (Nat × Array (Option Expr)) := do
  if _h : colons < 2 then
    if ← accept Punctuation.colon then
      match ← sliceBound p level with
      | some e => colons? p level (colons + 1) (← store? indices (colons + 1) e)
      | none => colons? p level (colons + 1) indices
    else return (colons, indices)
  else return (colons, indices)
termination_by 2 - colons

/-- A slice of the indices read. -/
def sliceOf? (operand : Expr) (colons : Nat) (indices : Array (Option Expr)) : Checked Expr := do
  let low ← indices[0]?
  let high ← indices[1]?
  let max ← indices[2]?
  if colons = 2 then
    requireBound high "middle index required in 3-index slice" operand.loc
    requireBound max "final index required in 3-index slice" operand.loc
  return .slice operand.loc operand low high max (colons == 2)

/-- An index, or a slice of the indices read, from the closing bracket on. -/
def indexOrSliceOf? (operand : Expr) (colons : Nat) (indices : Array (Option Expr)) : Checked Expr := do
  if colons = 0 then
    if ← accept Punctuation.rBracket then
      let index ← indices[0]?
      return .index operand.loc operand (index.getD (.bad operand.loc))
    else
      reportExpected (TokenKind.punctuation .colon).display
      skipTo Recovery.index
      let _ ← accept Punctuation.rBracket
      sliceOf? operand colons indices
  else
    let _ ← expect Punctuation.rBracket
    sliceOf? operand colons indices

/-- An index or a slice, from behind its first index on. -/
def indicesFrom? (p : Productions) (level : Int) (operand : Expr) (colons : Nat) (indices : Array (Option Expr)) : Checked Expr := do
  let (colons, indices) ← colons? p level colons indices
  indexOrSliceOf? operand colons indices

/-- `x[i]`, `x[low:high]` or `x[low:high:max]`, with the indices in a list of three. -/
def indexOrSlice? (p : Productions) (level : Int) (operand : Expr) : Checked Expr := do
  let _ ← consume
  if ← isAt Punctuation.colon then indicesFrom? p (level + 1) operand 0 noIndices
  else indicesFrom? p (level + 1) operand 0 (← store? noIndices 0 (← p.expr (level + 1)))

open Checked

variable {p : Productions} {level : Int} {operand : Expr}

theorem colons?_two (indices : Array (Option Expr)) : colons? p level 2 indices = surely (pure (2, indices)) := by
  rw [colons?, dif_neg (by omega)]
  rfl

/-- Behind both colons no more are looked for. -/
theorem indicesFrom?_two (low high max : Option Expr) : indicesFrom? p level operand 2 #[low, high, max] = surely (do
    let _ ← expect Punctuation.rBracket
    requireBound high "middle index required in 3-index slice" operand.loc
    requireBound max "final index required in 3-index slice" operand.loc
    return .slice operand.loc operand low high max true) := by
  rw [indicesFrom?, colons?_two]
  rfl

/-- The rest of a slice behind the index that follows its first colon. -/
def sliceRest (p : Productions) (level : Int) (operand : Expr) (low high : Option Expr) : Parse Expr := do
  if ← accept Punctuation.colon then
    let max ← sliceBound p level
    let _ ← expect Punctuation.rBracket
    requireBound high "middle index required in 3-index slice" operand.loc
    requireBound max "final index required in 3-index slice" operand.loc
    return .slice operand.loc operand low high max true
  else
    let _ ← expect Punctuation.rBracket
    return .slice operand.loc operand low high none false

theorem indicesFrom?_one (low high : Option Expr) :
    indicesFrom? p level operand 1 #[low, high, none] = surely (sliceRest p level operand low high) := by
  rw [indicesFrom?, colons?, dif_pos (by omega), bind_assoc]
  refine bind_eq fun colon => ?_
  cases colon with
  | false => rfl
  | true =>
    simp only [if_true, bind_assoc]
    refine bind_eq fun max => ?_
    -- Behind the second colon the last place is free.
    cases max with
    | none => exact indicesFrom?_two low high none
    | some e => exact indicesFrom?_two low high (some e)

/-- What is read if no colon follows the first index. -/
def indexRest (operand : Expr) (low : Option Expr) : Parse Expr := do
  if ← accept Punctuation.rBracket then return .index operand.loc operand (low.getD (.bad operand.loc))
  else
    reportExpected (TokenKind.punctuation .colon).display
    skipTo Recovery.index
    let _ ← accept Punctuation.rBracket
    return .slice operand.loc operand low none none false

theorem indicesFrom?_zero (low : Option Expr) : indicesFrom? p level operand 0 #[low, none, none] = surely (do
    if ← accept Punctuation.colon then sliceRest p level operand low (← sliceBound p level) else indexRest operand low) := by
  rw [indicesFrom?, colons?, dif_pos (by omega), bind_assoc]
  refine bind_eq fun colon => ?_
  cases colon with
  | false =>
    change indexOrSliceOf? operand 0 #[low, none, none] = surely (indexRest operand low)
    refine bind_eq fun bracket => ?_
    cases bracket <;> rfl
  | true =>
    simp only [if_true, bind_assoc]
    refine bind_eq fun high => ?_
    -- Behind the first colon the place in the middle is free.
    cases high with
    | none => exact indicesFrom?_one low none
    | some e => exact indicesFrom?_one low (some e)

theorem indexFrom_eq (low : Expr) : indexFrom p level operand low = (do
    if ← accept Punctuation.colon then sliceRest p level operand (some low) (← sliceBound p level)
    else indexRest operand (some low)) := by
  rw [accept_bind]
  rfl

/-- The indices of a slice have their places. -/
theorem indexOrSlice?_eq (p : Productions) (level : Int) (operand : Expr) :
    indexOrSlice? p level operand = surely (indexOrSlice p level operand) := by
  refine bind_eq fun _ => ?_
  have hslice : (do
      if ← isAt Punctuation.colon then sliceFrom p (level + 1) operand none
      else indexFrom p (level + 1) operand (← p.expr (level + 1)))
      = (do
        if ← isAt Punctuation.colon then
          if ← accept Punctuation.colon then
            sliceRest p (level + 1) operand none (← sliceBound p (level + 1))
          else indexRest operand none
        else indexFrom p (level + 1) operand (← p.expr (level + 1))) :=
    (isAt_accept Punctuation.colon (fun colon => do
      if colon then sliceRest p (level + 1) operand none (← sliceBound p (level + 1)) else indexRest operand none) fun _ => do
        indexFrom p (level + 1) operand (← p.expr (level + 1))).symm
  rw [hslice]
  refine bind_eq fun colon => ?_
  cases colon with
  | true => exact indicesFrom?_zero none
  | false =>
    refine bind_eq fun low => ?_
    rw [indexFrom_eq]
    exact indicesFrom?_zero (some low)

/-! ## The first of a list of expressions -/

/-- Expressions between commas, in one list. -/
def exprArray (p : Productions) (level : Int) : Parse (Array Expr) := do
  loop #[← expr p level] (separatedPass (expr p level))

/-- A send, from its arrow on: its channel is the first of the expressions before it. -/
def send? (p : Productions) (level : Int) (exprs : Array Expr) (loc : Location) : Checked Stmt := do
  let _ ← consume
  checkAtMost 1 "send statement" exprs.size loc
  let value ← expr p level
  return .send loc (← exprs[0]?) value

/-- `++` or `--` behind its operand, the first of the expressions. -/
def incDec? (op : Operator) (exprs : Array Expr) (loc : Location) : Checked Stmt := do
  let _ ← consume
  checkAtMost 1 "increment statement" exprs.size loc
  return .incDec loc op (← exprs[0]?)

/-- The first expression on its own. -/
def alone? (exprs : Array Expr) (loc : Location) : Checked Stmt := do
  if 1 < exprs.size then reportExpected "`:=`, `=` or `,`"
  return .expr loc (← exprs[0]?)

/-- The name that an expression is, or `_`. -/
def labelOf : Expr → Name
  | .ident loc text => ⟨loc, text⟩
  | e => ⟨e.loc, "_"⟩

/-- The expression is a name. -/
def isName : Expr → Bool
  | .ident _ _ => true
  | _ => false

/-- The list is one name, which may be a label where the statement stands. -/
def mayLabel? (position : SimplePosition) (exprs : Array Expr) : Option Bool :=
  if position = .block ∧ exprs.size = 1 then exprs[0]?.map isName else some false

/-- Expressions that nothing makes into another statement: a label, or the first expression on its own. -/
def bare? (p : Productions) (position : SimplePosition) (exprs : Array Expr) (loc : Location) : Checked Stmt := do
  if ← mayLabel? position exprs then
    if ← isAt Punctuation.colon then labeled p (labelOf (← exprs[0]?)) loc else alone? exprs loc
  else alone? exprs loc

/-- A simple statement from behind its first expressions on, where an operator comes next, or the range clause of a loop. -/
def simpleBy? (p : Productions) (position : SimplePosition) (level : Int) (op : Operator) (exprs : Array Expr) (loc : Location) :
    Checked Simple :=
  match op.family with
  | .assignment => assignmentOrRange p position level op exprs.toList loc
  | .incDec => .stmt <$> incDec? op exprs loc
  | _ => if op = .arrow then .stmt <$> send? p level exprs loc else .stmt <$> bare? p position exprs loc

/-- A simple statement from behind its first expressions on, or the range clause of a loop. -/
def simpleFrom? (p : Productions) (position : SimplePosition) (level : Int) (exprs : Array Expr) (loc : Location) :
    Checked Simple := do
  match (← current).kind with
  | .operator op => simpleBy? p position level op exprs loc
  | _ => .stmt <$> bare? p position exprs loc

/-- A simple statement, or the range clause of a loop. -/
def simple? (p : Productions) (position : SimplePosition) (level : Int) : Checked Simple := do
  let here ← current
  let exprs ← exprArray p level
  simpleFrom? p position level exprs here.loc

/-- A receive of the first expression. -/
def receive? (exprs : Array Expr) (loc : Location) : Checked Stmt := do
  checkAtMost 1 "receive statement" exprs.size loc
  return .expr loc (← exprs[0]?)

/-- What a case of a select waits for, from behind its first expressions on. -/
def communicationFrom? (p : Productions) (exprs : Array Expr) (loc : Location) : Checked Stmt := do
  match (← current).kind with
  | .operator op =>
    if op = .arrow then send? p 0 exprs loc
    else if op = .assign || op = .define then receiveInto p op exprs.toList loc
    else receive? exprs loc
  | _ => receive? exprs loc

/-- What a case of a select waits for. -/
def communication? (p : Productions) : Checked Stmt := do
  let here ← current
  let exprs ← exprArray p 0
  communicationFrom? p exprs here.loc

/-- The one value of a definition is a type guard. -/
def isTypeSwitchGuard? : Stmt → Option Bool
  | .expr _ e => some (isTypeGuard e)
  | .assign _ .define targets values =>
    if targets.length = 1 ∧ values.length = 1 then values[0]?.map isTypeGuard else some false
  | _ => some false

/-- The list of a first expression and others. -/
def listed (first : Expr) (others : List Expr) : Array Expr := #[first] ++ others.toArray

@[simp] theorem getElem?_listed (first : Expr) (others : List Expr) : (listed first others)[0]? = some first := by
  simp [listed]

@[simp] theorem size_listed (first : Expr) (others : List Expr) : (listed first others).size = others.length + 1 := by
  simp [listed]

@[simp] theorem toList_listed (first : Expr) (others : List Expr) : (listed first others).toList = first :: others := by
  simp [listed]

/-- Expressions in one list are the first and the others. -/
theorem exprArray_eq (p : Productions) (level : Int) :
    exprArray p level = (fun (first, others) => listed first others) <$> exprList p level := by
  rw [exprArray, exprList, separated, map_bind]
  refine bind_congr fun first => ?_
  rw [map_bind]
  exact loop_map (#[first] ++ ·) #[] (separatedPass_append (expr p level) #[first])

theorem send?_eq (p : Productions) (level : Int) (first : Expr) (others : List Expr) (loc : Location) :
    send? p level (listed first others) loc = surely (send p level first others loc) := by
  rw [send?, size_listed, getElem?_listed]
  rfl

theorem incDec?_eq (op : Operator) (first : Expr) (others : List Expr) (loc : Location) :
    incDec? op (listed first others) loc = surely (incDec op first others loc) := by
  rw [incDec?, size_listed, getElem?_listed]
  rfl

theorem alone?_eq (first : Expr) (others : List Expr) (loc : Location) :
    alone? (listed first others) loc = surely (alone first others loc) := by
  rw [alone?, size_listed, getElem?_listed, alone]
  cases others with
  | nil => rfl
  | cons e es =>
    rw [if_pos (by rw [List.length_cons]; omega)]
    rfl

theorem bare?_eq (p : Productions) (position : SimplePosition) (first : Expr) (others : List Expr) (loc : Location) :
    bare? p position (listed first others) loc = surely (bare p position first others loc) := by
  rw [bare?, mayLabel?, size_listed, getElem?_listed, alone?_eq]
  by_cases h : position = .block ∧ others.length + 1 = 1
  · obtain ⟨rfl, hothers⟩ := h
    obtain rfl : others = [] := List.eq_nil_of_length_eq_zero (by omega)
    rw [if_pos ⟨rfl, rfl⟩]
    cases first with
    | ident at' label =>
      rw [Option.map_some, some_bind, isName, if_pos rfl, bare]
      refine bind_eq fun colon => ?_
      cases colon <;> rfl
    | _ => rfl
  · rw [if_neg h]
    unfold bare
    split
    · exact absurd ⟨rfl, rfl⟩ h
    · rfl

theorem receive?_eq (first : Expr) (others : List Expr) (loc : Location) :
    receive? (listed first others) loc = surely (receive first others loc) := by
  rw [receive?, size_listed, getElem?_listed]
  rfl

theorem simpleBy?_eq (p : Productions) (position : SimplePosition) (level : Int) (op : Operator) (first : Expr) (others : List Expr)
    (loc : Location) : simpleBy? p position level op (listed first others) loc =
      surely (if op = .arrow then .stmt <$> send p level first others loc else simpleBy p position level op first others loc) := by
  have hsend := map_eq Simple.stmt (send?_eq p level first others loc)
  have hbare := map_eq Simple.stmt (bare?_eq p position first others loc)
  by_cases harrow : op = .arrow
  · subst harrow
    exact hsend
  · rw [if_neg harrow, simpleBy?, simpleBy, toList_listed]
    cases op.family with
    | assignment => rfl
    | incDec => exact map_eq _ (incDec?_eq op first others loc)
    | _ => exact (if_neg harrow).trans hbare

theorem simpleFrom_eq (p : Productions) (position : SimplePosition) (level : Int) (first : Expr) (others : List Expr) (loc : Location) :
    simpleFrom p position level first others loc = (do
      match (← current).kind with
      | .operator op =>
        if op = .arrow then .stmt <$> send p level first others loc else simpleBy p position level op first others loc
      | _ => .stmt <$> bare p position first others loc) := by
  refine bind_congr fun here => ?_
  cases here.kind with
  | operator op => cases op <;> rfl
  | _ => rfl

theorem simpleFrom?_eq (p : Productions) (position : SimplePosition) (level : Int) (first : Expr) (others : List Expr)
    (loc : Location) : simpleFrom? p position level (listed first others) loc = surely (simpleFrom p position level first others loc) := by
  rw [simpleFrom_eq]
  refine bind_eq fun here => ?_
  cases here.kind with
  | operator op => exact simpleBy?_eq p position level op first others loc
  | _ => exact map_eq _ (bare?_eq p position first others loc)

/-- A simple statement never lacks its first expression. -/
theorem simple?_eq (p : Productions) (position : SimplePosition) (level : Int) :
    simple? p position level = surely (simple p position level) := by
  refine bind_eq fun here => ?_
  rw [exprArray_eq]
  exact map_bind_eq _ fun (first, others) => simpleFrom?_eq p position level first others here.loc

theorem communicationFrom_eq (p : Productions) (first : Expr) (others : List Expr) (loc : Location) :
    communicationFrom p first others loc = (do
      match (← current).kind with
      | .operator op =>
        if op = .arrow then send p 0 first others loc
        else if op = .assign || op = .define then receiveInto p op (first :: others) loc
        else receive first others loc
      | _ => receive first others loc) := by
  refine bind_congr fun here => ?_
  cases here.kind with
  | operator op => cases op <;> rfl
  | _ => rfl

theorem communicationFrom?_eq (p : Productions) (first : Expr) (others : List Expr) (loc : Location) :
    communicationFrom? p (listed first others) loc = surely (communicationFrom p first others loc) := by
  rw [communicationFrom_eq]
  refine bind_eq fun here => ?_
  cases here.kind with
  | operator op =>
    refine ite_eq (fun _ => send?_eq p 0 first others loc) fun _ => ite_eq (fun _ => ?_) fun _ => receive?_eq first others loc
    rw [toList_listed]
    rfl
  | _ => exact receive?_eq first others loc

/-- Nor does the case of a select. -/
theorem communication?_eq (p : Productions) : communication? p = surely (communication p) := by
  refine bind_eq fun here => ?_
  rw [exprArray_eq]
  exact map_bind_eq _ fun (first, others) => communicationFrom?_eq p first others here.loc

theorem isTypeSwitchGuard?_eq (s : Stmt) : isTypeSwitchGuard? s = some (isTypeSwitchGuard s) := by
  cases s with
  | assign loc op targets values =>
    cases op with
    | define =>
      rw [isTypeSwitchGuard?]
      rcases targets with _ | ⟨t, _ | ⟨t', ts⟩⟩
      · rfl
      · rcases values with _ | ⟨e, _ | ⟨e', es⟩⟩ <;> rfl
      · rfl
    | _ => rfl
  | _ => rfl

end Grammar

end GoSyntax
