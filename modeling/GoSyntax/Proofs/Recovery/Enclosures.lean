import GoSyntax.Proofs.Recovery.Unclosed

/-!
# Bodies and groups that nothing closes

The body of a struct or an interface and a group of declarations are lists that a closing token ends. Where a keyword that starts a
declaration comes instead, each of them is left with one report: a body ends there and misses its brace, and a group finds no member and
is given up. So the type or the group around the list is left as well, with nothing more reported.
-/

namespace GoSyntax

open Parse Cursor Grammar Productions

/-! ## Loops and what closes them -/

/-- Parsers that report nothing only from where nothing had been reported. -/
def Quiet {α : Type} (f : Parse α) : Prop := ∀ c, (f c).2.log = #[] → c.log = #[]

section Quiet

variable {α β : Type} [Movable α] {f g : Parse α} {k : α → Parse β} {c : Cursor}

theorem Quiet.of_follows (h : Follows .untilReport f g) : Quiet f := fun c hclean => not_not.1 fun hne => h.lost c trivial hne hclean

omit [Movable α] in
theorem Quiet.log_ne (h : Quiet f) (hc : c.log ≠ #[]) : (f c).2.log ≠ #[] := fun hclean => hc (h c hclean)

omit [Movable α] in
theorem Quiet.bind (h : Quiet f) (hk : ∀ a, Quiet (k a)) : Quiet (f >>= k) := fun c hclean => h c (hk _ _ hclean)

end Quiet

section Loops

variable {σ β τ : Type} {pass : σ → Parse (ForInStep σ)} {close : σ → Parse τ}

/-- A list from some point on: the passes that are left, and what stands behind them. -/
def restOf (pass : σ → Parse (ForInStep σ)) (close : σ → Parse τ) (a : σ) : Parse τ := loop a pass >>= close

/-- What is read behind a pass. -/
def behindPass (pass : σ → Parse (ForInStep σ)) (close : σ → Parse τ) : ForInStep σ → Parse τ
  | .yield a => restOf pass close a
  | .done a => close a

theorem restOf_eq (h : Ends pass) (a : σ) : restOf pass close a = pass a >>= behindPass pass close := by
  rw [restOf, h.unrolls, bind_assoc]
  refine congrArg (pass a >>= ·) (funext fun r => ?_)
  cases r <;> rfl

theorem restOf_apply (h : Ends pass) {a : σ} {c d : Cursor} {r : Parse (ForInStep σ)} (hpass : pass a c = r d) :
    restOf pass close a c = (r >>= behindPass pass close) d := by
  rw [restOf_eq h, bind_apply, hpass, bind_apply]

/-- A pass that reads a member and what ends it. -/
theorem restOf_member (h : Ends pass) {a : σ} {c d : Cursor} {member : Parse β} {ended : Parse Bool} {add : β → σ}
    {resume : β → Parse (ForInStep σ)}
    (hpass : pass a c = (member >>= fun b => ended >>= fun e => if e = true then return .yield (add b) else resume b) d) :
    restOf pass close a c = (ended >>= fun e => if e = true then restOf pass close (add (member d).1)
      else resume (member d).1 >>= behindPass pass close) (member d).2 := by
  rw [restOf_apply h hpass]
  simp only [bind_apply]
  split <;> rfl

theorem Quiet.behindPass (hrest : ∀ a, Quiet (restOf pass close a)) (hclose : ∀ a, Quiet (close a)) :
    (r : ForInStep σ) → Quiet (behindPass pass close r)
  | .yield a => hrest a
  | .done a => hclose a

end Loops

/-! ## The closing token and what it is missed at -/

namespace Cursor

variable {c : Cursor}

/-- A token that comes next is taken. -/
theorem expect_found {kind : TokenKind} (h : c.here.kind.sameKind kind = true) :
    expect kind c = (c.here.loc, (Parse.consume c).2) := by
  change (if (accept kind (Parse.current c).2).1 = true then return c.here.loc else do
    reportExpected kind.display
    return c.here.loc : Parse Location) (accept kind (Parse.current c).2).2 = _
  rw [accept_of_sameKind (by rwa [here_current]), consume_current]
  rfl

/-- A report does not change what comes next. -/
theorem current_report (fault : Fault) (loc : Location) (c : Cursor) : Parse.current (Parse.report fault loc (Parse.current c).2).2
    = (c.here, (Parse.report fault loc (Parse.current c).2).2) := by
  refine Prod.ext (here_peek 0 c) (eq_of ?_ ?_)
  · change ((c.feed.look 1).2.look 1).2 = (c.feed.look 1).2
    rw [Feed.look_look]
  · change (c.log ++ (c.feed.look 1).1).push _ ++ ((c.feed.look 1).2.look 1).1 = _
    rw [Feed.look_look]
    exact Array.append_empty

/-- Nothing is skipped where skipping stops. -/
theorem skipTo_stop {stop : TokenSet} (h : stop.contains c.here.kind = true) : skipTo stop c = ((), (Parse.current c).2) := by
  have hpass : skipPass stop () c = (.done (), (Parse.current c).2) := by
    change (if (stop.contains c.here.kind || c.here.kind.sameKind .eof) = true then return .done () else do
      let _ ← consume
      return .yield () : Parse (ForInStep Unit)) (Parse.current c).2 = _
    rw [h, Bool.true_or, if_pos rfl]
    rfl
  rw [skipTo, (loopsEnd_full.skips stop).loop_eq_of_done (congrArg Prod.fst hpass), hpass]

end Cursor

section Lists

variable {shift : Location → Location} {ours theirs : Feed Token} {due : List Diagnostic} {closing : Punctuation}

/-- Where no common token is left the first run has its closing token before it and the second one its own tokens. -/
theorem Cursor.Parting.parted {c c' : Cursor} (h : Parting shift ours theirs due [] c c') {kind : TokenKind} {kinds : List TokenKind}
    (hours : (ours.items.map fun n => n.value.kind) = kind :: kinds) : c'.feed = theirs ∧ c.here.kind = kind := by
  obtain ⟨ns, hfeed, hns⟩ := h.feed'
  obtain rfl := List.map_eq_nil_iff.1 hns
  exact ⟨hfeed, here_kind_of_cons (h.kinds.trans hours)⟩

/-- At its own tokens the second run has reported that the closing token is missing, and gives what the first run gives. -/
theorem leftOpen_of_report {α : Type} [Movable α] {r r' : α × Cursor} {c' : Cursor} (hfeed : c'.feed = theirs) (hdue : Lexical c'.dues)
    (hresult : r'.1 = moved shift r.1) (hreport : r'.2 = (Parse.report
      (.expectedToken (TokenKind.punctuation closing).display c'.here.kind.display) c'.here.loc (Parse.current c').2).2) :
    LeftOpen shift theirs closing r r' := by
  subst hfeed
  refine ⟨hresult, by rw [hreport]; rfl, ?_⟩
  rw [hreport]
  change syntactic ((Parse.current c').2.log.push _).toList = _
  rw [Array.toList_push, syntactic_append, syntactic_current hdue]
  rfl

end Lists

/-! ## Bodies -/

section Bodies

variable {β : Type} [Movable β] {starts : TokenKind → Bool} {item : Parse β} {missing : String → Fault}

/-- What closes a body. -/
def closeBody (items : Array β) : Parse (List β) := do
  let _ ← expect Punctuation.rBrace
  return items.toList

/-- A body from behind some of its items on. -/
def bodyRest (starts : TokenKind → Bool) (item : Parse β) (missing : String → Fault) : Array β → Parse (List β) :=
  restOf (itemPass starts item missing) closeBody

omit [Movable β] in
theorem itemPass_apply (starts : TokenKind → Bool) (item : Parse β) (missing : String → Fault) (items : Array β) (c : Cursor) :
    itemPass starts item missing items c
    = (if endsBody c.here.kind = true then return .done items
      else if starts c.here.kind = true then item >>= fun b =>
        (isAt Punctuation.rBrace <||> accept Punctuation.semicolon) >>= fun ended =>
          if ended = true then return .yield (items.push b)
          else reportExpected "`;` or `\x7d`" >>= fun _ => resumeBody (items.push b)
      else reportHere missing >>= fun _ => resumeBody items : Parse (ForInStep (Array β))) (Parse.current c).2 := rfl

theorem closeBody_quiet (items : Array β) : Quiet (closeBody items) := by
  have h : Follows .untilReport (closeBody items) (closeBody (moved Pursuit.untilReport.shift items)) :=
    (FollowsAt.expect _).bind fun _ => .pure (by simp)
  exact .of_follows h

theorem resumeBody_quiet (items : Array β) : Quiet (resumeBody items) := by
  have h : Follows .untilReport (resumeBody items) (resumeBody (moved Pursuit.untilReport.shift items)) := resumeBody_follows items
  exact .of_follows h

theorem bodyRest_quiet (hends : Ends (itemPass starts item missing))
    (hitem : FollowsAt .untilReport (fun t => starts t.kind = true) item item)
    (items : Array β) : Quiet (bodyRest starts item missing items) := by
  have hloop : Follows .untilReport (loop items (itemPass starts item missing))
    (loop (moved Pursuit.untilReport.shift items) (itemPass starts item missing)) :=
    .loop (.inr (FollowsAt.strides_of_ends hends)) rfl (itemPass_follows hitem)
  exact .bind (.of_follows hloop) closeBody_quiet

/-- A body is read item by item up to its brace. -/
theorem bodyRest_readsList (hends : Ends (itemPass starts item missing))
    (hitem : FollowsAt .untilReport (fun t => starts t.kind = true) item item)
    (hbody : ∀ kind, starts kind = true → endsBody kind = false) :
    ReadsList starts .rBrace (fun _ : Array β => item) Array.push (bodyRest starts item missing) := by
  have hquiet : ∀ items, Quiet (bodyRest starts item missing items) := bodyRest_quiet hends hitem
  have hresume : ∀ items, Quiet (resumeBody items >>= behindPass (itemPass starts item missing) closeBody) := fun items =>
    (resumeBody_quiet items).bind (.behindPass hquiet closeBody_quiet)
  refine ⟨hquiet, fun items c hstarts => ?_, fun items c hstarts hclosing => ?_, fun items c hclosing => ?_, ?_, by decide⟩
  · have hpass := itemPass_apply starts item missing items c
    rw [hbody _ hstarts, if_neg Bool.false_ne_true, if_pos hstarts] at hpass
    exact ⟨_, restOf_member hends hpass, fun _ d => (hresume _).log_ne Array.push_ne_empty⟩
  · have hpass := itemPass_apply starts item missing items c
    rw [bodyRest, restOf_apply hends hpass]
    split
    · have hmissing : (Parse.current c).2.here.kind.sameKind Punctuation.rBrace = false := by
        rw [here_current]
        exact eq_false_of_ne_true fun h => hclosing ((TokenKind.Bare.sameKind_iff _).1 h)
      change (expect Punctuation.rBrace (Parse.current c).2).2.log ≠ #[]
      rw [expect_missing hmissing]
      exact Array.push_ne_empty
    · rw [if_neg (by rw [hstarts]; exact Bool.false_ne_true)]
      exact (hresume _).log_ne Array.push_ne_empty
  · have hpass := itemPass_apply starts item missing items c
    have hfound : (Parse.current c).2.here.kind.sameKind Punctuation.rBrace = true := by
      rw [here_current, hclosing]
      rfl
    rw [hclosing, if_pos (by rfl)] at hpass
    rw [bodyRest, restOf_apply hends hpass]
    change (expect Punctuation.rBrace (Parse.current c).2).2.kinds = _
    rw [expect_found hfound, consume_current, kinds_consume]
  · exact eq_false_of_ne_true fun h => absurd (hbody _ h) (by decide)

variable {shift : Location → Location} {ours theirs : Feed Token} {due : List Diagnostic} {ts : List Token}

/-- At a keyword that starts a declaration a body ends and misses its brace. -/
theorem bodyRest_cut (hends : Ends (itemPass starts item missing)) (hlexical : Lexical due)
    (hstart : Recovery.declarationStart.contains (theirs.peek 0).kind = true)
    (hours : (ours.items.map fun n => n.value.kind) = [.punctuation .rBrace, .punctuation .semicolon]) (items : Array β) :
    LeavesOpen shift ours theirs due .rBrace [] (bodyRest starts item missing items)
    (bodyRest starts item missing (moved shift items)) := by
  rintro c c' hparting - - -
  obtain ⟨hfeed', hclosing⟩ := hparting.parted hours
  have hstart' : Recovery.declarationStart.contains c'.here.kind = true := by rw [here, hfeed']; exact hstart
  have hpass := itemPass_apply starts item missing items c
  have hpass' := itemPass_apply starts item missing (moved shift items) c'
  rw [hclosing, if_pos (by rfl)] at hpass
  rw [endsBody, hstart', Bool.or_true, if_pos rfl] at hpass'
  have hmissing : (Parse.current c').2.here.kind.sameKind Punctuation.rBrace = false := by
    rw [here_current]
    obtain ⟨k, -, hk⟩ := (TokenSet.contains_keywords _ _).1 hstart'
    rw [hk]
    rfl
  refine leftOpen_of_report hfeed' (by rwa [hparting.due]) ?_ ?_
  · rw [bodyRest, restOf_apply hends hpass, restOf_apply hends hpass']
    exact toList_moved shift items
  · rw [bodyRest, restOf_apply hends hpass']
    change (expect Punctuation.rBrace (Parse.current c').2).2 = _
    rw [expect_missing hmissing, here_current, current_current]

/-- A body of a struct or an interface is left unclosed. -/
theorem bodyRest_leavesOpen (hends : Ends (itemPass starts item missing))
    (hitem : FollowsAt .untilReport (fun t => starts t.kind = true) item item) (hbody : ∀ kind, starts kind = true → endsBody kind = false)
    [Bonded .abreast 0 item item] (hfollows : FollowsAt (.parting shift ours theirs due) (fun t => starts t.kind = true) item item)
    (hmember : ReadsArmed (fun t => starts t.kind = true) item) (hlexical : Lexical due)
    (hstart : Recovery.declarationStart.contains (theirs.peek 0).kind = true)
    (hours : (ours.items.map fun n => n.value.kind) = [.punctuation .rBrace, .punctuation .semicolon])
    (hlast : ∀ kind, (ts.map Token.kind).getLast? = some kind → kind = Punctuation.semicolon) (items : Array β) :
    LeavesOpen shift ours theirs due .rBrace ts (bodyRest starts item missing items) (bodyRest starts item missing (moved shift items)) :=
  (bodyRest_readsList hends hitem hbody).leavesOpen (fun _ => hfollows) (fun items b => (moved_push shift items b).symm)
    (fun _ => hmember) hours
    (bodyRest_cut hends hlexical hstart hours) ts hlast items

end Bodies

/-! ## Groups -/

section Groups

variable {keyword : Keyword}

/-- What closes a group. -/
def endGroup (group : Array Spec × Bool) : Parse (List Spec) := do
  closeGroup group.2
  return group.1.toList

/-- A group from behind some of its members on. -/
def groupRest (keyword : Keyword) : Array Spec × Bool → Parse (List Spec) := restOf (specPass full keyword) endGroup

theorem specPass_apply (p : Productions) (keyword : Keyword) (group : Array Spec × Bool) (c : Cursor) : specPass p keyword group c
    = (if (c.here.kind.sameKind Punctuation.rParen || c.here.kind.sameKind .eof) = true then return .done (group.1, true)
      else if startsSpec keyword c.here.kind then spec p keyword group.1.isEmpty >>= fun s =>
        (isAt Punctuation.rParen <||> accept Punctuation.semicolon) >>= fun ended =>
          if ended = true then return .yield (group.1.push s, true)
          else resumeGroup (Parse.current c).2.log.size (group.1.push s)
      else resumeGroup (Parse.current c).2.log.size group.1 : Parse (ForInStep (Array Spec × Bool))) (Parse.current c).2 := by
  change (if (c.here.kind.sameKind Punctuation.rParen || c.here.kind.sameKind .eof) = true then return .done (group.1, true)
    else Parse.reports >>= fun before => if startsSpec keyword c.here.kind then spec p keyword group.1.isEmpty >>= fun s =>
        (isAt Punctuation.rParen <||> accept Punctuation.semicolon) >>= fun ended =>
          if ended = true then return .yield (group.1.push s, true)
          else resumeGroup before (group.1.push s)
      else resumeGroup before group.1 : Parse (ForInStep (Array Spec × Bool))) (Parse.current c).2 = _
  split
  · rfl
  · rw [bind_apply]
    rfl

theorem endGroup_quiet (group : Array Spec × Bool) : Quiet (endGroup group) := by
  obtain ⟨specs, closes⟩ := group
  have hclose : Follows .untilReport (closeGroup closes) (closeGroup closes) :=
    .ite ((FollowsAt.expect _).bind fun _ => .pure rfl) (.pure rfl)
  have h : Follows .untilReport (endGroup (specs, closes)) (endGroup (moved Pursuit.untilReport.shift (specs, closes))) :=
    hclose.bind fun _ => .pure (by simp)
  exact .of_follows h

theorem groupRest_quiet (group : Array Spec × Bool) : Quiet (groupRest keyword group) := by
  have hloop : Follows .untilReport (loop group (specPass full keyword))
    (loop (moved Pursuit.untilReport.shift group) (specPass full keyword)) :=
    .loop (.inr (FollowsAt.strides_of_ends (loopsEnd_full.specs keyword))) rfl
      (specPass_follows (pursued_of_reports fun _ => id) keyword)
  exact .bind (.of_follows hloop) endGroup_quiet

/-- Where nothing has been reported, what is missing is. -/
theorem reportMissing_log_ne {before : Nat} {kind : TokenKind} {c : Cursor} (h : c.log = #[] → before = 0) :
    (reportMissing before kind c).2.log ≠ #[] := by
  change ((if c.log.size == before then reportExpected _ else return () : Parse Unit) c).2.log ≠ #[]
  by_cases hlog : c.log = #[]
  · rw [h hlog, hlog, if_pos (by rfl)]
    exact Array.push_ne_empty
  · split
    · exact Array.push_ne_empty
    · exact hlog

theorem resumeGroup_log_ne {before : Nat} {c : Cursor} (h : c.log = #[] → before = 0) (specs : Array Spec) :
    (resumeGroup before specs c).2.log ≠ #[] := by
  have hskip : Follows .untilReport (skipTo Recovery.group) (skipTo Recovery.group) := .skipTo _
  have hnext : Follows .untilReport (nextMember specs) (nextMember (moved Pursuit.untilReport.shift specs)) :=
    (FollowsAt.orM (.accept _) (.isAt _)).bind fun _ => .ite (.pure rfl) (.pure rfl)
  exact ((Quiet.of_follows hskip).bind fun _ => .of_follows hnext).log_ne (reportMissing_log_ne h)

/-- A group is read member by member up to its parenthesis. -/
theorem groupRest_readsList (keyword : Keyword) : ReadsList (startsSpec keyword) .rParen
    (fun group : Array Spec × Bool => spec full keyword group.1.isEmpty) (fun group s => (group.1.push s, true)) (groupRest keyword) := by
  have hends : Ends (specPass full keyword) := loopsEnd_full.specs keyword
  obtain ⟨-, hparen, heof⟩ := startsSpec_eq_false keyword
  have hbehind : ∀ r, Quiet (behindPass (specPass full keyword) endGroup r) := .behindPass groupRest_quiet endGroup_quiet
  refine ⟨groupRest_quiet, fun group c hstarts => ?_, fun group c hstarts hclosing => ?_, fun group c hclosing => ?_, heof, by decide⟩
  · have hpass := specPass_apply full keyword group c
    rw [sameKind_of_startsSpec hstarts hparen, sameKind_of_startsSpec hstarts heof, if_neg (by decide), if_pos hstarts] at hpass
    refine ⟨_, restOf_member hends hpass, fun hclean d => ?_⟩
    rw [hclean, bind_apply]
    exact (hbehind _).log_ne (resumeGroup_log_ne (fun _ => rfl) _)
  · have hpass := specPass_apply full keyword group c
    have hother : c.here.kind.sameKind Punctuation.rParen = false :=
      eq_false_of_ne_true fun h => hclosing ((TokenKind.Bare.sameKind_iff _).1 h)
    rw [hother, Bool.false_or, hstarts, if_neg Bool.false_ne_true] at hpass
    rw [groupRest, restOf_apply hends hpass]
    split
    · change (expect Punctuation.rParen (Parse.current c).2).2.log ≠ #[]
      rw [expect_missing (by rwa [here_current])]
      exact Array.push_ne_empty
    · rw [bind_apply]
      refine (hbehind _).log_ne (resumeGroup_log_ne (fun hclean => ?_) _)
      rw [hclean]
      rfl
  · have hpass := specPass_apply full keyword group c
    have hfound : (Parse.current c).2.here.kind.sameKind Punctuation.rParen = true := by
      rw [here_current, hclosing]
      rfl
    rw [hclosing, if_pos (by rfl)] at hpass
    rw [groupRest, restOf_apply hends hpass]
    change (expect Punctuation.rParen (Parse.current c).2).2.kinds = _
    rw [expect_found hfound, consume_current, kinds_consume]

variable {shift : Location → Location} {ours theirs : Feed Token} {due : List Diagnostic} {ts : List Token}

/-- A group is given up at a keyword. -/
theorem nextMember_keyword {c : Cursor} {k : Keyword} (hcurrent : Parse.current c = (c.here, c)) (hhere : c.here.kind = .keyword k)
    (specs : Array Spec) : nextMember specs c = (.done (specs, false), c) := by
  have haccept : accept Punctuation.semicolon c = (false, c) := by
    rw [accept_apply, hhere, hcurrent]
    rfl
  have hisAt : isAt Punctuation.rParen c = (false, c) := by
    rw [isAt, bind_apply, hcurrent]
    change (c.here.kind.sameKind Punctuation.rParen, c) = _
    rw [hhere]
    rfl
  rw [nextMember, bind_apply, orM_apply, haccept, if_neg Bool.false_ne_true, hisAt]
  rfl

/-- At a keyword that starts a declaration a group reports its parenthesis and is given up. -/
theorem resumeGroup_start {c : Cursor} (h : Recovery.declarationStart.contains c.here.kind = true) (specs : Array Spec) :
    resumeGroup (Parse.current c).2.log.size specs (Parse.current c).2 = (.done (specs, false), (Parse.report
      (.expectedToken (TokenKind.punctuation .rParen).display c.here.kind.display) c.here.loc (Parse.current c).2).2) := by
  obtain ⟨k, -, hk⟩ := (TokenSet.contains_keywords _ _).1 h
  have hreport : reportMissing (Parse.current c).2.log.size Punctuation.rParen (Parse.current c).2 = ((), (Parse.report
      (.expectedToken (TokenKind.punctuation .rParen).display c.here.kind.display) c.here.loc (Parse.current c).2).2) := by
    change (if (Parse.current c).2.log.size == (Parse.current c).2.log.size then reportExpected (TokenKind.punctuation .rParen).display
      else return () : Parse Unit) (Parse.current c).2 = _
    rw [if_pos (beq_self_eq_true _), reportExpected, reportHere, bind_apply, current_current]
    rfl
  have hhere : ∀ fault loc, (Parse.report fault loc (Parse.current c).2).2.here.kind = .keyword k :=
    fun _ _ => (congrArg Token.kind (here_current c)).trans hk
  have hgroup : Recovery.group.contains (.keyword k) = true := by
    rw [Recovery.group, TokenSet.contains_union, ← hk, h, Bool.true_or]
  rw [resumeGroup, bind_apply, hreport, bind_apply, skipTo_stop (by rw [hhere]; exact hgroup), current_report]
  exact nextMember_keyword ((current_report _ _ c).trans (congrArg (·, _) (here_current c).symm)) (hhere _ _) specs

/-- At a keyword that starts a declaration a group misses its parenthesis and is left. -/
theorem groupRest_cut (hlexical : Lexical due) (hstart : Recovery.declarationStart.contains (theirs.peek 0).kind = true)
    (hours : (ours.items.map fun n => n.value.kind) = [.punctuation .rParen, .punctuation .semicolon]) (group : Array Spec × Bool) :
    LeavesOpen shift ours theirs due .rParen [] (groupRest keyword group) (groupRest keyword (moved shift group)) := by
  rintro c c' hparting - - -
  have hends : Ends (specPass full keyword) := loopsEnd_full.specs keyword
  obtain ⟨hfeed', hclosing⟩ := hparting.parted hours
  have hstart' : Recovery.declarationStart.contains c'.here.kind = true := by rw [here, hfeed']; exact hstart
  obtain ⟨k, -, hk⟩ := (TokenSet.contains_keywords _ _).1 hstart'
  have hpass := specPass_apply full keyword group c
  have hpass' := specPass_apply full keyword (moved shift group) c'
  rw [hclosing, if_pos (by rfl)] at hpass
  have hnone : startsSpec keyword (.keyword k) = false := by
    unfold startsSpec
    split <;> rfl
  have hgoes : ¬((TokenKind.keyword k).sameKind Punctuation.rParen || (TokenKind.keyword k).sameKind .eof) = true := Bool.false_ne_true
  rw [hk, if_neg hgoes, hnone, if_neg Bool.false_ne_true] at hpass'
  have hgiven := resumeGroup_start hstart' (moved shift group).1
  refine leftOpen_of_report hfeed' (by rwa [hparting.due]) ?_ ?_
  · rw [groupRest, restOf_apply hends hpass, restOf_apply hends hpass', bind_apply, hgiven]
    exact toList_moved shift group.1
  · rw [groupRest, restOf_apply hends hpass', bind_apply, hgiven]
    rfl

/-- A group of declarations is left unclosed. -/
theorem groupRest_leavesOpen (keyword : Keyword) (hlexical : Lexical due)
    (hstart : Recovery.declarationStart.contains (theirs.peek 0).kind = true)
    (hours : (ours.items.map fun n => n.value.kind) = [.punctuation .rParen, .punctuation .semicolon])
    (hlast : ∀ kind, (ts.map Token.kind).getLast? = some kind → kind = Punctuation.semicolon) (group : Array Spec × Bool) :
    LeavesOpen shift ours theirs due .rParen ts (groupRest keyword group) (groupRest keyword (moved shift group)) := by
  have hfollows : ∀ group : Array Spec × Bool, FollowsAt (.parting shift ours theirs due) (fun t => startsSpec keyword t.kind = true)
      (spec full keyword group.1.isEmpty) (spec full keyword (moved shift group).1.isEmpty) := by
    rintro ⟨specs, closes⟩
    rw [moved_pair, isEmpty_moved_array]
    exact (spec_follows (pursued_parting shift ours theirs due) keyword _).weaken fun _ _ => trivial
  exact (groupRest_readsList keyword).leavesOpen hfollows (fun (specs, _) s => Prod.ext (moved_push shift specs s).symm rfl)
    (fun _ => spec_readsArmed keyword _) hours (groupRest_cut hlexical hstart hours) ts hlast group

end Groups

end GoSyntax
