import GoSyntax.Feed

/-!
# Lookahead: items made on demand

A stage can also be run step by step: from what it has not read yet, a step makes one item and the state after it. A reader who
looks ahead keeps the items made early in a queue and takes them from there, so that no item is made twice. The reports met so
far stand in a log, together with those the reader adds.
-/

namespace GoSyntax

/-- A stage in the middle of its run: what is to be read yet, the items made ahead of the reader, and the reports so far. -/
structure Lookahead (σ α : Type) where
  state : σ
  queue : List α
  log : Array Diagnostic

namespace Lookahead

variable {σ α : Type}

/-- A stage of which nothing has been asked. -/
def start (state : σ) : Lookahead σ α := ⟨state, [], #[]⟩

/-- Makes one more item and keeps it at the end of the queue. -/
def advance (step : σ → Noted α × σ) (l : Lookahead σ α) : Lookahead σ α :=
  let (made, state) := step l.state
  ⟨state, l.queue ++ [made.value], l.log ++ made.notes⟩

/-- Makes `n` more items. -/
def advanceBy (step : σ → Noted α × σ) : Nat → Lookahead σ α → Lookahead σ α
  | 0, l => l
  | n + 1, l => advanceBy step n (l.advance step)

/-- Makes items until more than `k` are in the queue. -/
def reach (step : σ → Noted α × σ) (k : Nat) (l : Lookahead σ α) : Lookahead σ α :=
  l.advanceBy step (k + 1 - l.queue.length)

/-- The item `k` places ahead, and the stage after it has been made. -/
def peek [Inhabited α] (step : σ → Noted α × σ) (k : Nat) (l : Lookahead σ α) : α × Lookahead σ α :=
  let l := l.reach step k
  (l.queue.getD k default, l)

/-- Takes the next item. -/
def consume (step : σ → Noted α × σ) (l : Lookahead σ α) : α × Lookahead σ α :=
  match l.queue with
  | a :: queue => (a, { l with queue := queue })
  | [] =>
    let (made, state) := step l.state
    (made.value, ⟨state, [], l.log ++ made.notes⟩)

/-- Adds a report of the reader's own. -/
def report (d : Diagnostic) (l : Lookahead σ α) : Lookahead σ α := { l with log := l.log.push d }

theorem length_queue_advanceBy (step : σ → Noted α × σ) (n : Nat) (l : Lookahead σ α) :
    (l.advanceBy step n).queue.length = l.queue.length + n := by
  induction n generalizing l with
  | zero => rfl
  | succ n ih =>
    rw [advanceBy, ih]
    simp [advance]
    omega

/-- Whoever looks `k` places ahead finds an item there. -/
theorem lt_length_queue_reach (step : σ → Noted α × σ) (k : Nat) (l : Lookahead σ α) :
    k < (l.reach step k).queue.length := by
  rw [reach, length_queue_advanceBy]
  omega

end Lookahead

end GoSyntax
