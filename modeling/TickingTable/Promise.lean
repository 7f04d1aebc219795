/-! Promises: one side delivers an outcome once, the other waits for it or leaves a continuation. -/

namespace TickingTable

inductive PromiseError where
  | alreadyFulfilled
  /-- Every sender was dropped before one of them delivered an outcome. -/
  | abandoned
deriving DecidableEq

def PromiseError.message : PromiseError → String
  | .alreadyFulfilled => "callback was already fulfilled"
  | .abandoned => "callback was dropped without being fulfilled"

/-- The text with which delivering twice is reported as a programming error. -/
def PromiseError.assertion : String := "single-fire callback fulfilled twice"

/-- The state that all senders share with the one receiver. Outcomes have type `Except ε α` and a
continuation is known by an element of `κ`. -/
structure Promise (ε α κ : Type) where
  /-- An outcome was delivered or none can be any more. -/
  fulfilled : Bool
  outcome : Option (Except ε α)
  continuation : Option κ
  senders : Nat

namespace Promise

/-- A sender shows nothing of its state when it is printed. -/
def senderText : String := "SfCallback { .. }"

/-- A receiver shows nothing of its state when it is printed. -/
def receiverText : String := "SfFuture { .. }"

variable {ε α κ : Type}

def create : Promise ε α κ := ⟨false, none, none, 1⟩

/-- Another sender. -/
def clone (p : Promise ε α κ) : Promise ε α κ := { p with senders := p.senders + 1 }

/-- Delivers an outcome and gives the continuation that has to run with it, if one is waiting. -/
def fulfil (p : Promise ε α κ) (outcome : Except ε α) :
    Except PromiseError (Promise ε α κ × Option κ) :=
  if p.fulfilled then .error .alreadyFulfilled
  else match p.continuation with
    | some k => .ok ({ p with fulfilled := true, continuation := none }, some k)
    | none => .ok ({ p with fulfilled := true, outcome := some outcome }, none)

/-- Drops a sender. The last one takes a waiting continuation with it, which then never runs. -/
def release (p : Promise ε α κ) : Promise ε α κ :=
  let p := { p with senders := p.senders - 1 }
  if p.senders = 0 ∧ p.fulfilled = false then { p with fulfilled := true, continuation := none }
  else p

/-- Takes the outcome, or none as long as the receiver has to wait. -/
def await? (p : Promise ε α κ) : Option (Except PromiseError (Except ε α) × Promise ε α κ) :=
  match p.outcome with
  | some outcome => some (.ok outcome, { p with outcome := none })
  | none => if p.fulfilled then some (.error .abandoned, p) else none

/-- Leaves a continuation. It runs at once with the outcome given here, if there is one already, and
never if there can be none any more. -/
def andThen (p : Promise ε α κ) (k : κ) : Promise ε α κ × Option (Except ε α) :=
  match p.outcome with
  | some outcome => ({ p with outcome := none }, some outcome)
  | none => if p.fulfilled then (p, none) else ({ p with continuation := some k }, none)

end Promise
end TickingTable
