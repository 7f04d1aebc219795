/-! The handle of a worker thread, and the calls that wait for the thread with it. -/

namespace TickingTable

/-- Who makes a call: the worker, out of the work it is doing, or some other thread. -/
inductive Caller where
  | worker
  | other (thread : Nat)
deriving DecidableEq

inductive JoinPhase where
  /-- The call wants the lock on the handle. -/
  | locking
  /-- The call has taken the handle and waits for the worker to exit. It keeps the lock. -/
  | joining
deriving DecidableEq

/-- Only one call can take the handle. -/
structure WorkerHandle where
  present : Bool
  calls : List (Caller × JoinPhase)
deriving DecidableEq

namespace WorkerHandle

def create : WorkerHandle := ⟨true, []⟩

def isLocked (h : WorkerHandle) : Bool := h.calls.any fun call => call.2 = .joining

def hasCall (h : WorkerHandle) (c : Caller) : Bool := h.calls.any fun call => call.1 = c

/-- Begins a call. A thread makes one call at a time. -/
def enter? (h : WorkerHandle) (c : Caller) : Option WorkerHandle :=
  if h.hasCall c then none else some { h with calls := (c, .locking) :: h.calls }

/-- Takes the lock and looks for the handle. The call returns at once if the handle is gone, and
also if the worker makes it, which cannot wait for itself. -/
def lock? (h : WorkerHandle) (c : Caller) : Option WorkerHandle :=
  if (c, .locking) ∈ h.calls ∧ h.isLocked = false then
    let rest := h.calls.erase (c, .locking)
    if h.present = true ∧ c ≠ .worker then some ⟨false, (c, .joining) :: rest⟩
    else some ⟨false, rest⟩
  else none

/-- Returns from a call that has waited for the worker to exit. -/
def join? (h : WorkerHandle) (c : Caller) (exited : Bool) : Option WorkerHandle :=
  if (c, .joining) ∈ h.calls ∧ exited = true then
    some { h with calls := h.calls.erase (c, .joining) }
  else none

end WorkerHandle
end TickingTable
