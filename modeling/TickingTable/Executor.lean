import TickingTable.Joining

/-! Executors: one worker runs tasks in the order in which they were submitted. -/

namespace TickingTable

inductive ExecutorError where
  | shutdown
deriving DecidableEq

def ExecutorError.message : ExecutorError → String
  | .shutdown => "executor has shut down"

/-- A name with a zero character, which no worker can have. -/
structure WorkerNameError where
  name : String
deriving DecidableEq

/-- The text gives the bytes of the name and the place of the first zero among them. -/
def WorkerNameError.message (e : WorkerNameError) : String :=
  let bytes := e.name.toUTF8.toList
  "thread name may not contain interior null bytes: NulError(" ++
    toString (bytes.idxOf 0) ++ ", [" ++ ", ".intercalate (bytes.map toString) ++ "])"

inductive Executor.Phase (τ : Type) where
  | idle
  | running (task : τ)
  | exited
deriving DecidableEq

structure Executor (τ : Type) where
  name : String
  isOpen : Bool
  /-- The tasks that wait for the worker, the oldest first. -/
  queue : List τ
  phase : Executor.Phase τ
  handle : WorkerHandle
deriving DecidableEq

/-- The steps of the worker and of the threads that use an executor. -/
inductive Executor.Event (τ : Type) where
  | submit (task : τ)
  | start
  /-- The task returned or panicked; the worker goes on in either case. -/
  | finish (panicked : Bool)
  | exit
  | close (c : Caller)
  | lock (c : Caller)
  | join (c : Caller)
deriving DecidableEq

namespace Executor

variable {τ : Type}

def create (name : String) : Executor τ := ⟨name, true, [], .idle, .create⟩

/-- Creates an executor, if its worker can have the name. -/
def spawn (name : String) : Except WorkerNameError (Executor τ) :=
  if name.toList.contains '\x00' then .error ⟨name⟩ else .ok (.create name)

def isRunning (e : Executor τ) : Bool :=
  match e.phase with
  | .running _ => true
  | _ => false

def hasExited (e : Executor τ) : Bool :=
  match e.phase with
  | .exited => true
  | _ => false

/-- Only a task that runs can call as the worker. -/
def canCall (e : Executor τ) (c : Caller) : Bool := c ≠ .worker || e.isRunning

def submit (e : Executor τ) (task : τ) : Except ExecutorError (Executor τ) :=
  if e.isOpen then .ok { e with queue := e.queue ++ [task] } else .error .shutdown

def start? (e : Executor τ) : Option (τ × Executor τ) :=
  match e.phase, e.queue with
  | .idle, task :: queue => some (task, { e with queue, phase := .running task })
  | _, _ => none

/-- A task is not over while a call that it makes has not returned. -/
def finish? (e : Executor τ) : Option (Executor τ) :=
  if e.isRunning ∧ e.handle.hasCall .worker = false then some { e with phase := .idle } else none

/-- The worker exits once there is nothing left to run and nothing more can be submitted. -/
def exit? (e : Executor τ) : Option (Executor τ) :=
  match e.phase, e.queue, e.isOpen with
  | .idle, [], false => some { e with phase := .exited }
  | _, _, _ => none

/-- The first step of a shutdown, after which nothing can be submitted. -/
def close? (e : Executor τ) (c : Caller) : Option (Executor τ) :=
  if e.canCall c then (e.handle.enter? c).map fun handle => { e with isOpen := false, handle }
  else none

/-- The second step of a shutdown. -/
def lock? (e : Executor τ) (c : Caller) : Option (Executor τ) :=
  (e.handle.lock? c).map fun handle => { e with handle }

/-- The last step of a shutdown that waits for the worker. -/
def join? (e : Executor τ) (c : Caller) : Option (Executor τ) :=
  (e.handle.join? c e.hasExited).map fun handle => { e with handle }

def step? (e : Executor τ) : Event τ → Option (Executor τ)
  | .submit task => (e.submit task).toOption
  | .start => e.start?.map Prod.snd
  | .finish _ => e.finish?
  | .exit => e.exit?
  | .close c => e.close? c
  | .lock c => e.lock? c
  | .join c => e.join? c

/-- Takes the steps that can be taken, in their order, and leaves the others out. -/
def attempt (e : Executor τ) (events : List (Event τ)) : Executor τ :=
  events.foldl (fun e event => (e.step? event).getD e) e

/-- Runs up to `n` waiting tasks. While a task runs it takes the steps given by `body`. Gives the
tasks that ran, in their order. -/
def drain (body : τ → List (Event τ)) : Nat → Executor τ → Executor τ × List τ
  | 0, e => (e, [])
  | n + 1, e =>
    match e.start? with
    | none => (e, [])
    | some (task, e) =>
      let (e, tasks) := drain body n (e.attempt (body task ++ [.finish false]))
      (e, task :: tasks)

/-- Runs all tasks that wait now. -/
def sync (body : τ → List (Event τ)) (e : Executor τ) : Executor τ × List τ :=
  e.drain body e.queue.length

/-- A whole shutdown by a thread other than the worker, during which the waiting tasks run. -/
def shutdown (body : τ → List (Event τ)) (e : Executor τ) : Executor τ × List τ :=
  let caller := Caller.other 0
  let (e, tasks) := (e.attempt [.close caller]).sync body
  (e.attempt [.exit, .lock caller, .join caller], tasks)

/-- The steps of a shutdown out of a running task. -/
def shutdownInside : List (Event τ) := [.close .worker, .lock .worker]

end Executor
end TickingTable
