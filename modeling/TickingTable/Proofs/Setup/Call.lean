import TickingTable.Proofs.Executor.Queue
import TickingTable.Proofs.Promise.Bridge
import TickingTable.Proofs.Subscription.Steps
import TickingTable.Subscription.Setup

/-! A call that sets up a subscription, among all that other threads do with the executor and the
server in the meantime. -/

namespace TickingTable

/-- A request made of a connection, with what became of it. -/
inductive Asked where
  | opened (headers : List (String × String)) (command : List UInt8) (outcome : CallOutcome Nat)
  | wrote (i : Nat) (message : List UInt8) (outcome : CallOutcome Unit)
deriving DecidableEq

/-- The failure of a request. -/
def Asked.failure? : Asked → Option TransportError
  | .opened _ _ (.failed e) | .wrote _ _ (.failed e) => some e
  | _ => none

/-- Whether a request panicked. -/
def Asked.panicked : Asked → Bool
  | .opened _ _ .panicked | .wrote _ _ .panicked => true
  | _ => false

/-- A connection that also keeps the requests made of it, in their order. -/
def Connection.recording {σ : Type} (connection : Connection σ) : Connection (σ × List Asked) where
  openExchange s headers command :=
    let (outcome, t) := connection.openExchange s.1 headers command
    (outcome, (t, s.2 ++ [.opened headers command outcome]))
  write s i message :=
    let (outcome, t) := connection.write s.1 i message
    (outcome, (t, s.2 ++ [.wrote i message outcome]))

/-- A task with another name. -/
def Executor.Event.map {τ υ : Type} (f : τ → υ) : Executor.Event τ → Executor.Event υ
  | .submit task => .submit (f task)
  | .start => .start
  | .finish panicked => .finish panicked
  | .exit => .exit
  | .close c => .close c
  | .lock c => .lock c
  | .join c => .join c

/-- Whether the worker gets on with its tasks. -/
def Executor.Event.isWork {τ : Type} : Executor.Event τ → Bool
  | .start | .finish _ => true
  | _ => false

namespace Setup

/-- The requests that a setup makes, and the result that they lead to. -/
inductive Asks (headers : List (String × String)) (request : SubscriptionRequest) :
    List Asked → Option (Except SubscribeError Nat) → Prop
  | openPanicked : Asks headers request [.opened headers Wire.exchangeCommand .panicked] none
  | openFailed (e : TransportError) :
    Asks headers request [.opened headers Wire.exchangeCommand (.failed e)]
      (some (.error (.setup e)))
  | writePanicked (i : Nat) :
    Asks headers request [.opened headers Wire.exchangeCommand (.returned i),
      .wrote i request.encode .panicked] none
  | writeFailed (i : Nat) (e : TransportError) :
    Asks headers request [.opened headers Wire.exchangeCommand (.returned i),
      .wrote i request.encode (.failed e)] (some (.error (.setup e)))
  | written (i : Nat) :
    Asks headers request [.opened headers Wire.exchangeCommand (.returned i),
      .wrote i request.encode (.returned ())] (some (.ok i))

section Recording

variable {σ : Type} (connection : Connection σ) (headers : List (String × String))
  (request : SubscriptionRequest) (s : σ)

/-- Keeping the requests changes nothing, and they are those of a setup. -/
theorem run_recording :
    let recorded := run connection.recording headers request (s, [])
    (recorded.1, recorded.2.1) = run connection headers request s ∧
      Asks headers request recorded.2.2 recorded.1 := by
  rcases hopened : connection.openExchange s headers Wire.exchangeCommand with ⟨outcome, t⟩
  simp only [run, Connection.recording, hopened]
  cases outcome with
  | panicked => exact ⟨rfl, .openPanicked⟩
  | failed e => exact ⟨rfl, .openFailed e⟩
  | returned i =>
    rcases hwritten : connection.write t i request.encode with ⟨outcome, u⟩
    simp only [hwritten]
    cases outcome with
    | panicked => exact ⟨rfl, .writePanicked i⟩
    | failed e => exact ⟨rfl, .writeFailed i e⟩
    | returned _ => exact ⟨rfl, .written i⟩

end Recording

/-- What a call is to set up, and by which connection. -/
structure Order (σ : Type) where
  connection : Connection σ
  headers : List (String × String)
  request : SubscriptionRequest
  schema : Schema

/-- A task of the executor: the setup of the call, or whatever others submit. -/
inductive Job (τ : Type) where
  | setup
  | other (task : τ)
deriving DecidableEq

def Job.isSetup {τ : Type} : Job τ → Bool
  | .setup => true
  | .other _ => false

@[simp] theorem Job.isSetup_setup {τ : Type} : (Job.setup : Job τ).isSetup = true := rfl

@[simp] theorem Job.isSetup_other {τ : Type} (task : τ) : (Job.other task).isSetup = false := rfl

/-- How far a setup has come. -/
inductive Stage where
  /-- The executor did not take it. -/
  | refused (e : ExecutorError)
  /-- It has made no request. -/
  | pending
  /-- It has a result, which it has yet to deliver. -/
  | reporting (outcome : Except SubscribeError Nat)
  /-- It has delivered its result or has none, and it has yet to drop its side of the promise. -/
  | leaving (result : Option (Except SubscribeError Nat))
  | finished (result : Option (Except SubscribeError Nat))

/-- A setup that panics delivers nothing. -/
def Stage.ofResult : Option (Except SubscribeError Nat) → Stage
  | none => .leaving none
  | some outcome => .reporting outcome

/-- A call with all that it uses. -/
structure Call (σ τ : Type) where
  executor : Executor (Job τ)
  stage : Stage
  bridge : Bridge SubscribeError Nat Empty
  server : σ
  /-- The requests that the setup has made. -/
  asked : List Asked
  /-- The subscription, once there is a worker for it. -/
  subscription : Option Subscription
  /-- The callbacks of the subscriber that have begun, in their order. -/
  told : List Notice

/-- What the thread that waits for a setup comes back with. -/
def received : Received SubscribeError Nat Empty → Except SubscribeError Nat
  | .wait (.ok outcome) => outcome
  | .wait (.error e) => .error (.ofPromise e)
  | .ran k _ => nomatch k

/-- Whether the worker of an executor runs the setup. -/
def runsSetup {τ : Type} (e : Executor (Job τ)) : Bool :=
  match e.phase with
  | .running task => task.isSetup
  | _ => false

namespace Call

variable {σ τ : Type}

/-- The steps of the setup on the worker of the executor, of the thread that waits for it, of the
subscription, and of everybody else. -/
inductive Event (σ τ : Type) where
  /-- The setup makes its requests and, if they all succeed, begins the subscription. -/
  | ask
  | report
  | leave
  | executor (v : Executor.Event τ)
  | wait
  /-- The thread that waits looks again, with or without being notified. -/
  | look
  | serve (f : σ → σ)
  | subscription (e : Subscription.Event)

/-- Whether the worker of the executor gets on with the setup or with its other tasks. -/
def Event.isWork : Event σ τ → Bool
  | .ask | .report | .leave => true
  | .executor v => v.isWork
  | _ => false

/-- Submits the setup. A setup that is refused is dropped, and with it its side of the promise. -/
def create (e : Executor (Job τ)) (s : σ) : Call σ τ :=
  match e.submit .setup with
  | .error x => ⟨e, .refused x, Bridge.create.drop 0, s, [], none, []⟩
  | .ok executor => ⟨executor, .pending, .create, s, [], none, []⟩

/-- What the call has returned. A call whose setup is refused does not wait. -/
def returned? (c : Call σ τ) : Option (Except SubscribeError Nat) :=
  match c.stage with
  | .refused e => some (.error (.executor e))
  | _ => c.bridge.received.head?.map received

def isRefused (c : Call σ τ) : Bool :=
  match c.stage with
  | .refused _ => true
  | _ => false

def isOver (c : Call σ τ) : Bool :=
  match c.stage with
  | .finished _ => true
  | _ => false

/-- The setup runs and is not itself inside a shutdown of the executor. -/
def isActive (c : Call σ τ) : Bool :=
  runsSetup c.executor && !c.executor.handle.hasCall .worker

def ask (o : Order σ) (c : Call σ τ) : Call σ τ :=
  let (result, server, asked) := run o.connection.recording o.headers o.request (c.server, c.asked)
  let subscription := match result with
    | some (.ok _) => some (.start o.schema)
    | _ => none
  { c with stage := .ofResult result, server, asked, subscription }

/-- The worker does not go on to another task before the setup is over. -/
def admits (c : Call σ τ) : Executor.Event τ → Bool
  | .finish _ => !runsSetup c.executor || c.isOver
  | _ => true

def step? (o : Order σ) (c : Call σ τ) : Event σ τ → Option (Call σ τ)
  | .ask =>
    match c.stage with
    | .pending => if c.isActive then some (c.ask o) else none
    | _ => none
  | .report =>
    match c.stage with
    | .reporting outcome =>
      if c.isActive then
        some { c with bridge := c.bridge.fulfil outcome, stage := .leaving (some outcome) }
      else none
    | _ => none
  | .leave =>
    match c.stage with
    | .leaving result =>
      if c.isActive then some { c with bridge := c.bridge.drop 0, stage := .finished result }
      else none
    | _ => none
  | .executor v =>
    if c.admits v then
      (c.executor.step? (v.map .other)).map fun executor => { c with executor }
    else none
  | .wait =>
    if c.isRefused then none else (c.bridge.step? .wait).map fun bridge => { c with bridge }
  | .look => (c.bridge.step? .look).map fun bridge => { c with bridge }
  | .serve f => some { c with server := f c.server }
  | .subscription e =>
    c.subscription.bind fun s => (s.step? e).map fun t =>
      { c with subscription := some t, told := c.told ++ (Subscription.begun? s t).toList }

/-- The call after some steps, if each of them can be taken. -/
def run? (o : Order σ) (c : Call σ τ) (es : List (Event σ τ)) : Option (Call σ τ) :=
  es.foldlM (step? o) c

/-- All that a step can do. -/
inductive Step (o : Order σ) (c : Call σ τ) : Event σ τ → Call σ τ → Prop
  | ask : c.stage = .pending → c.isActive = true → Step o c .ask (c.ask o)
  | report (outcome : Except SubscribeError Nat) : c.stage = .reporting outcome →
    c.isActive = true → Step o c .report
      { c with bridge := c.bridge.fulfil outcome, stage := .leaving (some outcome) }
  | leave (result : Option (Except SubscribeError Nat)) : c.stage = .leaving result →
    c.isActive = true → Step o c .leave
      { c with bridge := c.bridge.drop 0, stage := .finished result }
  | executor (v : Executor.Event τ) (executor : Executor (Job τ)) : c.admits v = true →
    Executor.Step c.executor (v.map .other) executor → Step o c (.executor v) { c with executor }
  | wait : c.isRefused = false → c.bridge.receiver = .idle →
    Step o c .wait { c with bridge := c.bridge.look }
  | look (awake : Bool) : c.bridge.receiver = .blocked awake →
    Step o c .look { c with bridge := c.bridge.look }
  | serve (f : σ → σ) : Step o c (.serve f) { c with server := f c.server }
  | subscription (e : Subscription.Event) (s t : Subscription) : c.subscription = some s →
    s.step? e = some t → Step o c (.subscription e)
      { c with subscription := some t, told := c.told ++ (Subscription.begun? s t).toList }

variable {o : Order σ} {c d : Call σ τ} {e : Event σ τ} {es : List (Event σ τ)}

theorem step_of_step? (h : c.step? o e = some d) : Step o c e d := by
  cases e with
  | ask =>
    simp only [step?] at h
    split at h
    · next hstage =>
      obtain ⟨hactive, h⟩ := Option.ite_none_right_eq_some.1 h
      cases h
      exact .ask hstage hactive
    · cases h
  | report =>
    simp only [step?] at h
    split at h
    · next outcome hstage =>
      obtain ⟨hactive, h⟩ := Option.ite_none_right_eq_some.1 h
      cases h
      exact .report outcome hstage hactive
    · cases h
  | leave =>
    simp only [step?] at h
    split at h
    · next result hstage =>
      obtain ⟨hactive, h⟩ := Option.ite_none_right_eq_some.1 h
      cases h
      exact .leave result hstage hactive
    · cases h
  | executor v =>
    obtain ⟨hadmits, h⟩ := Option.ite_none_right_eq_some.1 h
    obtain ⟨executor, hstep, rfl⟩ := Option.map_eq_some_iff.1 h
    exact .executor v executor hadmits (Executor.step_of_step? hstep)
  | wait =>
    simp only [step?] at h
    split at h
    · cases h
    · next hrefused =>
      obtain ⟨bridge, hstep, rfl⟩ := Option.map_eq_some_iff.1 h
      cases Bridge.step_of_step? hstep with
      | wait hidle => exact .wait (Bool.eq_false_iff.2 hrefused) hidle
  | look =>
    obtain ⟨bridge, hstep, rfl⟩ := Option.map_eq_some_iff.1 h
    cases Bridge.step_of_step? hstep with
    | look awake hblocked => exact .look awake hblocked
  | serve f =>
    cases h
    exact .serve f
  | subscription e =>
    obtain ⟨s, hs, h⟩ := Option.bind_eq_some_iff.1 h
    obtain ⟨t, ht, rfl⟩ := Option.map_eq_some_iff.1 h
    exact .subscription e s t hs ht

theorem run?_cons :
    c.run? o (e :: es) = some d ↔ ∃ u, c.step? o e = some u ∧ u.run? o es = some d := by
  rw [run?, List.foldlM_cons]
  exact Option.bind_eq_some_iff

/-- What every step preserves a run preserves. -/
theorem run?_preserves {P : Call σ τ → Prop} (hstep : ∀ c e d, P c → Step o c e d → P d)
    (hc : P c) (h : c.run? o es = some d) : P d := by
  induction es generalizing c with
  | nil =>
    cases h
    exact hc
  | cons e es ih =>
    obtain ⟨u, hu, h⟩ := run?_cons.1 h
    exact ih (hstep c e u hc (step_of_step? hu)) h

theorem create_of_isOpen {e : Executor (Job τ)} (h : e.isOpen = true) (s : σ) :
    create e s = ⟨{ e with queue := e.queue ++ [.setup] }, .pending, .create, s, [], none, []⟩ := by
  rw [create, Executor.submit_eq_ok.2 ⟨h, rfl⟩]

theorem create_of_isOpen_eq_false {e : Executor (Job τ)} (h : e.isOpen = false) (s : σ) :
    create e s = ⟨e, .refused .shutdown, Bridge.create.drop 0, s, [], none, []⟩ := by
  rw [create, Executor.submit_eq_error.2 h]

/-- The steps by which a setup with that result ends and the thread that waits for it returns. -/
def ending (result : Option (Except SubscribeError Nat)) : List (Event σ τ) :=
  (result.map fun _ => .report).toList ++ [.leave, .wait]

theorem run?_ending {result : Option (Except SubscribeError Nat)} (o : Order σ)
    (hactive : c.isActive = true) (hstage : c.stage = .ofResult result)
    (hbridge : c.bridge = .create) :
    ∃ d, c.run? o (ending result) = some d ∧
      d.returned? = some (result.getD (.error .cancelled)) ∧ d.server = c.server := by
  obtain ⟨executor, stage, bridge, server, asked, subscription, told⟩ := c
  obtain rfl : stage = .ofResult result := hstage
  obtain rfl : bridge = .create := hbridge
  have hstays : ∀ stage bridge, isActive (σ := σ)
      ⟨executor, stage, bridge, server, asked, subscription, told⟩ = true := fun _ _ => hactive
  cases result with
  | none =>
    refine ⟨⟨executor, .finished none, (Bridge.create.drop 0).look, server, asked, subscription,
      told⟩, ?_, rfl, rfl⟩
    exact run?_cons.2 ⟨_, if_pos (hstays _ _), run?_cons.2 ⟨_, rfl, rfl⟩⟩
  | some outcome =>
    refine ⟨⟨executor, .finished (some outcome), ((Bridge.create.fulfil outcome).drop 0).look,
      server, asked, subscription, told⟩, ?_, rfl, rfl⟩
    refine run?_cons.2 ⟨_, if_pos (hstays _ _), run?_cons.2 ⟨_, if_pos (hstays _ _), ?_⟩⟩
    exact run?_cons.2 ⟨_, rfl, rfl⟩

/-- A call that nothing disturbs, with an executor that has nothing else to do, is a whole setup. -/
theorem run?_alone (o : Order σ) (s : σ) (executor : Executor SubscriptionRequest)
    (e : Executor (Job τ)) (hopen : e.isOpen = executor.isOpen) (hphase : e.phase = .idle)
    (hqueue : e.queue = []) (hfree : e.handle.hasCall .worker = false) :
    let whole := Setup.start o.connection executor o.headers o.request s
    ∃ es c, (create e s).run? o es = some c ∧ c.returned? = whole.1 ∧ c.server = whole.2.2 := by
  intro whole
  cases hexecutor : executor.isOpen with
  | false =>
    rw [create_of_isOpen_eq_false (hopen.trans hexecutor)]
    refine ⟨[], _, rfl, ?_⟩
    simp [whole, Setup.start, Executor.submit, returned?, hexecutor]
  | true =>
    obtain ⟨hrun, _⟩ := run_recording o.connection o.headers o.request s
    generalize hresult : run o.connection.recording o.headers o.request (s, []) = recorded at hrun
    have hwhole : whole.1 = some (recorded.1.getD (.error .cancelled)) ∧
        whole.2.2 = recorded.2.1 := by
      simp [whole, Setup.start, Executor.submit, hexecutor, ← hrun, awaited_eq]
    rw [hwhole.1, hwhole.2, create_of_isOpen (hopen.trans hexecutor), hqueue]
    let begun : Call σ τ :=
      ⟨{ e with queue := [], phase := .running .setup }, .pending, .create, s, [], none, []⟩
    have hstart : step? o ⟨{ e with queue := [] ++ [.setup] }, .pending, .create, s, [], none, []⟩
        (.executor .start) = some begun := by
      simp [begun, step?, admits, Executor.Event.map, Executor.step?, Executor.start?, hphase]
    have hactive : begun.isActive = true := by
      simp [begun, isActive, runsSetup, hfree]
    have hask : begun.step? o .ask = some (begun.ask o) := if_pos hactive
    have hstage : (begun.ask o).stage = .ofResult recorded.1 := by
      rw [← hresult]
      rfl
    obtain ⟨c, hrest, hreturned, hserver⟩ := run?_ending (c := begun.ask o) o hactive hstage rfl
    refine ⟨.executor .start :: .ask :: ending recorded.1, c, ?_, hreturned, ?_⟩
    · exact run?_cons.2 ⟨_, hstart, run?_cons.2 ⟨_, hask, hrest⟩⟩
    · rw [hserver, ← hresult]
      rfl

end Call
end Setup
end TickingTable
