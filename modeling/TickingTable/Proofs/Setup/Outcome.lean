import TickingTable.Proofs.Setup.Invariant
import TickingTable.Proofs.Wire.Request

/-! What a call that sets up a subscription returns, and when it waits for what can no longer
come. -/

namespace TickingTable
namespace Setup
namespace Call

variable {σ τ : Type} {o : Order σ} {c d : Call σ τ} {e : Event σ τ} {es : List (Event σ τ)}

namespace Sound

/-- The worker does nothing else while the setup runs. -/
theorem not_isWork {v : Executor.Event τ} {f : Executor (Job τ)}
    (hruns : runsSetup c.executor = true) (hover : c.isOver = false) (hadmits : c.admits v = true)
    (hs : Executor.Step c.executor (v.map .other) f) : v.isWork = false := by
  cases v with
  | start =>
    cases hs with
    | start _ _ hphase _ => simp [runsSetup, hphase] at hruns
  | finish panicked =>
    rw [not_finish_of_admits hadmits hover panicked rfl] at hruns
    cases hruns
  | _ => rfl

/-- Steps of others with the executor do not put the end off, and the worker does nothing but the
setup once it has come to it. -/
theorem left_of_step {v : Executor.Event τ} (h : c.Sound o) (hadmits : c.admits v = true)
    (hs : Executor.Step c.executor (v.map .other) d.executor) (hsame : d.stage = c.stage)
    (hleft : 0 < d.left) : d.left + (if v.isWork then 1 else 0) = c.left := by
  have hbusy : c.stage.isEnding = true → c.stage.isPending = false → c.isOver = false →
      d.left + (if v.isWork then 1 else 0) = c.left := by
    intro hending hpending hover
    rw [not_isWork (h.ending hending) hover hadmits hs, left_of_not_pending hpending,
      left_of_not_pending (hsame ▸ hpending), hsame]
    rfl
  cases hstage : c.stage with
  | pending =>
    have hpending : c.stage.isPending = true := by rw [hstage]; rfl
    have hover : c.isOver = false := by rw [isOver, hstage]
    have hnearer := (h.queued.step hs fun _ => not_finish_of_admits hadmits hover).2 hpending
    rw [left_of_pending hstage, left_of_pending (hsame.trans hstage), ← hnearer]
    exact Nat.add_right_comm _ _ _
  | reporting outcome =>
    exact hbusy (by rw [hstage]; rfl) (by rw [hstage]; rfl) (by rw [isOver, hstage])
  | leaving result =>
    exact hbusy (by rw [hstage]; rfl) (by rw [hstage]; rfl) (by rw [isOver, hstage])
  | _ => simp [left, hsame.trans hstage, Stage.isPending, Stage.rest] at hleft

/-- Each step of the worker brings the end nearer, and no other step puts it off. -/
theorem left_step (h : c.Sound o) (hs : Step o c e d) (hleft : 0 < d.left) :
    d.left + (if e.isWork then 1 else 0) ≤ c.left := by
  cases hs with
  | ask hstage hactive =>
    -- The requests are one step, after which there is one more whatever came of them.
    rw [left_of_pending hstage, left_of_not_pending (Stage.isPending_ofResult _), Call.ask,
      Stage.rest_ofResult]
    exact Nat.le_add_left 2 _
  | report outcome _ _ => simp [left, Stage.isPending, Stage.rest] at hleft
  | leave result _ _ => simp [left, Stage.isPending, Stage.rest] at hleft
  | executor v f hadmits hs => exact Nat.le_of_eq (h.left_of_step hadmits hs rfl hleft)
  | _ => exact Nat.le_refl _

theorem left_run? (h : c.Sound o) (hrun : c.run? o es = some d) (hleft : 0 < d.left) :
    d.left + es.countP Event.isWork ≤ c.left := by
  induction es generalizing c with
  | nil =>
    cases hrun
    exact Nat.le_refl _
  | cons e es ih =>
    obtain ⟨u, hu, hrun⟩ := run?_cons.1 hrun
    have hs := step_of_step? hu
    have hrest := ih (h.step hs) hrun
    have hfirst := h.left_step hs (by omega)
    rw [List.countP_cons]
    omega

/-- Once the promise has ended, the thread that waits returns as soon as it looks. -/
theorem exists_return (h : c.Sound o) (hnone : c.returned? = none) (hleft : c.left = 0) :
    ∃ e d, (e = .wait ∨ e = .look) ∧ c.step? o e = some d ∧ d.returned?.isSome = true := by
  rcases h.returned_cases with ⟨_, hsome⟩ | ⟨hrefused, hwaits, _⟩ | ⟨_, _, result, _, hsome⟩
  · rw [hsome] at hnone
    cases hnone
  · have hserved := (h.bridge.look_receiver hwaits).2 (h.fulfilled_iff.2 hleft)
    have hreturned : ({ c with bridge := c.bridge.look } : Call σ τ).returned?.isSome = true := by
      rcases (h.look hwaits hrefused).returned_cases with
        ⟨_, hsome⟩ | ⟨_, hagain, _⟩ | ⟨_, _, _, _, hsome⟩
      · rw [hsome]
        rfl
      · simp only [hserved] at hagain
        cases hagain
      · rw [hsome]
        rfl
    cases hreceiver : c.bridge.receiver with
    | idle =>
      exact ⟨.wait, _, Or.inl rfl, by simp [step?, hrefused, Bridge.step?, hreceiver], hreturned⟩
    | blocked awake =>
      exact ⟨.look, _, Or.inr rfl, by simp [step?, Bridge.step?, hreceiver], hreturned⟩
    | served =>
      rw [hreceiver] at hwaits
      cases hwaits
    | chained k => exact k.elim
  · rw [hsome] at hnone
    cases hnone

/-- The worker gets on with the setup or with what stands before it, unless the task that runs is
inside a shutdown. -/
theorem exists_work (h : c.Sound o) (hleft : 0 < c.left)
    (hfree : c.executor.handle.hasCall .worker = false) :
    ∃ (e : Event σ τ) (d : Call σ τ), e.isWork = true ∧ c.step? o e = some d := by
  have hactive : runsSetup c.executor = true → c.isActive = true := by
    intro hruns
    rw [isActive, hruns, hfree]
    rfl
  cases hstage : c.stage with
  | pending =>
    cases hruns : runsSetup c.executor with
    | true => exact ⟨.ask, c.ask o, rfl, by simp [step?, hstage, hactive hruns]⟩
    | false =>
      have hqueued : Queued c.executor true := by simpa [hstage, Stage.isPending] using h.queued
      obtain ⟨v, f, hwork, hstep⟩ := hqueued.exists_step? h.executor hruns hfree
      have hadmits : c.admits v = true := by
        unfold admits
        split
        · rw [hruns]; rfl
        · rfl
      exact ⟨.executor v, { c with executor := f }, hwork, by simp [step?, hadmits, hstep]⟩
  | reporting outcome =>
    have hruns := h.ending (by rw [hstage]; rfl)
    exact ⟨.report, { c with bridge := c.bridge.fulfil outcome, stage := .leaving (some outcome) },
      rfl, by simp [step?, hstage, hactive hruns]⟩
  | leaving result =>
    have hruns := h.ending (by rw [hstage]; rfl)
    exact ⟨.leave, { c with bridge := c.bridge.drop 0, stage := .finished result }, rfl,
      by simp [step?, hstage, hactive hruns]⟩
  | _ => simp [left, hstage, Stage.isPending, Stage.rest] at hleft

/-- A task that shuts the executor down gets out of that, unless it is in a deadlock with another
thread that does. -/
theorem exists_unlock (h : c.Sound o) (hcall : c.executor.handle.hasCall .worker = true)
    (hfree : ¬ c.executor.Deadlocked) :
    ∃ d, c.step? o (.executor (.lock .worker)) = some d ∧
      d.executor.handle.hasCall .worker = false ∧ d.returned? = c.returned? := by
  obtain ⟨f, hstep, hf⟩ := h.executor.lock_worker hcall hfree
  exact ⟨{ c with executor := f }, by simp [step?, admits, Executor.Event.map, hstep], hf, rfl⟩

/-- There is nothing left to deliver to a call that has returned. -/
theorem left_of_returned (h : c.Sound o) (hsome : c.returned?.isSome = true) : c.left = 0 := by
  rcases h.returned_cases with ⟨hrefused, _⟩ | ⟨_, _, hnone⟩ | ⟨_, hserved, _⟩
  · unfold isRefused at hrefused
    split at hrefused
    · next x hstage => rw [left_of_not_pending (by rw [hstage]; rfl), hstage]; rfl
    · cases hrefused
  · rw [hnone] at hsome
    cases hsome
  · rcases h.bridge.settled.answered with ⟨hwaits, _⟩ | ⟨_, hended, _⟩
    · rw [hserved] at hwaits
      cases hwaits
    · exact h.fulfilled_iff.1 hended

end Sound

theorem Step.hasCall_worker (h : Step o c e d) (he : e ≠ .executor (.close .worker))
    (hc : c.executor.handle.hasCall .worker = false) :
    d.executor.handle.hasCall .worker = false := by
  cases h with
  | executor v f _ hs =>
    refine hs.hasCall_worker ?_ hc
    intro hv
    cases v with
    | close caller =>
      cases hv
      exact he rfl
    | _ => cases hv
  | _ => exact hc

theorem hasCall_worker_run? (hrun : c.run? o es = some d) (hes : .executor (.close .worker) ∉ es)
    (hc : c.executor.handle.hasCall .worker = false) :
    d.executor.handle.hasCall .worker = false := by
  induction es generalizing c with
  | nil =>
    cases hrun
    exact hc
  | cons e es ih =>
    obtain ⟨u, hu, hrun⟩ := run?_cons.1 hrun
    obtain ⟨hfirst, hrest⟩ := not_or.1 (mt List.mem_cons.2 hes)
    exact ih hrun hrest ((step_of_step? hu).hasCall_worker (Ne.symm hfirst) hc)

/-- The worker and the thread that waits bring a call to its return by themselves. -/
theorem Sound.exists_arrival (h : c.Sound o) (hnone : c.returned? = none)
    (hfree : c.executor.handle.hasCall .worker = false) :
    ∃ more d, (∀ e ∈ more, Event.isWork e = true ∨ e = .wait ∨ e = .look) ∧
      c.run? o more = some d ∧ d.returned?.isSome = true := by
  -- A step only bounds what is left from above, so the induction is a strong one.
  generalize hn : c.left = n
  induction n using Nat.strong_induction_on generalizing c with
  | _ n ih =>
    rcases Nat.eq_zero_or_pos c.left with hleft | hleft
    · obtain ⟨e, d, he, hstep, hreturned⟩ := h.exists_return hnone hleft
      exact ⟨[e], d, by simpa using Or.inr he, run?_cons.2 ⟨d, hstep, rfl⟩, hreturned⟩
    · obtain ⟨e, u, hwork, hstep⟩ := h.exists_work hleft hfree
      have hs := step_of_step? hstep
      have hu := h.step hs
      cases hreturned : u.returned? with
      | some r =>
        exact ⟨[e], u, by simp [hwork], run?_cons.2 ⟨u, hstep, rfl⟩, by rw [hreturned]; rfl⟩
      | none =>
        have hnearer : u.left < n := by
          rcases Nat.eq_zero_or_pos u.left with hzero | hpos
          · omega
          · have hless := h.left_step hs hpos
            rw [hwork, if_pos rfl] at hless
            omega
        have hstill := hs.hasCall_worker (by rintro rfl; cases hwork) hfree
        obtain ⟨more, d, hmore, hrun, harrived⟩ := ih u.left hnearer hu hreturned hstill rfl
        refine ⟨e :: more, d, ?_, run?_cons.2 ⟨u, hstep, hrun⟩, harrived⟩
        intro e' he'
        rcases List.mem_cons.1 he' with rfl | hin
        · exact Or.inl hwork
        · exact hmore e' hin

/-- What the call waits for is to be delivered by a worker that is in a deadlock: the task that it
runs shuts the executor down, and so does another thread, which waits for the worker. -/
def Forsaken (c : Call σ τ) : Prop := 0 < c.left ∧ c.executor.Deadlocked

theorem Forsaken.step (h : c.Forsaken) (hc : c.Sound o) (hs : Step o c e d) : d.Forsaken := by
  obtain ⟨hleft, hdead⟩ := h
  have hinactive (hactive : c.isActive = true) : False := by
    have hcall : c.executor.handle.hasCall .worker = true :=
      WorkerHandle.hasCall_iff.2 ⟨_, hdead.1⟩
    simp [isActive, hcall] at hactive
  cases hs with
  | ask _ hactive => exact (hinactive hactive).elim
  | report outcome _ hactive => exact (hinactive hactive).elim
  | leave result _ hactive => exact (hinactive hactive).elim
  | executor v f _ hs =>
    refine ⟨?_, hdead.step hc.executor hs⟩
    obtain ⟨c', _, rfl⟩ := hdead.exists_close hc.executor hs
    exact hleft
  | _ => exact ⟨hleft, hdead⟩

theorem Forsaken.run? (h : c.Forsaken) (hc : c.Sound o) (hrun : c.run? o es = some d) :
    d.Forsaken := by
  have hstep : ∀ (c : Call σ τ) e d, Sound o c ∧ c.Forsaken → Step o c e d →
      Sound o d ∧ d.Forsaken := fun _ _ _ hc hs => ⟨hc.1.step hs, hc.2.step hc.1 hs⟩
  exact (run?_preserves hstep ⟨hc, h⟩ hrun).2

/-- The thread of a forsaken call waits forever, whatever steps are taken. -/
theorem Forsaken.never_returns (h : c.Forsaken) (hc : c.Sound o) (hrun : c.run? o es = some d) :
    d.returned? = none := by
  have hleft := (h.run? hc hrun).1
  rw [← Option.not_isSome_iff_eq_none]
  intro hsome
  rw [(hc.run? hrun).left_of_returned hsome] at hleft
  exact Nat.lt_irrefl _ hleft

/-- No other call waits forever. -/
theorem Sound.exists_return_of_not_forsaken (h : c.Sound o) (hnone : c.returned? = none)
    (hnot : ¬ c.Forsaken) : ∃ more d, c.run? o more = some d ∧ d.returned?.isSome = true := by
  rcases Nat.eq_zero_or_pos c.left with hleft | hleft
  · obtain ⟨e, d, _, hstep, hreturned⟩ := h.exists_return hnone hleft
    exact ⟨[e], d, run?_cons.2 ⟨d, hstep, rfl⟩, hreturned⟩
  · cases hcall : c.executor.handle.hasCall .worker with
    | false =>
      obtain ⟨more, d, _, hrun, hreturned⟩ := h.exists_arrival hnone hcall
      exact ⟨more, d, hrun, hreturned⟩
    | true =>
      obtain ⟨u, hstep, hout, hsame⟩ := h.exists_unlock hcall fun hdead => hnot ⟨hleft, hdead⟩
      have hu := h.step (step_of_step? hstep)
      obtain ⟨more, d, _, hrun, hreturned⟩ := hu.exists_arrival (hsame.trans hnone) hout
      exact ⟨_, d, run?_cons.2 ⟨u, hstep, hrun⟩, hreturned⟩

/-- What a result tells of the setup, by whether the executor took it and by its requests. -/
structure Tells (o : Order σ) (accepted : Bool) (asked : List Asked)
    (r : Except SubscribeError Nat) : Prop where
  ok : ∀ i, r = .ok i ↔ accepted = true ∧ asked =
    [.opened o.headers Wire.exchangeCommand (.returned i), .wrote i o.request.encode (.returned ())]
  setup : ∀ x, r = .error (.setup x) ↔ accepted = true ∧ ∃ a ∈ asked, a.failure? = some x
  cancelled : r = .error .cancelled ↔ accepted = true ∧ ∃ a ∈ asked, a.panicked = true
  executor : ∀ x, r = .error (.executor x) ↔ x = .shutdown ∧ accepted = false

theorem tells_of_asks {asked : List Asked} {result : Option (Except SubscribeError Nat)}
    (h : Asks o.headers o.request asked result) :
    Tells o true asked (result.getD (.error .cancelled)) := by
  cases h <;> constructor <;> simp [Asked.failure?, Asked.panicked]

theorem tells_refused (asked : List Asked) :
    Tells o false asked (.error (.executor .shutdown)) := by
  constructor <;> simp

/-- What a call that has not returned can count on when it began as `first` and the steps `es` were
taken since. -/
structure Expects (o : Order σ) (first : Call σ τ) (es : List (Event σ τ)) (c : Call σ τ) :
    Prop where
  /-- A thread sleeps only as long as something is still to be delivered to it. -/
  awake : ∀ awake, c.bridge.receiver = .blocked awake → (awake = true ↔ c.left = 0)
  /-- It returns when it looks and nothing is to be delivered any more. -/
  returns : c.left = 0 →
    ∃ e d, (e = .wait ∨ e = .look) ∧ c.step? o e = some d ∧ d.returned?.isSome = true
  /-- The worker delivers, or gives up, after so many steps. -/
  bounded : 0 < c.left → c.left + es.countP Event.isWork ≤ first.left
  /-- The worker can take its next step unless the task that runs shuts the executor down. -/
  works : 0 < c.left → c.executor.handle.hasCall .worker = false →
    ∃ e d, Event.isWork e = true ∧ c.step? o e = some d
  /-- So the call can return without anybody else taking a step. -/
  arrives : c.executor.handle.hasCall .worker = false →
    ∃ more d, (∀ e ∈ more, Event.isWork e = true ∨ e = .wait ∨ e = .look) ∧
      c.run? o more = some d ∧ d.returned?.isSome = true
  /-- Only a task that itself shuts the executor down can keep the worker from that. -/
  free : .executor (.close .worker) ∉ es → c.executor.handle.hasCall .worker = false
  /-- It gets out of its shutdown by the next step of the worker, except in a deadlock. -/
  unlocks : c.executor.handle.hasCall .worker = true → ¬ c.executor.Deadlocked →
    ∃ d, c.step? o (.executor (.lock .worker)) = some d ∧
      d.executor.handle.hasCall .worker = false ∧ d.returned? = c.returned?
  /-- And so the call can return as long as it is not forsaken, and then it cannot. -/
  returnable : ¬ c.Forsaken ↔ ∃ more d, c.run? o more = some d ∧ d.returned?.isSome = true

theorem Sound.expects {first : Call σ τ} (hfirst : first.Sound o) (h : first.run? o es = some c)
    (hnone : c.returned? = none)
    (hfree : first.isRefused = false → first.executor.handle.hasCall .worker = false) :
    Expects o first es c := by
  have hc := hfirst.run? h
  refine ⟨?_, hc.exists_return hnone, hfirst.left_run? h, hc.exists_work, hc.exists_arrival hnone,
    ?_, hc.exists_unlock, hc.exists_return_of_not_forsaken hnone, ?_⟩
  · intro awake hblocked
    have hsettled := hc.bridge.settled
    rw [hblocked] at hsettled
    rw [hsettled.awake_eq]
    exact hc.fulfilled_iff
  · intro hes
    refine hasCall_worker_run? h hes (hfree ?_)
    rw [← isRefused_run? h]
    rcases hc.returned_cases with ⟨_, hsome⟩ | ⟨hrefused, _⟩ | ⟨hrefused, _⟩
    · rw [hsome] at hnone
      cases hnone
    · exact hrefused
    · exact hrefused
  · rintro ⟨more, d, hrun, hsome⟩ hforsaken
    rw [hforsaken.never_returns hc hrun] at hsome
    cases hsome

/-- A call sets up a subscription by means of an executor that others have used, while they go on to
use it and the server. It returns the subscription just if the executor took the setup and both
requests succeeded, and otherwise the failure of one of them, that the setup was given up because
one of them panicked, or that the executor had been shut down. The server of a call that succeeds
has got one message, which reads back as the request, and for a call that fails there is no worker
and the subscriber is never told of anything. A call that has not returned can still return, unless
its setup stands behind a task whose shutdown of the executor is in a deadlock with that of another
thread: then it waits forever. -/
theorem start_returns (o : Order σ) (name : String) (vs : List (Executor.Event τ)) (s : σ)
    (es : List (Event σ τ)) (c : Call σ τ)
    (h : (create ((Executor.create name).attempt (vs.map (.map .other))) s).run? o es = some c) :
    let e : Executor (Job τ) := (Executor.create name).attempt (vs.map (.map .other))
    (∀ r, c.returned? = some r → Tells o e.isOpen c.asked r) ∧
    (∀ i, c.returned? = some (.ok i) → c.subscription.isSome = true ∧ ∃ message,
      c.asked = [.opened o.headers Wire.exchangeCommand (.returned i),
        .wrote i message (.returned ())] ∧
      (o.request.ticket.bytes.length < 2 ^ 32 →
        SubscriptionRequest.decode message = .ok o.request)) ∧
    (∀ x, c.returned? = some (.error x) → ∀ more d, c.run? o more = some d →
      d.returned? = some (.error x) ∧ d.subscription = none ∧ d.told = []) ∧
    (e.isOpen = false → c.returned? = some (.error (.executor .shutdown))) ∧
    (c.returned? = none → Expects o (create e s) es c) := by
  intro e
  have hreached : e.Reached := .run name _
  obtain ⟨hqueued, hruns⟩ := queued_attempt (e := Executor.create name) (τ := τ) rfl rfl vs
  have hfirst : (create e s).Sound o := .create o hreached hqueued hruns s
  have hc := hfirst.run? h
  have hrefused : c.isRefused = !e.isOpen := (isRefused_run? h).trans (isRefused_create e s)
  have htells : ∀ r, c.returned? = some r → Tells o e.isOpen c.asked r := by
    intro r hr
    rcases hc.returned_cases with ⟨hyes, hreturned⟩ | ⟨_, _, hnone⟩ |
      ⟨hno, _, result, hresult, hreturned⟩
    · have hopen : e.isOpen = false := by simpa [hyes] using hrefused
      rw [hr] at hreturned
      cases hreturned
      exact hopen ▸ tells_refused c.asked
    · rw [hr] at hnone
      cases hnone
    · have hopen : e.isOpen = true := by simpa [hno] using hrefused
      rw [hr] at hreturned
      cases hreturned
      exact hopen ▸ tells_of_asks (hc.asked result hresult)
  refine ⟨htells, ?_, ?_, ?_, fun hnone => hfirst.expects h hnone ?_⟩
  · intro i hr
    exact ⟨(hc.subscription_iff hr).2 ⟨i, rfl⟩, _, ((htells _ hr).ok i).1 rfl |>.2,
      SubscriptionRequest.decode_encode⟩
  · intro x hr more d hmore
    have hd := hc.run? hmore
    have hreturned := hc.returned?_run? hmore hr
    have hnone : d.subscription = none := by
      rw [← Option.not_isSome_iff_eq_none, hd.subscription_iff hreturned]
      rintro ⟨i, ⟨⟩⟩
    exact ⟨hreturned, hnone, hd.told hnone⟩
  · intro hopen
    rcases hc.returned_cases with ⟨_, hreturned⟩ | ⟨hno, _⟩ | ⟨hno, _⟩
    · exact hreturned
    · simp [hno, hopen] at hrefused
    · simp [hno, hopen] at hrefused
  · intro hno
    have hopen : e.isOpen = true := by
      rw [isRefused_create] at hno
      simpa using hno
    rw [create_of_isOpen hopen]
    exact hreached.hasCall_of_isOpen hopen .worker

/-- A subscription to a table of a server within the process. -/
def smallOrder : Order Transport where
  connection := Transport.connection
  headers := [("authorization", "secret")]
  request := ⟨⟨[7]⟩, {}⟩
  schema := .empty

/-- The call waits behind a task of others, which panics. Then its setup runs, while others shut the
executor down. -/
def waitedOut : List (Event Transport Nat) :=
  [.wait, .executor (.finish true), .executor .start, .look, .executor (.close (.other 0)), .ask,
    .report, .look, .leave]

theorem start_returns_waitedOut :
    ∃ c : Call Transport Nat,
      (create ((Executor.create "flight").attempt ([.submit 5, .start].map (.map .other)))
        Transport.create).run? smallOrder waitedOut = some c ∧
      c.returned? = some (.ok 0) ∧ c.subscription.isSome = true ∧
      ∃ message, c.asked = [.opened smallOrder.headers Wire.exchangeCommand (.returned 0),
          .wrote 0 message (.returned ())] ∧
        SubscriptionRequest.decode message = .ok smallOrder.request := by
  obtain ⟨c, hrun, hreturned⟩ : ∃ c : Call Transport Nat,
      (create ((Executor.create "flight").attempt ([.submit 5, .start].map (.map .other)))
        Transport.create).run? smallOrder waitedOut = some c ∧ c.returned? = some (.ok 0) :=
    ⟨_, rfl, rfl⟩
  obtain ⟨_, hok, _⟩ := start_returns smallOrder "flight" [.submit 5, .start] Transport.create
    waitedOut c hrun
  obtain ⟨hsome, message, hasked, hdecode⟩ := hok 0 hreturned
  exact ⟨c, hrun, hreturned, hsome, message, hasked, hdecode (by decide)⟩

/-- While the call waits behind the task of others, another thread shuts the executor down and waits
for the worker. Now the task shuts the executor down as well. -/
def cutOff : List (Event Transport Nat) :=
  [.wait, .executor (.close (.other 0)), .executor (.lock (.other 0)), .executor (.close .worker)]

/-- The executor has taken the setup, but it neither runs nor drops it, and the call never returns. -/
theorem start_never_returns :
    ∃ c : Call Transport Nat,
      (create ((Executor.create "flight").attempt ([.submit 5, .start].map (.map .other)))
        Transport.create).run? smallOrder cutOff = some c ∧
      c.isRefused = false ∧ c.executor.Deadlocked ∧
      ∀ more d, c.run? smallOrder more = some d → d.returned? = none := by
  obtain ⟨c, hrun, haccepted, hleft, hdead⟩ : ∃ c : Call Transport Nat,
      (create ((Executor.create "flight").attempt ([.submit 5, .start].map (.map .other)))
        Transport.create).run? smallOrder cutOff = some c ∧ c.isRefused = false ∧ 0 < c.left ∧
          c.executor.Deadlocked :=
    ⟨_, rfl, rfl, by decide, by decide, .other 0, by decide⟩
  obtain ⟨hqueued, hruns⟩ :=
    queued_attempt (e := Executor.create "flight") (τ := Nat) rfl rfl [.submit 5, .start]
  have hc := (Sound.create smallOrder (.run "flight" _) hqueued hruns Transport.create).run? hrun
  exact ⟨c, hrun, haccepted, hdead, fun more d hmore =>
    Forsaken.never_returns ⟨hleft, hdead⟩ hc hmore⟩

end Call
end Setup
end TickingTable
