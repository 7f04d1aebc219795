import TickingTable.Proofs.Promise.Once
import TickingTable.Proofs.Setup.Turn

/-! What the promise, the requests and the subscription of a call say of how far its setup has come,
and of what the call has returned. -/

namespace TickingTable

/-- A thread that waits for a promise without a continuation is answered with the first outcome, or
with that there is none. -/
theorem Bridge.Settled.answered {ε α : Type} {first outcome? : Option (Except ε α)} {ended : Bool}
    {r : Receiver Empty} {continuation? : Option Empty} {received : List (Received ε α Empty)}
    (h : Settled first ended r outcome? continuation? received) :
    r.waits = true ∧ received = [] ∨
      r = .served ∧ ended = true ∧ received = [.wait (first.elim (.error .abandoned) .ok)] := by
  cases h with
  | idle => exact Or.inl ⟨rfl, rfl⟩
  | blocked => exact Or.inl ⟨rfl, rfl⟩
  | served outcome hfirst hended => exact Or.inr ⟨rfl, hended, by rw [hfirst]; rfl⟩
  | abandoned hfirst hended => exact Or.inr ⟨rfl, hended, by rw [hfirst]; rfl⟩
  | ran k => exact nomatch k
  | chained k => exact nomatch k
  | discarded k => exact nomatch k

/-- Delivering an outcome does nothing to a receiver that has been answered. -/
theorem Bridge.receiver_fulfil {ε α κ : Type} {b : Bridge ε α κ} (h : b.receiver = .served)
    (outcome : Except ε α) : (b.fulfil outcome).receiver = .served := by
  unfold Bridge.fulfil
  dsimp only
  split
  · exact h
  · simp only [h, Receiver.notify]
  · exact h

theorem Bridge.receiver_drop {ε α κ : Type} {b : Bridge ε α κ} (h : b.receiver = .served)
    (copy : Nat) : (b.drop copy).receiver = .served := by
  simp [Bridge.drop, h, Receiver.notify]

namespace Setup

namespace Stage

/-- The result of a setup that has made its requests, which is none if it panicked. -/
def result? : Stage → Option (Option (Except SubscribeError Nat))
  | .refused _ | .pending => none
  | .reporting outcome => some (some outcome)
  | .leaving result | .finished result => some result

/-- What the setup has delivered. -/
def delivered : Stage → List (Except SubscribeError Nat)
  | .leaving result | .finished result => result.toList
  | _ => []

/-- The sides of the promise that the setup has not dropped. -/
def copies : Stage → List Nat
  | .refused _ | .finished _ => []
  | _ => [0]

def isPending : Stage → Bool
  | .pending => true
  | _ => false

/-- The setup has made its requests and is not over. -/
def isEnding : Stage → Bool
  | .reporting _ | .leaving _ => true
  | _ => false

/-- The steps of a setup until the thread that waits for it has something to receive. -/
def rest : Stage → Nat
  | .pending => 2
  | .reporting _ | .leaving none => 1
  | _ => 0

section OfResult

variable (result : Option (Except SubscribeError Nat))

@[simp] theorem result?_ofResult : (ofResult result).result? = some result := by
  cases result <;> rfl

@[simp] theorem delivered_ofResult : (ofResult result).delivered = [] := by
  cases result <;> rfl

@[simp] theorem copies_ofResult : (ofResult result).copies = [0] := by
  cases result <;> rfl

@[simp] theorem isPending_ofResult : (ofResult result).isPending = false := by
  cases result <;> rfl

@[simp] theorem rest_ofResult : (ofResult result).rest = 1 := by
  cases result <;> rfl

theorem ofResult_ne_refused (x : ExecutorError) : ofResult result ≠ .refused x := by
  cases result <;> nofun

end OfResult

end Stage

namespace Call

variable {σ τ : Type} {o : Order σ} {c d : Call σ τ} {e : Event σ τ} {es : List (Event σ τ)}

/-- The steps of the worker of the executor until the thread that waits has something to receive. -/
def left (c : Call σ τ) : Nat :=
  (if c.stage.isPending then toStart c.executor else 0) + c.stage.rest

theorem left_of_pending (h : c.stage = .pending) : c.left = toStart c.executor + 2 := by
  rw [left, h]
  rfl

theorem left_of_not_pending (h : c.stage.isPending = false) : c.left = c.stage.rest := by
  rw [left, h, if_neg Bool.false_ne_true, Nat.zero_add]

/-- The promise, the requests and the subscription by how far the setup has come. -/
structure Sound (o : Order σ) (c : Call σ τ) : Prop where
  bridge : c.bridge.Sound
  offers : c.bridge.offers = c.stage.delivered
  copies : c.bridge.copies = c.stage.copies
  executor : c.executor.Reached
  queued : Queued c.executor c.stage.isPending
  ending : c.stage.isEnding = true → runsSetup c.executor = true
  unasked : c.stage.result? = none → c.asked = []
  asked : ∀ result, c.stage.result? = some result → Asks o.headers o.request c.asked result
  subscription : c.subscription.isSome = true ↔ ∃ i, c.stage.result? = some (some (.ok i))
  told : c.subscription = none → c.told = []
  refused : ∀ x, c.stage = .refused x → x = .shutdown ∧ c.bridge.receiver = .idle

namespace Step

theorem isRefused_eq (h : Step o c e d) : d.isRefused = c.isRefused := by
  cases h with
  | ask hstage _ =>
    have hafter : (c.ask o).isRefused = false := by
      unfold isRefused
      split
      · next hrefused => exact absurd hrefused (Stage.ofResult_ne_refused _ _)
      · rfl
    rw [hafter, isRefused, hstage]
  | report outcome hstage _ => simp only [isRefused, hstage]
  | leave result hstage _ => simp only [isRefused, hstage]
  | _ => rfl

theorem result?_eq {result : Option (Except SubscribeError Nat)} (h : Step o c e d)
    (hc : c.stage.result? = some result) : d.stage.result? = some result := by
  cases h with
  | ask hstage _ =>
    rw [hstage] at hc
    cases hc
  | report outcome hstage _ => rwa [hstage] at hc
  | leave result hstage _ => rwa [hstage] at hc
  | _ => exact hc

theorem receiver_eq (h : Step o c e d) (hc : c.bridge.receiver = .served) :
    d.bridge.receiver = .served := by
  cases h with
  | report outcome _ _ => exact Bridge.receiver_fulfil hc outcome
  | leave result _ _ => exact Bridge.receiver_drop hc 0
  | wait _ hidle =>
    rw [hidle] at hc
    cases hc
  | look _ hblocked =>
    rw [hblocked] at hc
    cases hc
  | _ => exact hc

end Step

namespace Sound

theorem runs_of_isActive (h : c.isActive = true) : runsSetup c.executor = true :=
  (Bool.and_eq_true_iff.1 h).1

theorem ask (h : c.Sound o) (hstage : c.stage = .pending) (hactive : c.isActive = true) :
    (c.ask o).Sound o := by
  have hunasked : c.stage.result? = none := by rw [hstage]; rfl
  have hasked := h.unasked hunasked
  have hnone : c.subscription = none := by
    rw [← Option.not_isSome_iff_eq_none, h.subscription, hunasked]
    simp
  have hruns := runs_of_isActive hactive
  have hqueued : Queued c.executor false := by
    have hwaits := h.queued
    rw [hstage] at hwaits
    simpa [Queued, Stage.isPending, hruns] using hwaits
  have hoffers : c.bridge.offers = [] := by rw [h.offers, hstage]; rfl
  have hcopies : c.bridge.copies = [0] := by rw [h.copies, hstage]; rfl
  obtain ⟨_, hasks⟩ := run_recording o.connection o.headers o.request c.server
  unfold Call.ask
  rw [hasked]
  generalize run o.connection.recording o.headers o.request (c.server, []) = recorded at hasks ⊢
  obtain ⟨result, server, asked⟩ := recorded
  refine ⟨h.bridge, by simpa using hoffers, by simpa using hcopies, h.executor,
    by simpa using hqueued, fun _ => hruns, by simp, ?_, ?_, fun _ => h.told hnone, ?_⟩
  · intro made hmade
    obtain rfl : result = made := by simpa using hmade
    exact hasks
  · rcases result with _ | x | i <;> simp
  · intro x hx
    exact absurd hx (Stage.ofResult_ne_refused result x)

theorem report {outcome : Except SubscribeError Nat} (h : c.Sound o)
    (hstage : c.stage = .reporting outcome) :
    Sound o { c with bridge := c.bridge.fulfil outcome, stage := .leaving (some outcome) } := by
  obtain ⟨hbridge, hoffers, hcopies, hexecutor, hqueued, hending, _, hasked, hsubscription, htold,
    _⟩ := h
  rw [hstage] at hoffers hcopies hqueued hending hasked hsubscription
  obtain ⟨hoffered, hsame⟩ := c.bridge.fulfil_same outcome
  have hcopy : 0 ∈ c.bridge.copies := by rw [hcopies]; exact List.mem_cons_self
  refine ⟨hbridge.fulfil hcopy outcome, ?_, hsame.trans hcopies, hexecutor, hqueued, hending, nofun,
    hasked, hsubscription, htold, nofun⟩
  rw [hoffered, hoffers]
  rfl

theorem leave {result : Option (Except SubscribeError Nat)} (h : c.Sound o)
    (hstage : c.stage = .leaving result) :
    Sound o { c with bridge := c.bridge.drop 0, stage := .finished result } := by
  obtain ⟨hbridge, hoffers, hcopies, hexecutor, hqueued, _, _, hasked, hsubscription, htold, _⟩ := h
  rw [hstage] at hoffers hcopies hqueued hasked hsubscription
  have hcopy : 0 ∈ c.bridge.copies := by rw [hcopies]; exact List.mem_cons_self
  refine ⟨hbridge.drop hcopy, hoffers, ?_, hexecutor, hqueued, nofun, nofun, hasked, hsubscription,
    htold, nofun⟩
  simp [Bridge.drop, hcopies, Stage.copies]

theorem not_finish_of_admits {v : Executor.Event τ} (hadmits : c.admits v = true)
    (hover : c.isOver = false) (panicked : Bool) (hv : v = .finish panicked) :
    runsSetup c.executor = false := by
  subst hv
  simpa [admits, hover] using hadmits

/-- What is not so of a setup that is over tells that this one is not. -/
theorem isOver_eq_false {p : Stage → Bool} (hp : ∀ result, p (.finished result) = false)
    (h : p c.stage = true) : c.isOver = false := by
  unfold isOver
  split
  · next result hstage =>
    rw [hstage, hp] at h
    cases h
  · rfl

theorem of_step {v : Executor.Event τ} {f : Executor (Job τ)} (h : c.Sound o)
    (hadmits : c.admits v = true) (hs : Executor.Step c.executor (v.map .other) f) :
    Sound o { c with executor := f } := by
  have hother := not_finish_of_admits hadmits
  have hqueued : Queued f c.stage.isPending :=
    (h.queued.step hs fun hpending => hother (isOver_eq_false (fun _ => rfl) hpending)).1
  have hending : c.stage.isEnding = true → runsSetup f = true := by
    intro hbusy
    have hruns := h.ending hbusy
    refine runsSetup_of_step hs hruns fun panicked hv => ?_
    rw [hother (isOver_eq_false (fun _ => rfl) hbusy) panicked hv] at hruns
    cases hruns
  exact { h with executor := h.executor.step hs, queued := hqueued, ending := hending }

theorem look (h : c.Sound o) (hwaits : c.bridge.receiver.waits = true)
    (hrefused : c.isRefused = false) : Sound o { c with bridge := c.bridge.look } := by
  obtain ⟨hoffered, hkept⟩ := c.bridge.look_same
  have hnot : ∀ x, c.stage ≠ .refused x := by
    intro x hstage
    rw [isRefused, hstage] at hrefused
    cases hrefused
  exact { h with
    bridge := h.bridge.look hwaits
    offers := hoffered.trans h.offers
    copies := hkept.trans h.copies
    refused := fun x hx => absurd hx (hnot x) }

theorem step (h : c.Sound o) (hs : Step o c e d) : d.Sound o := by
  cases hs with
  | ask hstage hactive => exact h.ask hstage hactive
  | report outcome hstage _ => exact h.report hstage
  | leave result hstage _ => exact h.leave hstage
  | executor v f hadmits hs => exact h.of_step hadmits hs
  | wait hrefused hidle => exact h.look (by rw [hidle]; rfl) hrefused
  | look awake hblocked =>
    refine h.look (by rw [hblocked]; rfl) ?_
    cases hstage : c.stage with
    | refused x =>
      rw [(h.refused x hstage).2] at hblocked
      cases hblocked
    | _ => simp [isRefused, hstage]
  | serve f => exact { h with }
  | subscription e s t hsome ht =>
    have hthere : (some t).isSome = true ↔ ∃ i, c.stage.result? = some (some (.ok i)) := by
      rw [← h.subscription, hsome]
      rfl
    exact { h with subscription := hthere, told := nofun }

theorem create {e : Executor (Job τ)} (o : Order σ) (hreached : e.Reached)
    (hqueued : Queued e false) (hruns : runsSetup e = false) (s : σ) : (create e s).Sound o := by
  cases hopen : e.isOpen with
  | false =>
    rw [create_of_isOpen_eq_false hopen]
    refine ⟨Bridge.Sound.create.drop List.mem_cons_self, rfl, rfl, hreached, hqueued,
      by simp [Stage.isEnding], fun _ => rfl, by simp [Stage.result?], by simp [Stage.result?],
      fun _ => rfl, ?_⟩
    rintro x ⟨⟩
    exact ⟨rfl, rfl⟩
  | true =>
    rw [create_of_isOpen hopen]
    have hsubmitted : Queued { e with queue := e.queue ++ [.setup] } true := by
      have hsame : runsSetup { e with queue := e.queue ++ [.setup] } = false := hruns
      rw [Queued, Bool.false_and, if_neg Bool.false_ne_true] at hqueued
      rw [Queued, hsame, List.countP_append, hqueued]
      rfl
    exact ⟨.create, rfl, rfl, hreached.step (.submit .setup hopen), hsubmitted,
      by simp [Stage.isEnding], fun _ => rfl, by simp [Stage.result?], by simp [Stage.result?],
      fun _ => rfl, by simp⟩

theorem run? (h : c.Sound o) (hrun : c.run? o es = some d) : d.Sound o :=
  run?_preserves (fun _ _ _ hc hs => hc.step hs) h hrun

/-- The promise has ended just if the worker has nothing to do for it any more. -/
theorem fulfilled_iff (h : c.Sound o) : c.bridge.promise.fulfilled = true ↔ c.left = 0 := by
  rw [h.bridge.ended, h.offers, h.copies]
  cases hstage : c.stage with
  | pending => simp [left_of_pending hstage, Stage.delivered, Stage.copies]
  | leaving result =>
    cases result <;> simp [left, hstage, Stage.delivered, Stage.copies, Stage.isPending, Stage.rest]
  | _ => simp [left, hstage, Stage.delivered, Stage.copies, Stage.isPending, Stage.rest]

/-- Once the promise has ended, the setup has delivered its result. -/
theorem result?_of_left (hrefused : c.isRefused = false) (hleft : c.left = 0) :
    c.stage.result? = some c.stage.delivered.head? := by
  cases hstage : c.stage with
  | refused x => simp [isRefused, hstage] at hrefused
  | pending => simp [left_of_pending hstage] at hleft
  | reporting outcome => simp [left, hstage, Stage.isPending, Stage.rest] at hleft
  | leaving result =>
    cases result with
    | none => simp [left, hstage, Stage.isPending, Stage.rest] at hleft
    | some outcome => rfl
  | finished result => cases result <;> rfl

/-- A call has been refused, or it waits, or it has returned what became of the setup. -/
theorem returned_cases (h : c.Sound o) :
    (c.isRefused = true ∧ c.returned? = some (.error (.executor .shutdown))) ∨
    (c.isRefused = false ∧ c.bridge.receiver.waits = true ∧ c.returned? = none) ∨
    (c.isRefused = false ∧ c.bridge.receiver = .served ∧ ∃ result, c.stage.result? = some result ∧
      c.returned? = some (result.getD (.error .cancelled))) := by
  cases hrefused : c.isRefused with
  | true =>
    refine Or.inl ⟨rfl, ?_⟩
    unfold isRefused at hrefused
    split at hrefused
    · next x hstage =>
      obtain ⟨rfl, _⟩ := h.refused x hstage
      rw [returned?, hstage]
    · cases hrefused
  | false =>
    have hreturned : c.returned? = c.bridge.received.head?.map received := by
      unfold returned?
      split
      · next hstage => simp [isRefused, hstage] at hrefused
      · rfl
    rcases h.bridge.settled.answered with ⟨hwaits, hnone⟩ | ⟨hserved, hended, hone⟩
    · exact Or.inr (Or.inl ⟨rfl, hwaits, by rw [hreturned, hnone]; rfl⟩)
    · have hresult := result?_of_left hrefused (h.fulfilled_iff.1 hended)
      refine Or.inr (Or.inr ⟨rfl, hserved, _, hresult, ?_⟩)
      rw [hreturned, hone, h.offers]
      cases c.stage.delivered.head? <;> rfl

/-- There is a worker for the subscription just if the call has returned it. -/
theorem subscription_iff (h : c.Sound o) {r : Except SubscribeError Nat}
    (hr : c.returned? = some r) : c.subscription.isSome = true ↔ ∃ i, r = .ok i := by
  rw [h.subscription]
  rcases h.returned_cases with ⟨hrefused, hreturned⟩ | ⟨_, _, hnone⟩ |
    ⟨_, _, result, hresult, hreturned⟩
  · rw [hr] at hreturned
    cases hreturned
    unfold isRefused at hrefused
    split at hrefused
    · next hstage => simp [hstage, Stage.result?]
    · cases hrefused
  · rw [hr] at hnone
    cases hnone
  · rw [hr] at hreturned
    cases hreturned
    rw [hresult]
    cases result <;> simp

/-- What a call has returned stands. -/
theorem returned?_step (h : c.Sound o) (hs : Step o c e d) {r : Except SubscribeError Nat}
    (hr : c.returned? = some r) : d.returned? = some r := by
  have hrefused := hs.isRefused_eq
  rcases h.returned_cases with ⟨hc, hreturned⟩ | ⟨_, _, hnone⟩ |
    ⟨hc, hserved, result, hresult, hreturned⟩
  · rcases (h.step hs).returned_cases with ⟨_, hd⟩ | ⟨hd, _⟩ | ⟨hd, _⟩
    · rw [hd, ← hr, hreturned]
    · simp [hc, hd] at hrefused
    · simp [hc, hd] at hrefused
  · rw [hnone] at hr
    cases hr
  · rcases (h.step hs).returned_cases with ⟨hd, _⟩ | ⟨_, hd, _⟩ | ⟨_, _, made, hmade, hd⟩
    · simp [hc, hd] at hrefused
    · rw [hs.receiver_eq hserved] at hd
      cases hd
    · rw [hs.result?_eq hresult] at hmade
      cases hmade
      rw [hd, ← hr, hreturned]

theorem returned?_run? {r : Except SubscribeError Nat} (h : c.Sound o)
    (hrun : c.run? o es = some d) (hr : c.returned? = some r) : d.returned? = some r := by
  have hstep : ∀ (c : Call σ τ) e d, Sound o c ∧ c.returned? = some r → Step o c e d →
      Sound o d ∧ d.returned? = some r :=
    fun _ _ _ hc hs => ⟨hc.1.step hs, hc.1.returned?_step hs hc.2⟩
  exact (run?_preserves hstep ⟨h, hr⟩ hrun).2

end Sound

theorem isRefused_create (e : Executor (Job τ)) (s : σ) : (create e s).isRefused = !e.isOpen := by
  cases hopen : e.isOpen with
  | true => rw [create_of_isOpen hopen]; rfl
  | false => rw [create_of_isOpen_eq_false hopen]; rfl

theorem isRefused_run? (hrun : c.run? o es = some d) : d.isRefused = c.isRefused :=
  run?_preserves (P := fun d => d.isRefused = c.isRefused)
    (fun _ _ _ hc hs => hs.isRefused_eq.trans hc) rfl hrun

end Call
end Setup
end TickingTable
