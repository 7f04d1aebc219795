import TickingTable.Proofs.Client.Shutdown

/-! The calls of one thread that uses a client, with all that happens between them. -/

namespace TickingTable

namespace Executor

variable {τ : Type}

/-- An executor that has been shut down while it had nothing to do. -/
def halted (name : String) : Executor τ := ⟨name, false, [], .exited, ⟨false, []⟩⟩

theorem shutdown_create (name : String) (body : τ → List (Event τ)) :
    ((create name).shutdown body).1 = halted name := rfl

theorem shutdown_halted (name : String) (body : τ → List (Event τ)) :
    ((halted name).shutdown body).1 = halted name := rfl

end Executor

namespace Setup

/-- Over the link of the transport itself, a setup that does not succeed leaves everything as it
is. -/
theorem run_transport (headers : List (String × String)) (request : SubscriptionRequest)
    (t : Transport) :
    (run Transport.link.toConnection headers request t).1 = some (.ok t.exchanges.length) ∨
    run Transport.link.toConnection headers request t =
      (some (.error (.setup .notAccepting)), t) := by
  unfold run
  cases hserver : t.hasServer with
  | false => simp [Transport.link, Transport.connection, Transport.openExchange, hserver]
  | true =>
    simp [Transport.link, Transport.connection, Transport.openExchange, hserver, Transport.write,
      Transport.exchange?, Exchange.create, Exchange.write]

end Setup

namespace Client

open Executor

variable {c d : Client} {i : Nat} {is : List Nat}

/-- The calls that use a client, which come one after the other, and all that happens between
them. -/
inductive Operation where
  | subscribe (link : Transport.Link) (schema : Schema) (ticket : Ticket)
      (options : Option SubscriptionOptions) (callbacks : Callbacks)
  | unsubscribe (i : Nat)
  | count
  | shutdown
  /-- A subscription by means of some executor, which the client does not track. -/
  | subscribeAside (link : Transport.Link) (executor : Executor SubscriptionRequest)
      (schema : Schema) (request : SubscriptionRequest) (callbacks : Callbacks)
  | cancel (i : Nat)
  | dropHandle (i : Nat)
  /-- The worker of a subscription takes a step, unless it has to wait. -/
  | work (i : Nat)
  /-- The server acts on an exchange. -/
  | act (i : Nat) (f : Exchange → Exchange)
  | accept
  | dropServer

/-- What a call comes back with. -/
inductive Outcome where
  | subscribed (result : Option (Except SubscribeError Nat))
  | counted (n : Nat)
  | done

def perform (c : Client) : Operation → Outcome × Client
  | .subscribe link schema ticket options callbacks =>
    let (result, c) := c.subscribe link schema ticket options callbacks
    (.subscribed result, c)
  | .unsubscribe i => (.done, c.unsubscribe i)
  | .count =>
    let (n, c) := c.numSubscriptions
    (.counted n, c)
  | .shutdown => (.done, c.shutdown)
  | .subscribeAside link executor schema request callbacks =>
    (.done, (c.subscribeWith link executor schema request callbacks).2.2)
  | .cancel i => (.done, c.cancel i)
  | .dropHandle i => (.done, c.dropHandle i)
  | .work i => (.done, c.withSession i fun s => s.advance?.getD s)
  | .act i f => (.done, { c with transport := c.transport.modify i f })
  | .accept =>
    (.done, { c with transport := (c.transport.accept?.map Prod.snd).getD c.transport })
  | .dropServer => (.done, { c with transport := c.transport.dropServer })

/-- The client after some operations. -/
def after (c : Client) (ops : List Operation) : Client := ops.foldl (fun c op => (c.perform op).2) c

abbrev Log := List (Operation × Outcome)

/-- The operations, each with what it came back with. -/
def log : Client → List Operation → Log
  | _, [] => []
  | c, op :: ops => (op, (c.perform op).1) :: log (c.perform op).2 ops

/-- What an entry of the log makes of the subscriptions that stand. -/
def stand (standing : List Nat) : Operation × Outcome → List Nat
  | (.subscribe _ _ _ _ _, .subscribed (some (.ok i))) => i :: standing
  | (.unsubscribe i, _) => standing.filter (· ≠ i)
  | (.shutdown, _) => []
  | _ => standing

/-- The subscriptions that have been returned by a subscribe, and then neither unsubscribed nor
taken by a shutdown. -/
def standing (log : Log) : List Nat := log.foldl stand []

/-- The subscriptions that have been returned by a subscribe. -/
def returned (log : Log) : List Nat :=
  log.filterMap fun entry =>
    match entry with
    | (.subscribe _ _ _ _ _, .subscribed (some (.ok i))) => some i
    | _ => none

@[simp] theorem after_nil (c : Client) : c.after [] = c := rfl

@[simp] theorem after_append (c : Client) (ops more : List Operation) :
    c.after (ops ++ more) = (c.after ops).after more := List.foldl_append

theorem log_append (c : Client) (ops more : List Operation) :
    c.log (ops ++ more) = c.log ops ++ (c.after ops).log more := by
  induction ops generalizing c with
  | nil => rfl
  | cons op ops ih => exact congrArg _ (ih (c.perform op).2)

@[simp] theorem standing_append (l more : Log) :
    standing (l ++ more) = more.foldl stand (standing l) := List.foldl_append

@[simp] theorem returned_append (l more : Log) :
    returned (l ++ more) = returned l ++ returned more := List.filterMap_append

/-- Only a subscribe makes a subscription stand. -/
theorem mem_stand {entry : Operation × Outcome} (h : i ∈ stand is entry) :
    i ∈ is ∨ i ∈ returned [entry] := by
  unfold stand at h
  split at h
  · simpa [returned, or_comm] using h
  · exact Or.inl (List.mem_of_mem_filter h)
  · cases h
  · exact Or.inl h

/-- The executor of a client that no other thread uses. -/
inductive Rests (c : Client) : Prop
  | opened (name : String) : c.executor = .create name → Rests c
  | closed (name : String) : c.executor = .halted name → Rests c

/-- What the setup of a subscription comes to. One that fails changes at most the transport, and over
the link of the transport itself not even that. -/
theorem setUp_cases (h : c.Rests) (link : Transport.Link) (schema : Schema)
    (request : SubscriptionRequest) (callbacks : Callbacks) :
    (c.executor.isOpen = true ∧
      (c.setUp link schema request callbacks).1 = some (.ok c.transport.exchanges.length) ∧
      (c.setUp link schema request callbacks).2.Rests) ∨
    (c.executor.isOpen = true ∧ ∃ e t,
      c.setUp link schema request callbacks = (some (.error e), { c with transport := t }) ∧
        (link = Transport.link → t = c.transport)) ∨
    (c.executor.isOpen = false ∧
      c.setUp link schema request callbacks = (some (.error (.executor .shutdown)), c)) := by
  cases h with
  | opened name hname =>
    obtain ⟨config, transport, executor, subscribers, tracked, held⟩ := c
    obtain rfl : executor = .create name := hname
    have hstart : Setup.start link.toConnection (.create name) config.headers request transport =
        (Setup.awaited (Setup.run link.toConnection config.headers request transport).1,
          .create name,
          (Setup.run link.toConnection config.headers request transport).2) := rfl
    have hrun := Setup.run_link link config.headers request transport
    have hown : link = Transport.link → Setup.run link.toConnection config.headers request transport =
        (some (.error (.setup .notAccepting)), transport) ∨
        (Setup.run link.toConnection config.headers request transport).1 =
          some (.ok transport.exchanges.length) := by
      rintro rfl
      exact (Setup.run_transport config.headers request transport).symm
    simp only [setUp, subscribeWith, hstart, Setup.awaited_eq]
    generalize Setup.run link.toConnection config.headers request transport = outcome at hrun hown ⊢
    obtain ⟨result, t⟩ := outcome
    rcases hrun with ⟨hok, _⟩ | ⟨hnot, _⟩
    · obtain rfl : result = some (.ok transport.exchanges.length) := hok
      exact Or.inl ⟨rfl, rfl, .opened name rfl⟩
    · have hkept (hlink : link = Transport.link) : t = transport :=
        congrArg Prod.snd ((hown hlink).resolve_right (hnot _))
      rcases result with _ | e | i
      · exact Or.inr (Or.inl ⟨rfl, _, t, rfl, hkept⟩)
      · exact Or.inr (Or.inl ⟨rfl, e, t, rfl, hkept⟩)
      · exact absurd rfl (hnot i)
  | closed name hname =>
    obtain ⟨config, transport, executor, subscribers, tracked, held⟩ := c
    obtain rfl : executor = .halted name := hname
    exact Or.inr (Or.inr ⟨rfl, rfl⟩)

theorem rests_of_connect {config : ClientConfig} {transport : Transport}
    (h : connect config transport = .ok c) : c.Rests := by
  unfold connect at h
  split at h
  · cases h
  · unfold Executor.spawn at h
    split at h
    · cases h
    · next executor hspawn =>
      split at hspawn
      · cases hspawn
      · cases hspawn
        cases h
        exact .opened _ rfl

@[simp] theorem executor_withSession (c : Client) (i : Nat) (f : Session → Session) :
    (c.withSession i f).executor = c.executor := by
  unfold withSession
  split <;> rfl

@[simp] theorem executor_cancel (c : Client) (i : Nat) : (c.cancel i).executor = c.executor :=
  executor_withSession c i _

@[simp] theorem executor_dropUnreferenced (c : Client) (i : Nat) :
    (c.dropUnreferenced i).executor = c.executor := by
  unfold dropUnreferenced
  split
  · rfl
  · exact executor_cancel c i

theorem executor_foldl {f : Client → Nat → Client} (hf : ∀ c i, (f c i).executor = c.executor)
    (is : List Nat) (c : Client) : (is.foldl f c).executor = c.executor := by
  induction is generalizing c with
  | nil => rfl
  | cons i is ih => rw [List.foldl_cons, ih, hf]

@[simp] theorem executor_prune (c : Client) : c.prune.executor = c.executor :=
  executor_foldl executor_dropUnreferenced _ _

@[simp] theorem executor_track (c : Client) (i : Nat) : (c.track i).executor = c.executor :=
  executor_prune _

@[simp] theorem executor_subscribeWith (c : Client) (link : Transport.Link)
    (executor : Executor SubscriptionRequest) (schema : Schema) (request : SubscriptionRequest)
    (callbacks : Callbacks) :
    (c.subscribeWith link executor schema request callbacks).2.2.executor = c.executor := by
  unfold subscribeWith
  dsimp only
  split <;> rfl

theorem Rests.of_executor_eq (h : c.Rests) (he : d.executor = c.executor) : d.Rests := by
  cases h with
  | opened name hname => exact .opened name (he.trans hname)
  | closed name hname => exact .closed name (he.trans hname)

theorem Rests.shutdown (h : c.Rests) :
    c.shutdown.Rests ∧ c.shutdown.executor.isOpen = false := by
  have hsame := executor_foldl executor_cancel c.tracked { c with tracked := [] }
  have hhalted : ∃ name, c.shutdown.executor = .halted name := by
    unfold Client.shutdown takeTracked
    dsimp only
    rw [hsame]
    cases h with
    | opened name hname => exact ⟨name, by rw [hname, shutdown_create]⟩
    | closed name hname => exact ⟨name, by rw [hname, shutdown_halted]⟩
  obtain ⟨name, hname⟩ := hhalted
  exact ⟨.closed name hname, by rw [hname]; rfl⟩

/-- A client goes on resting, and one that is shut down stays so. -/
theorem Rests.perform (h : c.Rests) (op : Operation) :
    (c.perform op).2.Rests ∧
      (op = .shutdown ∨ c.executor.isOpen = false →
        (c.perform op).2.executor.isOpen = false) := by
  have hunchanged : ∀ d : Client, op ≠ .shutdown → d.executor = c.executor →
      d.Rests ∧ (op = .shutdown ∨ c.executor.isOpen = false → d.executor.isOpen = false) :=
    fun d hop he => ⟨h.of_executor_eq he, fun hclosed => by rw [he]; exact hclosed.resolve_left hop⟩
  cases op with
  | subscribe link schema ticket options callbacks =>
    simp only [Client.perform, subscribe_eq]
    rcases setUp_cases h link schema ⟨ticket, options.getD c.config.subscription⟩ callbacks with
      ⟨hopen, hok, hrests⟩ | ⟨_, e, t, hfailed, _⟩ | ⟨_, hfailed⟩
    · generalize c.setUp _ _ _ _ = outcome at hok hrests ⊢
      obtain ⟨result, d⟩ := outcome
      obtain rfl := hok
      refine ⟨hrests.of_executor_eq (executor_track d _), ?_⟩
      rintro (hop | hclosed)
      · cases hop
      · rw [hopen] at hclosed
        cases hclosed
    · rw [hfailed]
      exact hunchanged { c with transport := t } nofun rfl
    · rw [hfailed]
      exact hunchanged c nofun rfl
  | shutdown => exact ⟨h.shutdown.1, fun _ => h.shutdown.2⟩
  | unsubscribe i => exact hunchanged _ nofun (executor_cancel _ i)
  | count => exact hunchanged _ nofun (executor_prune c)
  | subscribeAside link executor schema request callbacks =>
    exact hunchanged _ nofun (executor_subscribeWith c link executor schema request callbacks)
  | cancel i => exact hunchanged _ nofun (executor_cancel c i)
  | dropHandle i => exact hunchanged _ nofun (executor_dropUnreferenced _ i)
  | work i => exact hunchanged _ nofun (executor_withSession c i _)
  | act i f => exact hunchanged _ nofun rfl
  | accept => exact hunchanged _ nofun rfl
  | dropServer => exact hunchanged _ nofun rfl

theorem length_dropServer (t : Transport) :
    t.dropServer.exchanges.length = t.exchanges.length := by
  have hfold : ∀ (is : List Nat) (t : Transport),
      (is.foldl (fun t i => t.modify i Exchange.dropServer) t).exchanges.length =
        t.exchanges.length := by
    intro is
    induction is with
    | nil => exact fun t => rfl
    | cons i is ih => exact fun t => (ih _).trans (List.length_modify ..)
  exact hfold t.waiting t

/-- Every operation lets the subscriptions go on. -/
theorem later_perform (c : Client) (op : Operation) : c.Later (c.perform op).2 := by
  cases op with
  | subscribe link schema ticket options callbacks =>
    have hlater :=
      (c.later_setUp link schema ⟨ticket, options.getD c.config.subscription⟩ callbacks).1
    simp only [Client.perform, subscribe_eq]
    generalize c.setUp _ _ _ _ = outcome at hlater ⊢
    obtain ⟨result, d⟩ := outcome
    rcases result with _ | e | i
    · exact hlater
    · exact hlater
    · exact hlater.trans (later_track d i)
  | unsubscribe i =>
    have hforget : c.Later { c with tracked := c.tracked.filter (· ≠ i) } :=
      .of_subscribers_eq rfl (Nat.le_refl _)
    exact hforget.trans (later_cancel _ i)
  | count => exact later_prune c
  | shutdown =>
    have htaken : c.Later c.takeTracked.2 := .of_subscribers_eq rfl (Nat.le_refl _)
    exact (htaken.trans (.foldl later_cancel c.tracked _)).trans (later_close _)
  | subscribeAside link executor schema request callbacks =>
    exact (c.later_subscribeWith link executor schema request callbacks).1
  | cancel i => exact later_cancel c i
  | dropHandle i =>
    have hforget : c.Later { c with held := c.held.filter (· ≠ i) } :=
      .of_subscribers_eq rfl (Nat.le_refl _)
    exact hforget.trans (later_dropUnreferenced _ i)
  | work i =>
    refine later_withSession (fun s => ?_) c i
    cases h : s.advance? with
    | none => exact .refl _
    | some t => exact Session.reaches_advance? h
  | act i f => exact .of_subscribers_eq rfl (Nat.le_of_eq (List.length_modify ..).symm)
  | accept =>
    refine .of_subscribers_eq rfl (Nat.le_of_eq ?_)
    simp only [Client.perform, Transport.accept?]
    cases c.transport.waiting <;> rfl
  | dropServer => exact .of_subscribers_eq rfl (Nat.le_of_eq (length_dropServer c.transport).symm)

/-- Once a shutdown is among the operations nothing can be submitted any more. -/
theorem isOpen_after (h : c.Rests) {ops : List Operation}
    (hclosed : .shutdown ∈ ops ∨ c.executor.isOpen = false) :
    (c.after ops).executor.isOpen = false := by
  induction ops generalizing c with
  | nil => simpa using hclosed
  | cons op ops ih =>
    obtain ⟨hrests, hnext⟩ := h.perform op
    refine ih hrests ?_
    rcases hclosed with hmem | hclosed
    · rcases List.mem_cons.1 hmem with hop | hmem
      · exact Or.inr (hnext (Or.inl hop.symm))
      · exact Or.inl hmem
    · exact Or.inr (hnext (Or.inr hclosed))

/-- A subscribe returns a new subscription, or it fails and changes at most the transport, which it
leaves as well over the link of the transport itself. On a client that has been shut down it always
fails. -/
theorem subscribe_cases (h : c.Rests) (link : Transport.Link) (schema : Schema) (ticket : Ticket)
    (options : Option SubscriptionOptions) (callbacks : Callbacks) :
    ((∃ i, (c.subscribe link schema ticket options callbacks).1 = some (.ok i)) ∨
      ∃ e t, c.subscribe link schema ticket options callbacks =
        (some (.error e), { c with transport := t }) ∧ (link = Transport.link → t = c.transport)) ∧
    (c.executor.isOpen = false → c.subscribe link schema ticket options callbacks =
      (some (.error (.executor .shutdown)), c)) := by
  rw [subscribe_eq]
  rcases setUp_cases h link schema ⟨ticket, options.getD c.config.subscription⟩ callbacks with
    ⟨hopen, hok, _⟩ | ⟨hopen, e, t, hfailed, hkept⟩ | ⟨_, hfailed⟩
  · generalize c.setUp _ _ _ _ = outcome at hok ⊢
    obtain ⟨result, d⟩ := outcome
    obtain rfl := hok
    refine ⟨Or.inl ⟨_, rfl⟩, fun hclosed => ?_⟩
    rw [hopen] at hclosed
    cases hclosed
  · rw [hfailed]
    refine ⟨Or.inr ⟨e, t, rfl, hkept⟩, fun hclosed => ?_⟩
    rw [hopen] at hclosed
    cases hclosed
  · rw [hfailed]
    exact ⟨Or.inr ⟨_, c.transport, rfl, fun _ => rfl⟩, fun _ => rfl⟩

end Client
end TickingTable
