import TickingTable.Proofs.Client.Crowd

/-! Which subscriptions a shutdown of the client ends while other threads subscribe. -/

namespace TickingTable
namespace Client

variable {c d : Client} {i : Nat} {is js : List Nat}

/-- A subscription has been cancelled or its worker has finished. -/
def IsOver (c : Client) (i : Nat) : Prop := c.isCancelled i = true ∨ c.isFinished i = true

/-- Those of the subscriptions whose workers have not finished. -/
def unfinished (c : Client) (is : List Nat) : List Nat := is.filter fun i => !c.isFinished i

theorem mem_unfinished : i ∈ c.unfinished is ↔ i ∈ is ∧ c.isFinished i = false := by
  simp [unfinished]

theorem numSubscriptions_eq (c : Client) :
    c.numSubscriptions.1 = (c.unfinished c.tracked).length := by
  rw [numSubscriptions, tracked_prune]
  rfl

theorem Later.isOver (h : c.Later d) (hsome : (c.subscription? i).isSome = true)
    (hi : c.IsOver i) : d.IsOver i :=
  hi.imp h.isCancelled (h.isFinished hsome)

/-- What has finished stays out. -/
theorem Later.unfinished_unfinished (h : c.Later d)
    (hsome : ∀ i ∈ is, (c.subscription? i).isSome = true) :
    d.unfinished (c.unfinished is) = d.unfinished is := by
  rw [unfinished, unfinished, unfinished, List.filter_filter]
  refine List.filter_congr ?_
  intro i hi
  cases hfinished : c.isFinished i with
  | false => simp
  | true => simp [h.isFinished (hsome i hi) hfinished]

theorem Later.unfinished_eq (h : c.Later d) (his : ∀ i ∈ is, (c.subscription? i).isSome = true)
    (hjs : ∀ j ∈ js, (c.subscription? j).isSome = true) (hsame : c.unfinished is = c.unfinished js) :
    d.unfinished is = d.unfinished js := by
  rw [← h.unfinished_unfinished his, hsame, h.unfinished_unfinished hjs]

theorem connect_eq_ok {config : ClientConfig} {transport : Transport}
    (h : connect config transport = .ok c) : c.subscribers = [] ∧ c.tracked = [] := by
  unfold connect at h
  split at h
  · cases h
  · split at h
    · cases h
    · cases h
      exact ⟨rfl, rfl⟩

theorem later_setUp (c : Client) (link : Transport.Link) (schema : Schema)
    (request : SubscriptionRequest) (callbacks : Callbacks) :
    c.Later (c.setUp link schema request callbacks).2 ∧
      (c.setUp link schema request callbacks).2.tracked = c.tracked ∧
      ∀ i, (c.setUp link schema request callbacks).1 = some (.ok i) →
        ((c.setUp link schema request callbacks).2.subscription? i).isSome = true := by
  obtain ⟨hlater, htracked, hsome⟩ :=
    c.later_subscribeWith link c.executor schema request callbacks
  refine ⟨hlater.trans (.of_subscribers_eq rfl (Nat.le_refl _)), htracked, hsome⟩

theorem later_close (c : Client) : c.Later c.close := .of_subscribers_eq rfl (Nat.le_refl _)

end Client

namespace Crowd

variable {c d : Crowd} {e : Event} {i : Nat}

/-- The subscriptions that the shutdown will cancel unless they finish before. -/
def claimed (c : Crowd) : List Nat :=
  match c.shutdown with
  | .ahead => c.client.tracked
  | .cancelling rest => rest
  | .done => []

/-- Whatever was returned is over or will be cancelled, unless it came late, and then the client
tracks it until it has finished. -/
structure Sound (c : Crowd) : Prop where
  client : c.client.Sound
  known : ∀ i, i ∈ c.fresh ∨ i ∈ c.returned → (c.client.subscription? i).isSome = true
  listed : ∀ i, i ∈ c.client.tracked ∨ i ∈ c.claimed ∨ i ∈ c.late → i ∈ c.returned
  covered : ∀ i ∈ c.returned, i ∈ c.late ∨ i ∈ c.claimed ∨ c.client.IsOver i
  early : c.shutdown = .ahead → c.late = []
  left : c.shutdown ≠ .ahead →
    c.client.unfinished c.client.tracked = c.client.unfinished c.late

namespace Sound

/-- Steps of workers and of threads that cancel keep all this. -/
theorem of_later (hs : c.Sound) {d : Client} (h : c.client.Later d)
    (ht : d.tracked = c.client.tracked) : { c with client := d }.Sound := by
  have hclaimed : claimed { c with client := d } = c.claimed := by
    simp only [claimed, ht]
  have hknown : ∀ i ∈ c.returned, (c.client.subscription? i).isSome = true := fun i hi =>
    hs.known i (Or.inr hi)
  refine ⟨h.sound hs.client, fun i hi => h.isSome (hs.known i hi), ?_, ?_, hs.early, ?_⟩
  · intro i hi
    rw [hclaimed, ht] at hi
    exact hs.listed i hi
  · intro i hi
    rw [hclaimed]
    exact (hs.covered i hi).imp_right (Or.imp_right (h.isOver (hknown i hi)))
  · intro hphase
    refine ht ▸ h.unfinished_eq ?_ ?_ (hs.left hphase)
    · exact fun i hi => hknown i (hs.listed i (Or.inl hi))
    · exact fun i hi => hknown i (hs.listed i (Or.inr (Or.inr hi)))

theorem setUp (hs : c.Sound) (link : Transport.Link) (schema : Schema)
    (request : SubscriptionRequest) (callbacks : Callbacks) :
    (c.setUp link schema request callbacks).Sound := by
  obtain ⟨hlater, htracked, hsome⟩ := c.client.later_setUp link schema request callbacks
  have hnext := hs.of_later hlater htracked
  unfold Crowd.setUp
  generalize c.client.setUp link schema request callbacks = outcome at hsome hnext ⊢
  obtain ⟨result, client⟩ := outcome
  rcases result with _ | e | i
  · exact hnext
  · exact hnext
  · refine ⟨hnext.client, ?_, hnext.listed, hnext.covered, hnext.early, hnext.left⟩
    rintro j (hj | hj)
    · rcases List.mem_cons.1 hj with rfl | hj
      · exact hsome j rfl
      · exact hnext.known j (Or.inl hj)
    · exact hnext.known j (Or.inr hj)

theorem known_track (hs : c.Sound) (hi : i ∈ c.fresh) :
    ∀ j, j ∈ c.fresh ∨ j ∈ i :: c.returned → (c.client.subscription? j).isSome = true := by
  rintro j (hj | hj)
  · exact hs.known j (Or.inl hj)
  · rcases List.mem_cons.1 hj with rfl | hj
    · exact hs.known j (Or.inl hi)
    · exact hs.known j (Or.inr hj)

theorem mem_of_unfinished (hs : c.Sound) {j : Nat}
    (hj : j ∈ c.client.unfinished (i :: c.client.tracked)) : j ∈ i :: c.returned := by
  rcases List.mem_cons.1 (Client.mem_unfinished.1 hj).1 with rfl | hj
  · exact List.mem_cons_self
  · exact List.mem_cons_of_mem _ (hs.listed j (Or.inl hj))

/-- The shutdown will take what is tracked before it begins. -/
theorem track_ahead (hs : c.Sound) (hi : i ∈ c.fresh) (hphase : c.shutdown = .ahead) :
    (c.track i).Sound := by
  have hlater := c.client.later_track i
  have hknown := hs.known_track hi
  have htracked : (c.track i).client.tracked = c.client.unfinished (i :: c.client.tracked) :=
    c.client.tracked_track i
  have hclaimed : (c.track i).claimed = c.client.unfinished (i :: c.client.tracked) := by
    simp [claimed, Crowd.track, hphase, Client.tracked_track, Client.unfinished]
  have hlate : (c.track i).late = [] := by simp [Crowd.track, hphase, hs.early hphase]
  refine ⟨hlater.sound hs.client, ?_, ?_, ?_, fun _ => hlate, fun hnot => absurd hphase hnot⟩
  · intro j hj
    exact hlater.isSome (hknown j (hj.imp_left List.mem_of_mem_erase))
  · rw [htracked, hclaimed, hlate]
    rintro j (hj | hj | hj)
    · exact hs.mem_of_unfinished hj
    · exact hs.mem_of_unfinished hj
    · cases hj
  · intro j hj
    have hbefore : j ∈ i :: c.client.tracked ∨ c.client.IsOver j := by
      rcases List.mem_cons.1 hj with rfl | hj
      · exact Or.inl List.mem_cons_self
      · have hcovered := hs.covered j hj
        simp only [hs.early hphase, claimed, hphase, List.not_mem_nil, false_or] at hcovered
        exact hcovered.imp_left (List.mem_cons_of_mem i)
    have hover := hlater.isOver (i := j) (hknown j (Or.inr hj))
    rw [hclaimed, Client.mem_unfinished]
    cases hfinished : c.client.isFinished j with
    | true => exact Or.inr (Or.inr (hover (Or.inr hfinished)))
    | false => exact Or.inr (hbefore.imp (fun hmem => ⟨hmem, rfl⟩) hover)

/-- The client goes on to track what comes late. -/
theorem track_late (hs : c.Sound) (hi : i ∈ c.fresh) (hphase : c.shutdown ≠ .ahead) :
    (c.track i).Sound := by
  have hlater := c.client.later_track i
  have hknown := hs.known_track hi
  have htracked : (c.track i).client.tracked = c.client.unfinished (i :: c.client.tracked) :=
    c.client.tracked_track i
  have hclaimed : (c.track i).claimed = c.claimed := by
    unfold claimed Crowd.track
    cases hp : c.shutdown with
    | ahead => exact absurd hp hphase
    | cancelling rest => rfl
    | done => rfl
  have hlate : (c.track i).late = i :: c.late := by simp [Crowd.track, hphase]
  refine ⟨hlater.sound hs.client, ?_, ?_, ?_, fun hp => absurd hp hphase, fun _ => ?_⟩
  · intro j hj
    exact hlater.isSome (hknown j (hj.imp_left List.mem_of_mem_erase))
  · rw [htracked, hclaimed, hlate]
    rintro j (hj | hj | hj)
    · exact hs.mem_of_unfinished hj
    · exact List.mem_cons_of_mem _ (hs.listed j (Or.inr (Or.inl hj)))
    · rcases List.mem_cons.1 hj with rfl | hj
      · exact List.mem_cons_self
      · exact List.mem_cons_of_mem _ (hs.listed j (Or.inr (Or.inr hj)))
  · intro j hj
    rw [hclaimed, hlate]
    rcases List.mem_cons.1 hj with rfl | hj
    · exact Or.inl List.mem_cons_self
    · refine (hs.covered j hj).imp (List.mem_cons_of_mem _) (Or.imp_right ?_)
      exact hlater.isOver (hknown j (Or.inr (List.mem_cons_of_mem _ hj)))
  · have hsame : c.client.unfinished (i :: c.client.tracked) = c.client.unfinished (i :: c.late) := by
      have hleft := hs.left hphase
      unfold Client.unfinished at hleft ⊢
      rw [List.filter_cons, List.filter_cons, hleft]
    rw [htracked, hlate, hsame]
    refine hlater.unfinished_unfinished ?_
    intro j hj
    rcases List.mem_cons.1 hj with rfl | hj
    · exact hknown j (Or.inr List.mem_cons_self)
    · exact hs.known j (Or.inr (hs.listed j (Or.inr (Or.inr hj))))

/-- The shutdown lets go of a subscription that is over. -/
theorem of_shutdown (hs : c.Sound) (phase : Client.Shutdown) (hbefore : c.shutdown ≠ .ahead)
    (hafter : phase ≠ .ahead) (hfewer : ∀ i ∈ claimed { c with shutdown := phase }, i ∈ c.claimed)
    (hover : ∀ i ∈ c.claimed, i ∈ claimed { c with shutdown := phase } ∨ c.client.IsOver i) :
    { c with shutdown := phase }.Sound := by
  refine ⟨hs.client, hs.known, ?_, ?_, fun hp => absurd hp hafter, fun _ => hs.left hbefore⟩
  · intro j hj
    exact hs.listed j (hj.imp_right (Or.imp_left (hfewer j)))
  · intro j hj
    rcases hs.covered j hj with hlate | hclaimed | hj
    · exact Or.inl hlate
    · exact Or.inr (hover j hclaimed)
    · exact Or.inr (Or.inr hj)

theorem take (hs : c.Sound) (hphase : c.shutdown = .ahead) :
    { c with
      client := c.client.takeTracked.2
      shutdown := .cancelling c.client.tracked : Crowd }.Sound := by
  have hlater : c.client.Later c.client.takeTracked.2 := .of_subscribers_eq rfl (Nat.le_refl _)
  have hclaimed : c.claimed = c.client.tracked := by rw [claimed, hphase]
  refine ⟨hlater.sound hs.client, hs.known, ?_, ?_, nofun, fun _ => ?_⟩
  · rintro j (hj | hj | hj)
    · cases hj
    · exact hs.listed j (Or.inl hj)
    · exact hs.listed j (Or.inr (Or.inr hj))
  · intro j hj
    exact hclaimed ▸ hs.covered j hj
  · have hlate := hs.early hphase
    simp [hlate, Client.takeTracked]

theorem step (hs : c.Sound) (h : Step c e d) : d.Sound := by
  cases h with
  | setUp link schema request callbacks => exact hs.setUp link schema request callbacks
  | track i hi =>
    by_cases hphase : c.shutdown = .ahead
    · exact hs.track_ahead hi hphase
    · exact hs.track_late hi hphase
  | take hphase => exact hs.take hphase
  | cancel i rest hphase =>
    have hclaimed : c.claimed = i :: rest := by rw [claimed, hphase]
    have hsome : (c.client.subscription? i).isSome = true := by
      refine hs.known i (Or.inr (hs.listed i (Or.inr (Or.inl ?_))))
      exact hclaimed ▸ List.mem_cons_self
    have hnext := hs.of_later (c.client.later_cancel i) (c.client.tracked_cancel i)
    have hnextClaimed : claimed { c with client := c.client.cancel i } = i :: rest := by
      rw [claimed, hphase]
    refine hnext.of_shutdown (.cancelling rest) (by simp [hphase]) nofun ?_ ?_
    · intro j hj
      exact hnextClaimed ▸ List.mem_cons_of_mem i hj
    · intro j hj
      rcases List.mem_cons.1 (hnextClaimed ▸ hj) with rfl | hj
      · exact Or.inr (Or.inl (Client.isCancelled_cancel hs.client hsome))
      · exact Or.inl hj
  | close hphase =>
    have hnext := hs.of_later c.client.later_close rfl
    have hnextClaimed : claimed { c with client := c.client.close } = [] := by
      rw [claimed, hphase]
    refine hnext.of_shutdown .done (by simp [hphase]) nofun nofun ?_
    intro j hj
    rw [hnextClaimed] at hj
    cases hj
  | serve i f => exact hs.of_later (c.client.later_serve i f) (c.client.tracked_serve i f)

theorem start {config : ClientConfig} {transport : Transport} {client : Client}
    (h : Client.connect config transport = .ok client) : (start client).Sound := by
  obtain ⟨hsubscribers, htracked⟩ := Client.connect_eq_ok h
  have hnone (i : Nat) : client.subscription? i = none := by
    rw [Client.subscription?, hsubscribers]
    rfl
  have hclient : client.Sound := by
    constructor <;> simp [hnone]
  refine ⟨hclient, ?_, ?_, ?_, fun _ => rfl, fun hnot => absurd rfl hnot⟩
  · simp [Crowd.start]
  · simp [Crowd.start, claimed, htracked]
  · simp [Crowd.start]

end Sound

/-- Whatever steps the calls that subscribe and the shutdown take, in whatever order: once the
shutdown has returned every subscription that a call has returned is over, save those that came
late. These still count, each until its worker finishes, and so the shutdown leaves nothing running
just if the workers of all of them have finished. -/
theorem shutdown_ends (config : ClientConfig) (transport : Transport) (client : Client)
    (hconnect : Client.connect config transport = .ok client) (es : List Event) (c : Crowd)
    (hrun : (start client).run? es = some c) (hdone : c.shutdown = .done) :
    (∀ i ∈ c.returned, i ∈ c.late ∨ c.client.IsOver i) ∧
      c.client.numSubscriptions.1 = (c.client.unfinished c.late).length ∧
      ((∀ i ∈ c.returned, c.client.IsOver i) ∧ c.client.numSubscriptions.1 = 0 ↔
        ∀ i ∈ c.late, c.client.isFinished i = true) := by
  have hs : c.Sound := run?_preserves (fun _ _ _ => Sound.step) (.start hconnect) hrun
  have hcovered : ∀ i ∈ c.returned, i ∈ c.late ∨ c.client.IsOver i := by
    intro i hi
    have hi := hs.covered i hi
    simpa [claimed, hdone] using hi
  have hcount : c.client.numSubscriptions.1 = (c.client.unfinished c.late).length := by
    rw [Client.numSubscriptions_eq, hs.left (by simp [hdone])]
  refine ⟨hcovered, hcount, ?_⟩
  rw [hcount, List.length_eq_zero_iff, Client.unfinished, List.filter_eq_nil_iff]
  constructor
  · rintro ⟨_, hnone⟩ i hi
    simpa using hnone i hi
  · intro hlate
    refine ⟨fun i hi => ?_, fun i hi => by simp [hlate i hi]⟩
    exact (hcovered i hi).elim (fun hi => Or.inr (hlate i hi)) id

/-- The call of a subscriber that lets all ticks pass. -/
def subscribing : Event :=
  .setUp Transport.link Decoder.oneColumn ⟨⟨[1]⟩, {}⟩ ⟨fun _ => ⟨0, .returned⟩, .returned⟩

/-- The client of the default configuration. -/
def idleClient : Client := ⟨{}, .create, .create "barrage-flight-executor", [], [], []⟩

theorem connect_idleClient : Client.connect {} .create = .ok idleClient := by
  rfl

/-- One subscription is tracked before the shutdown begins, and another while it goes on. -/
def overlapping : List Event :=
  [subscribing, .track 0, subscribing, .shutDown, .track 1, .shutDown, .shutDown]

theorem shutdown_ends_overlapping :
    ∃ c, (start idleClient).run? overlapping = some c ∧ c.shutdown = .done ∧
      c.returned = [1, 0] ∧ c.late = [1] ∧ c.client.IsOver 0 ∧
      c.client.numSubscriptions.1 = 1 := by
  obtain ⟨c, hrun, hdone, hreturned, hlate, hrunning⟩ : ∃ c,
      (start idleClient).run? overlapping = some c ∧ c.shutdown = .done ∧ c.returned = [1, 0] ∧
        c.late = [1] ∧ c.client.isFinished 1 = false := by
    refine ⟨_, rfl, ?_⟩
    decide
  obtain ⟨hcovered, hcount, _⟩ :=
    shutdown_ends {} .create idleClient connect_idleClient overlapping c hrun hdone
  refine ⟨c, hrun, hdone, hreturned, hlate, ?_, ?_⟩
  · have hzero := hcovered 0 (by simp [hreturned])
    rw [hlate] at hzero
    exact hzero.resolve_left (by decide)
  · rw [hcount, hlate]
    simp [Client.unfinished, hrunning]

/-- A setup that ends before the shutdown has begun, and a subscription that is tracked after it has
taken what it cancels: it runs on. -/
theorem shutdown_leaves_running :
    ∃ c, (start idleClient).run? [subscribing, .shutDown, .shutDown, .track 0] = some c ∧
      c.shutdown = .done ∧ c.fresh = [] ∧ c.returned = [0] ∧
      c.client.isCancelled 0 = false ∧ c.client.isFinished 0 = false ∧
      c.client.numSubscriptions.1 = 1 := by
  refine ⟨_, rfl, ?_⟩
  decide

end Crowd
end TickingTable
