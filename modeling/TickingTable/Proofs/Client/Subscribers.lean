import TickingTable.Client
import TickingTable.Proofs.Subscription.Reaches

/-! What the operations of a client do to its subscriptions: each goes on from the state it is in,
and none is forgotten. -/

namespace TickingTable

namespace Setup

/-- A setup over a link opens the next exchange, which has the headers, or it does not succeed. In
either case it forgets nothing. -/
theorem run_link (link : Transport.Link) (headers : List (String × String))
    (request : SubscriptionRequest) (t : Transport) :
    let (result, u) := run link.toConnection headers request t
    result = some (.ok t.exchanges.length) ∧ u.headers = t.headers ++ [headers] ∨
      (∀ i, result ≠ some (.ok i)) ∧ t.headers <+: u.headers := by
  have hkept := link.kept t headers Wire.exchangeCommand
  unfold run
  rcases hopened : link.openExchange t headers Wire.exchangeCommand with ⟨outcome, u⟩
  rw [hopened] at hkept
  cases outcome with
  | panicked => exact Or.inr ⟨nofun, hkept⟩
  | failed e => exact Or.inr ⟨nofun, hkept⟩
  | returned i =>
    obtain ⟨rfl, hheaders⟩ := link.opened _ _ _ _ _ hopened
    have hsame := link.written u t.exchanges.length request.encode
    dsimp only
    rcases hwritten : link.write u t.exchanges.length request.encode with ⟨outcome, v⟩
    rw [hwritten] at hsame
    have hrest : t.headers <+: v.headers := by
      rw [hsame]
      exact hkept
    cases outcome with
    | panicked => exact Or.inr ⟨nofun, hrest⟩
    | failed e => exact Or.inr ⟨nofun, hrest⟩
    | returned _ => exact Or.inl ⟨rfl, hsame.trans hheaders⟩

theorem start_link (link : Transport.Link) (executor : Executor SubscriptionRequest)
    (headers : List (String × String)) (request : SubscriptionRequest) (t : Transport) :
    let (result, _, u) := start link.toConnection executor headers request t
    result = some (.ok t.exchanges.length) ∧ u.headers = t.headers ++ [headers] ∨
      (∃ e, result = some (.error e)) ∧ t.headers <+: u.headers := by
  unfold start
  cases executor.submit request with
  | error e => exact Or.inr ⟨⟨_, rfl⟩, List.prefix_refl _⟩
  | ok executor =>
    have hrun := run_link link headers request t
    generalize run link.toConnection headers request t = outcome at hrun ⊢
    obtain ⟨result, u⟩ := outcome
    simp only [awaited_eq]
    rcases hrun with ⟨hok, hheaders⟩ | ⟨hnot, hkept⟩
    · obtain rfl : result = some (.ok t.exchanges.length) := hok
      exact Or.inl ⟨rfl, hheaders⟩
    · refine Or.inr ⟨?_, hkept⟩
      rcases result with _ | e | i
      · exact ⟨_, rfl⟩
      · exact ⟨e, rfl⟩
      · exact absurd rfl (hnot i)

end Setup

namespace Client

variable {c d e : Client} {i j : Nat}

/-- The state of a subscription. -/
def subscription? (c : Client) (i : Nat) : Option Subscription :=
  (c.subscribers.lookup i).map fun s => s.subscription

/-- Whether a subscription has been cancelled. -/
def isCancelled (c : Client) (i : Nat) : Bool := (c.subscription? i).any fun s => s.cancelled

theorem isFinished_eq (c : Client) (i : Nat) :
    c.isFinished i = (c.subscription? i).all fun s => s.hasFinished := by
  simp [isFinished, subscription?, Option.all_map]

/-- Every subscription has an exchange, and only those that have been cancelled have calls. -/
structure Sound (c : Client) : Prop where
  exchange : ∀ i s, c.subscription? i = some s → i < c.transport.exchanges.length
  marked : ∀ i s, c.subscription? i = some s → s.Marked

/-- Every subscription has gone on from the state it was in. -/
structure Later (c d : Client) : Prop where
  reaches : ∀ i s, c.subscription? i = some s → ∃ t, d.subscription? i = some t ∧ s.Reaches t
  sound : c.Sound → d.Sound

namespace Later

theorem refl (c : Client) : c.Later c := ⟨fun _ s hs => ⟨s, hs, .refl s⟩, id⟩

theorem trans (hd : c.Later d) (he : d.Later e) : c.Later e := by
  refine ⟨?_, fun hc => he.sound (hd.sound hc)⟩
  intro i s hs
  obtain ⟨t, ht, hst⟩ := hd.reaches i s hs
  obtain ⟨u, hu, htu⟩ := he.reaches i t ht
  exact ⟨u, hu, hst.trans htu⟩

theorem of_subscribers_eq (hs : d.subscribers = c.subscribers)
    (ht : c.transport.exchanges.length ≤ d.transport.exchanges.length) : c.Later d := by
  have hsame (i : Nat) : d.subscription? i = c.subscription? i := by
    rw [subscription?, hs, subscription?]
  refine ⟨fun i s hi => ⟨s, (hsame i).trans hi, .refl s⟩, fun hc => ⟨?_, ?_⟩⟩
  · intro i s hi
    exact Nat.lt_of_lt_of_le (hc.exchange i s ((hsame i).symm.trans hi)) ht
  · intro i s hi
    exact hc.marked i s ((hsame i).symm.trans hi)

theorem foldl {f : Client → Nat → Client} (hf : ∀ (c : Client) i, c.Later (f c i)) (is : List Nat)
    (c : Client) : c.Later (is.foldl f c) := by
  induction is generalizing c with
  | nil => exact refl c
  | cons i is ih => exact (hf c i).trans (ih (f c i))

theorem isSome (h : c.Later d) (hi : (c.subscription? i).isSome = true) :
    (d.subscription? i).isSome = true := by
  obtain ⟨s, hs⟩ := Option.isSome_iff_exists.1 hi
  obtain ⟨t, ht, _⟩ := h.reaches i s hs
  exact Option.isSome_iff_exists.2 ⟨t, ht⟩

theorem isCancelled (h : c.Later d) (hi : c.isCancelled i = true) : d.isCancelled i = true := by
  obtain ⟨s, hs, hcancelled⟩ := (Option.any_eq_true _ _).1 hi
  obtain ⟨t, ht, hst⟩ := h.reaches i s hs
  exact (Option.any_eq_true _ _).2 ⟨t, ht, hst.cancelled hcancelled⟩

theorem isFinished (h : c.Later d) (hsome : (c.subscription? i).isSome = true)
    (hi : c.isFinished i = true) : d.isFinished i = true := by
  obtain ⟨s, hs⟩ := Option.isSome_iff_exists.1 hsome
  obtain ⟨t, ht, hst⟩ := h.reaches i s hs
  rw [isFinished_eq, hs] at hi
  rw [isFinished_eq, ht]
  exact hst.hasFinished hi

end Later

theorem subscription?_putSession (c : Client) (i j : Nat) (s : Session) :
    (c.putSession i s).subscription? j =
      if j = i then (c.subscription? i).map fun _ => s.subscription else c.subscription? j := by
  unfold subscription? putSession
  dsimp only
  induction c.subscribers with
  | nil => simp
  | cons entry subscribers ih =>
    obtain ⟨k, subscriber⟩ := entry
    by_cases hk : k = i
    · subst hk
      by_cases hj : j = k
      · simp [hj]
      · simpa [hj, List.lookup_cons, beq_false_of_ne hj] using ih
    · by_cases hj : j = k
      · subst hj
        simp [hk]
      · simpa [hk, List.lookup_cons, beq_false_of_ne hj, beq_false_of_ne (Ne.symm hk)] using ih

theorem subscription?_of_session? {s : Session} (h : c.session? i = some s) :
    c.subscription? i = some s.subscription := by
  simp only [session?, Option.bind_eq_bind, Option.pure_def] at h
  obtain ⟨subscriber, hlookup, h⟩ := Option.bind_eq_some_iff.1 h
  obtain ⟨x, _, h⟩ := Option.bind_eq_some_iff.1 h
  cases h
  rw [subscription?, hlookup]
  rfl

theorem Sound.session? (hc : c.Sound) (hi : (c.subscription? i).isSome = true) :
    ∃ s, c.session? i = some s := by
  obtain ⟨t, ht⟩ := Option.isSome_iff_exists.1 hi
  have hexchange := hc.exchange i t ht
  obtain ⟨subscriber, hlookup, _⟩ := Option.map_eq_some_iff.1 ht
  refine ⟨{ subscriber with exchange := c.transport.exchanges[i] }, ?_⟩
  simp [Client.session?, hlookup, Transport.exchange?, hexchange]

/-- A session that goes on is put in its place. -/
theorem later_putSession {s t : Session} (hs : c.session? i = some s)
    (hst : s.subscription.Reaches t.subscription) : c.Later (c.putSession i t) := by
  have hi := subscription?_of_session? hs
  have hsame (j : Nat) : (c.putSession i t).subscription? j =
      if j = i then some t.subscription else c.subscription? j := by
    rw [subscription?_putSession, hi, Option.map_some]
  refine ⟨?_, fun hc => ⟨?_, ?_⟩⟩
  · intro j r hr
    by_cases hj : j = i
    · subst hj
      rw [hi] at hr
      cases hr
      exact ⟨t.subscription, by rw [hsame, if_pos rfl], hst⟩
    · exact ⟨r, by rw [hsame, if_neg hj, hr], .refl r⟩
  · intro j r hr
    rw [putSession, Transport.modify, List.length_modify]
    rw [hsame] at hr
    split at hr
    · next hj => exact hj ▸ hc.exchange i _ hi
    · exact hc.exchange j r hr
  · intro j r hr
    rw [hsame] at hr
    split at hr
    · cases hr
      exact hst.marked (hc.marked i _ hi)
    · exact hc.marked j r hr

theorem later_withSession {f : Session → Session}
    (hf : ∀ s : Session, s.subscription.Reaches (f s).subscription) (c : Client) (i : Nat) :
    c.Later (c.withSession i f) := by
  unfold withSession
  split
  · exact .refl c
  · next s hs => exact later_putSession hs (hf s)

theorem later_cancel (c : Client) (i : Nat) : c.Later (c.cancel i) :=
  later_withSession Session.reaches_cancel c i

theorem later_serve (c : Client) (i : Nat) (f : Exchange → Exchange) : c.Later (c.serve i f) := by
  have hsent : c.Later { c with transport := c.transport.modify i f } := by
    refine .of_subscribers_eq rfl (Nat.le_of_eq ?_)
    rw [Transport.modify, List.length_modify]
  exact hsent.trans (later_withSession Session.reaches_run _ i)

theorem later_dropUnreferenced (c : Client) (i : Nat) : c.Later (c.dropUnreferenced i) := by
  unfold dropUnreferenced
  split
  · exact .refl c
  · exact c.later_cancel i

theorem later_prune (c : Client) : c.Later c.prune := by
  have hforget : c.Later { c with tracked := c.tracked.filter fun i => !c.isFinished i } :=
    .of_subscribers_eq rfl (Nat.le_refl _)
  exact hforget.trans (.foldl later_dropUnreferenced _ _)

theorem later_track (c : Client) (i : Nat) : c.Later (c.track i) := by
  have hmore : c.Later { c with tracked := i :: c.tracked } :=
    .of_subscribers_eq rfl (Nat.le_refl _)
  exact hmore.trans (later_prune _)

/-- A subscription that has been cancelled by the client stays so. -/
theorem isCancelled_cancel (hc : c.Sound) (hi : (c.subscription? i).isSome = true) :
    (c.cancel i).isCancelled i = true := by
  obtain ⟨s, hs⟩ := hc.session? hi
  have hsub := subscription?_of_session? hs
  have hcancelled := Session.cancelled_cancel (hc.marked i _ hsub)
  rw [cancel, withSession, hs]
  simp [isCancelled, subscription?_putSession, hsub, hcancelled]

theorem length_le_of_headers {t u : Transport} (h : t.headers <+: u.headers) :
    t.exchanges.length ≤ u.exchanges.length := by
  have hlength := h.length_le
  rwa [Transport.headers, Transport.headers, List.length_map, List.length_map] at hlength

theorem subscription?_enroll (c : Client) (i j : Nat) (s : Subscriber) (held : List Nat) :
    subscription? { c with subscribers := c.subscribers ++ [(i, s)], held } j =
      (c.subscription? j).or (if j = i then some s.subscription else none) := by
  simp only [subscription?, List.lookup_append, Option.map_or]
  by_cases hj : j = i
  · simp [hj]
  · simp [hj, List.lookup_cons, beq_false_of_ne hj]

/-- A new subscription forgets no other, and neither does it take the place of one. -/
theorem later_enroll {s : Subscriber} (held : List Nat) (hi : i < c.transport.exchanges.length)
    (hs : s.subscription.Marked) :
    c.Later { c with subscribers := c.subscribers ++ [(i, s)], held } := by
  refine ⟨?_, fun hc => ⟨?_, ?_⟩⟩
  · intro j r hr
    exact ⟨r, by rw [subscription?_enroll, hr, Option.some_or], .refl r⟩
  · intro j r hr
    rw [subscription?_enroll, Option.or_eq_some_iff] at hr
    rcases hr with hr | ⟨_, hr⟩
    · exact hc.exchange j r hr
    · obtain ⟨rfl, _⟩ := Option.ite_none_right_eq_some.1 hr
      exact hi
  · intro j r hr
    rw [subscription?_enroll, Option.or_eq_some_iff] at hr
    rcases hr with hr | ⟨_, hr⟩
    · exact hc.marked j r hr
    · obtain ⟨_, hr⟩ := Option.ite_none_right_eq_some.1 hr
      exact Option.some.inj hr ▸ hs

/-- Subscribing leaves the other subscriptions as they are, and the one that it makes is there. -/
theorem later_subscribeWith (c : Client) (link : Transport.Link)
    (executor : Executor SubscriptionRequest) (schema : Schema) (request : SubscriptionRequest)
    (callbacks : Callbacks) :
    let (result, _, d) := c.subscribeWith link executor schema request callbacks
    c.Later d ∧ d.tracked = c.tracked ∧
      ∀ i, result = some (.ok i) → (d.subscription? i).isSome = true := by
  have hstart := Setup.start_link link executor c.config.headers request c.transport
  unfold subscribeWith
  generalize Setup.start link.toConnection executor c.config.headers request c.transport =
    outcome at hstart ⊢
  obtain ⟨result, executor, transport⟩ := outcome
  rcases hstart with ⟨hok, hheaders⟩ | ⟨⟨e, hfailed⟩, hkept⟩
  · obtain rfl : result = some (.ok c.transport.exchanges.length) := hok
    have hlength : transport.exchanges.length = c.transport.exchanges.length + 1 := by
      simpa [Transport.headers] using congrArg List.length hheaders
    have hmoved : c.Later { c with transport } :=
      .of_subscribers_eq rfl (hlength ▸ Nat.le_succ _)
    have hmade := later_enroll (c := { c with transport }) (s := ⟨.start schema, callbacks, []⟩)
      (c.transport.exchanges.length :: c.held) (by rw [hlength]; exact Nat.lt_succ_self _)
      (.start schema)
    refine ⟨hmoved.trans hmade, rfl, ?_⟩
    rintro j ⟨⟩
    change (subscription? { c with transport, subscribers := _, held := _ } _).isSome = true
    rw [subscription?_enroll { c with transport }]
    simp
  · obtain rfl : result = some (.error e) := hfailed
    exact ⟨.of_subscribers_eq rfl (length_le_of_headers hkept), rfl, by simp⟩

@[simp] theorem tracked_withSession (c : Client) (i : Nat) (f : Session → Session) :
    (c.withSession i f).tracked = c.tracked := by
  unfold withSession
  split <;> rfl

@[simp] theorem tracked_cancel (c : Client) (i : Nat) : (c.cancel i).tracked = c.tracked :=
  tracked_withSession c i _

@[simp] theorem tracked_serve (c : Client) (i : Nat) (f : Exchange → Exchange) :
    (c.serve i f).tracked = c.tracked := tracked_withSession _ i _

@[simp] theorem tracked_dropUnreferenced (c : Client) (i : Nat) :
    (c.dropUnreferenced i).tracked = c.tracked := by
  unfold dropUnreferenced
  split
  · rfl
  · exact tracked_cancel c i

theorem tracked_foldl_dropUnreferenced (is : List Nat) (c : Client) :
    (is.foldl dropUnreferenced c).tracked = c.tracked := by
  induction is generalizing c with
  | nil => rfl
  | cons i is ih => rw [List.foldl_cons, ih, tracked_dropUnreferenced]

/-- What is tracked and has finished is forgotten, and nothing else. -/
theorem tracked_prune (c : Client) :
    c.prune.tracked = c.tracked.filter fun i => !c.isFinished i :=
  tracked_foldl_dropUnreferenced _ _

theorem tracked_track (c : Client) (i : Nat) :
    (c.track i).tracked = (i :: c.tracked).filter fun i => !c.isFinished i :=
  tracked_prune _

end Client
end TickingTable
