import TickingTable.Proofs.Client.Operations

/-! A client that one thread uses counts the subscriptions that it should. -/

namespace TickingTable
namespace Client

variable {c d : Client} {i : Nat}

theorem unfinished_filter (c : Client) (p : Nat → Bool) (is : List Nat) :
    c.unfinished (is.filter p) = (c.unfinished is).filter p := by
  rw [unfinished, unfinished, List.filter_filter, List.filter_filter]
  exact List.filter_congr fun i _ => Bool.and_comm _ _

theorem tracked_foldl_cancel (is : List Nat) (c : Client) :
    (is.foldl cancel c).tracked = c.tracked := by
  induction is generalizing c with
  | nil => rfl
  | cons i is ih => rw [List.foldl_cons, ih, tracked_cancel]

/-- How the subscriptions that stand came about, and that the client tracks those of them whose
workers have not finished. -/
structure Balanced (c : Client) (l : Log) : Prop where
  sound : c.Sound
  rests : c.Rests
  known : ∀ i ∈ returned l, (c.subscription? i).isSome = true
  stands : ∀ i ∈ standing l, i ∈ returned l
  tracked : ∀ i ∈ c.tracked, i ∈ returned l
  nodup : (standing l).Nodup
  same : c.unfinished c.tracked = c.unfinished (standing l)

namespace Balanced

variable {l : Log} {op : Operation} {o : Outcome}

theorem start {config : ClientConfig} {transport : Transport} {client : Client}
    (h : connect config transport = .ok client) : client.Balanced [] := by
  obtain ⟨hsubscribers, htracked⟩ := connect_eq_ok h
  have hnone (i : Nat) : client.subscription? i = none := by
    rw [subscription?, hsubscribers]
    rfl
  refine ⟨?_, rests_of_connect h, by simp [returned], by simp [standing], by simp [htracked],
    .nil, ?_⟩
  · constructor <;> simp [hnone]
  · rw [htracked]
    rfl

theorem fresh (h : c.Balanced l) : ¬ c.transport.exchanges.length ∈ returned l := by
  intro hmem
  obtain ⟨s, hs⟩ := Option.isSome_iff_exists.1 (h.known _ hmem)
  exact Nat.lt_irrefl _ (h.sound.exchange _ s hs)

/-- An operation by which nothing is returned may let go of some subscriptions. -/
theorem of_later (h : c.Balanced l) (hlater : c.Later d) (hrests : d.Rests)
    (hreturned : returned [(op, o)] = []) (htracked : d.tracked ⊆ c.tracked)
    (hstand : (stand (standing l) (op, o)).Sublist (standing l))
    (hsame : d.unfinished d.tracked = d.unfinished (stand (standing l) (op, o))) :
    d.Balanced (l ++ [(op, o)]) := by
  have hstanding : standing (l ++ [(op, o)]) = stand (standing l) (op, o) := by simp
  have hall : returned (l ++ [(op, o)]) = returned l := by simp [hreturned]
  refine ⟨hlater.sound h.sound, hrests, ?_, ?_, ?_, ?_, hstanding ▸ hsame⟩
  · exact hall ▸ fun i hi => hlater.isSome (h.known i hi)
  · exact hall ▸ hstanding ▸ fun i hi => h.stands i (hstand.subset hi)
  · exact hall ▸ fun i hi => h.tracked i (htracked hi)
  · exact hstanding ▸ hstand.nodup h.nodup

theorem later_same (h : c.Balanced l) (hlater : c.Later d) :
    d.unfinished c.tracked = d.unfinished (standing l) :=
  hlater.unfinished_eq (fun i hi => h.known i (h.tracked i hi))
    (fun i hi => h.known i (h.stands i hi)) h.same

/-- The subscription that a subscribe returns is tracked and stands. -/
theorem subscribed (h : c.Balanced l) {link : Transport.Link} {schema : Schema} {ticket : Ticket}
    {options : Option SubscriptionOptions} {callbacks : Callbacks} (hlater : c.Later d)
    (htracked : d.tracked = c.tracked) (hrests : d.Rests)
    (hi : i = c.transport.exchanges.length) (hsome : (d.subscription? i).isSome = true) :
    (d.track i).Balanced
      (l ++ [(.subscribe link schema ticket options callbacks, .subscribed (some (.ok i)))]) := by
  have hfresh : ¬ i ∈ returned l := hi ▸ h.fresh
  have hstanding : standing
      (l ++ [(.subscribe link schema ticket options callbacks, .subscribed (some (.ok i)))]) =
      i :: standing l := by simp [stand]
  have hall : returned
      (l ++ [(.subscribe link schema ticket options callbacks, .subscribed (some (.ok i)))]) =
      returned l ++ [i] := by simp [returned]
  have hmore : d.Later (d.track i) := later_track d i
  have hkept : (d.track i).tracked = d.unfinished (i :: c.tracked) := by
    rw [tracked_track, htracked]
    rfl
  have hknown : ∀ j ∈ returned l ++ [i], (d.subscription? j).isSome = true := by
    intro j hj
    rcases List.mem_append.1 hj with hj | hj
    · exact hlater.isSome (h.known j hj)
    · rw [List.mem_singleton.1 hj]
      exact hsome
  have hlisted : ∀ j ∈ i :: c.tracked, j ∈ returned l ++ [i] := by
    intro j hj
    rcases List.mem_cons.1 hj with rfl | hj
    · exact List.mem_append_right _ List.mem_cons_self
    · exact List.mem_append_left _ (h.tracked j hj)
  refine ⟨hmore.sound (hlater.sound h.sound), hrests.of_executor_eq (executor_track d i), ?_, ?_,
    ?_, ?_, ?_⟩
  · rw [hall]
    exact fun j hj => hmore.isSome (hknown j hj)
  · rw [hall, hstanding]
    intro j hj
    rcases List.mem_cons.1 hj with rfl | hj
    · exact List.mem_append_right _ List.mem_cons_self
    · exact List.mem_append_left _ (h.stands j hj)
  · rw [hall, hkept]
    exact fun j hj => hlisted j (mem_unfinished.1 hj).1
  · rw [hstanding]
    exact List.nodup_cons.2 ⟨fun hmem => hfresh (h.stands i hmem), h.nodup⟩
  · rw [hstanding, hkept, hmore.unfinished_unfinished fun j hj => hknown j (hlisted j hj)]
    have hrest := h.later_same (hlater.trans hmore)
    unfold unfinished at hrest ⊢
    rw [List.filter_cons, List.filter_cons, hrest]

theorem perform (h : c.Balanced l) (op : Operation) :
    (c.perform op).2.Balanced (l ++ [(op, (c.perform op).1)]) := by
  have hlater := c.later_perform op
  have hrests := (h.rests.perform op).1
  have hquiet : ∀ (d : Client) (o : Outcome), c.Later d → d.Rests → d.tracked = c.tracked →
      returned [(op, o)] = [] → stand (standing l) (op, o) = standing l →
      d.Balanced (l ++ [(op, o)]) := by
    intro d o hlater hrests htracked hreturned hstand
    refine h.of_later hlater hrests hreturned (htracked ▸ List.Subset.refl _) ?_ ?_
    · rw [hstand]
    · rw [htracked, hstand]
      exact h.later_same hlater
  cases op with
  | subscribe link schema ticket options callbacks =>
    have hset := c.later_setUp link schema ⟨ticket, options.getD c.config.subscription⟩ callbacks
    simp only [Client.perform, subscribe_eq] at hlater hrests ⊢
    rcases setUp_cases h.rests link schema ⟨ticket, options.getD c.config.subscription⟩
      callbacks with ⟨_, hok, hidle⟩ | ⟨_, e, t, hfailed, _⟩ | ⟨_, hfailed⟩
    · generalize c.setUp _ _ _ _ = outcome at hok hidle hset ⊢
      obtain ⟨result, d⟩ := outcome
      obtain rfl := hok
      obtain ⟨hlater, htracked, hsome⟩ := hset
      exact h.subscribed hlater htracked hidle rfl (hsome _ rfl)
    · rw [hfailed] at hlater hrests ⊢
      exact hquiet { c with transport := t } _ hlater hrests rfl rfl rfl
    · rw [hfailed]
      exact hquiet c _ (.refl c) h.rests rfl rfl rfl
  | unsubscribe i =>
    have htracked : (c.unsubscribe i).tracked = c.tracked.filter (· ≠ i) := tracked_cancel _ i
    refine h.of_later hlater hrests rfl ?_ List.filter_sublist ?_
    · exact htracked ▸ List.filter_sublist.subset
    · change (c.unsubscribe i).unfinished (c.unsubscribe i).tracked =
        (c.unsubscribe i).unfinished ((standing l).filter (· ≠ i))
      rw [htracked, unfinished_filter, unfinished_filter]
      exact congrArg _ (h.later_same hlater)
  | shutdown =>
    have htracked : c.shutdown.tracked = [] := tracked_foldl_cancel c.tracked _
    refine h.of_later hlater hrests rfl ?_ (List.nil_sublist _) ?_
    · exact htracked ▸ List.nil_subset _
    · exact congrArg c.shutdown.unfinished htracked
  | count =>
    have htracked : c.prune.tracked = c.unfinished c.tracked := tracked_prune c
    refine h.of_later hlater hrests rfl ?_ (List.Sublist.refl _) ?_
    · exact htracked ▸ List.filter_sublist.subset
    · have hlater := later_prune c
      change c.prune.unfinished c.prune.tracked = c.prune.unfinished (standing l)
      rw [htracked, hlater.unfinished_unfinished fun i hi => h.known i (h.tracked i hi)]
      exact h.later_same hlater
  | subscribeAside link executor schema request callbacks =>
    exact hquiet _ _ hlater hrests
      (c.later_subscribeWith link executor schema request callbacks).2.1 rfl rfl
  | cancel i => exact hquiet _ _ hlater hrests (tracked_cancel c i) rfl rfl
  | dropHandle i => exact hquiet _ _ hlater hrests (tracked_dropUnreferenced _ i) rfl rfl
  | work i => exact hquiet _ _ hlater hrests (tracked_withSession c i _) rfl rfl
  | act i f => exact hquiet _ _ hlater hrests rfl rfl rfl
  | accept => exact hquiet _ _ hlater hrests rfl rfl rfl
  | dropServer => exact hquiet _ _ hlater hrests rfl rfl rfl

theorem run (h : c.Balanced l) (ops : List Operation) :
    (c.after ops).Balanced (l ++ c.log ops) := by
  induction ops generalizing c l with
  | nil => simpa [log] using h
  | cons op ops ih =>
    have hrest := ih (h.perform op)
    rwa [List.append_assoc] at hrest

/-- What a subscribe returns has not been returned before. -/
theorem returned_perform (h : c.Balanced l) (op : Operation)
    (hi : i ∈ returned [(op, (c.perform op).1)]) : ¬ i ∈ returned l := by
  cases op with
  | subscribe link schema ticket options callbacks =>
    simp only [Client.perform, subscribe_eq] at hi
    rcases setUp_cases h.rests link schema ⟨ticket, options.getD c.config.subscription⟩
      callbacks with ⟨_, hok, _⟩ | ⟨_, e, t, hfailed, _⟩ | ⟨_, hfailed⟩
    · generalize c.setUp _ _ _ _ = outcome at hi hok
      obtain ⟨result, d⟩ := outcome
      obtain rfl := hok
      obtain rfl : i = c.transport.exchanges.length := by simpa [returned] using hi
      exact h.fresh
    · simp [hfailed, returned] at hi
    · simp [hfailed, returned] at hi
  | _ => cases hi

/-- A subscription that was returned and does not count any more never counts again. -/
theorem not_counted_perform (h : c.Balanced l) (op : Operation) (hi : i ∈ returned l)
    (hnot : ¬ i ∈ c.unfinished (standing l)) :
    ¬ i ∈ (c.perform op).2.unfinished (standing (l ++ [(op, (c.perform op).1)])) := by
  intro hmem
  obtain ⟨hstands, hrunning⟩ := mem_unfinished.1 hmem
  rw [standing_append] at hstands
  have hbefore : i ∈ standing l := by
    rcases mem_stand hstands with hstands | hreturned
    · exact hstands
    · exact absurd hi (h.returned_perform op hreturned)
  refine hnot (mem_unfinished.2 ⟨hbefore, ?_⟩)
  rw [← Bool.not_eq_true] at hrunning ⊢
  exact fun hfinished => hrunning ((c.later_perform op).isFinished (h.known i hi) hfinished)

theorem not_counted_run (h : c.Balanced l) (hi : i ∈ returned l)
    (hnot : ¬ i ∈ c.unfinished (standing l)) (ops : List Operation) :
    ¬ i ∈ (c.after ops).unfinished (standing (l ++ c.log ops)) := by
  induction ops generalizing c l with
  | nil => simpa [log] using hnot
  | cons op ops ih =>
    have hmore : i ∈ returned (l ++ [(op, (c.perform op).1)]) := by
      rw [returned_append]
      exact List.mem_append_left _ hi
    have hrest := ih (h.perform op) hmore (h.not_counted_perform op hi hnot)
    rwa [List.append_assoc] at hrest

end Balanced

/-- Whatever a thread does with a client, and whatever happens between its calls: the client counts
the subscriptions that it returned, that stand and whose workers have not finished. A subscribe that
fails changes nothing of the client, nor anything of the transport over a link of its own, what does
not count any more never counts again, and after a shutdown every subscribe fails. -/
theorem numSubscriptions_accounted (config : ClientConfig) (transport : Transport)
    (client : Client) (hconnect : connect config transport = .ok client) (ops : List Operation) :
    let c := client.after ops
    let counted := c.unfinished (standing (client.log ops))
    (c.numSubscriptions.1 = counted.length ∧ counted.Nodup) ∧
    (∀ link schema ticket options callbacks,
      (∃ i, (c.subscribe link schema ticket options callbacks).1 = some (.ok i)) ∨
        ∃ e t, c.subscribe link schema ticket options callbacks =
          (some (.error e), { c with transport := t }) ∧
            (link = Transport.link → t = c.transport)) ∧
    (∀ i ∈ returned (client.log ops), ¬ i ∈ counted → ∀ more,
      ¬ i ∈ (client.after (ops ++ more)).unfinished (standing (client.log (ops ++ more)))) ∧
    (.shutdown ∈ ops → ∀ link schema ticket options callbacks,
      c.subscribe link schema ticket options callbacks =
        (some (.error (.executor .shutdown)), c)) := by
  intro c counted
  have h : c.Balanced (client.log ops) := (Balanced.start hconnect).run ops
  refine ⟨⟨?_, h.nodup.filter _⟩, ?_, ?_, ?_⟩
  · rw [numSubscriptions_eq, h.same]
  · intro link schema ticket options callbacks
    exact (subscribe_cases h.rests link schema ticket options callbacks).1
  · intro i hi hnot more
    rw [after_append, log_append]
    exact h.not_counted_run hi hnot more
  · intro hmem link schema ticket options callbacks
    have hclosed := isOpen_after (rests_of_connect hconnect) (Or.inl hmem)
    exact (subscribe_cases h.rests link schema ticket options callbacks).2 hclosed

/-- A subscription that is cancelled, one that is unsubscribed and one that goes on. -/
theorem numSubscriptions_accounted_three :
    let subscribe : Operation :=
      .subscribe Transport.link Decoder.oneColumn ⟨[1]⟩ none ⟨fun _ => ⟨0, .returned⟩, .returned⟩
    let ops := [subscribe, subscribe, subscribe, .cancel 0, .unsubscribe 1, .unsubscribe 1]
    (Crowd.idleClient.after ops).numSubscriptions.1 = 1 ∧
      (∀ more, ¬ 0 ∈ (Crowd.idleClient.after (ops ++ more)).unfinished
        (standing (Crowd.idleClient.log (ops ++ more)))) ∧
      ((Crowd.idleClient.after (ops ++ [.shutdown])).subscribe Transport.link Decoder.oneColumn
        ⟨[1]⟩ none ⟨fun _ => ⟨0, .returned⟩, .returned⟩).1 =
          some (.error (.executor .shutdown)) := by
  intro subscribe ops
  have hreturned : returned (Crowd.idleClient.log ops) = [0, 1, 2] := by decide
  have hcounted : (Crowd.idleClient.after ops).unfinished (standing (Crowd.idleClient.log ops)) =
      [2] := by decide
  obtain ⟨⟨hcount, _⟩, _, hnever, _⟩ :=
    numSubscriptions_accounted {} .create Crowd.idleClient Crowd.connect_idleClient ops
  obtain ⟨_, _, _, hclosed⟩ := numSubscriptions_accounted {} .create Crowd.idleClient
    Crowd.connect_idleClient (ops ++ [.shutdown])
  refine ⟨by rw [hcount, hcounted]; rfl, fun more => ?_, ?_⟩
  · exact hnever 0 (by simp [hreturned]) (by simp [hcounted]) more
  · rw [hclosed (by simp)]

end Client
end TickingTable
