import TickingTable.Proofs.Promise.Bridge

/-! A promise delivers one outcome once, whatever is done with its sender and its receiver. -/

namespace TickingTable

variable {ε α κ : Type}

/-- Whether the receiver can still be answered with an outcome that the promise keeps. -/
def Receiver.waits : Receiver κ → Bool
  | .idle | .blocked _ => true
  | _ => false

/-- What a receiver has received if that is the first outcome, or none if there is none. -/
def Receiver.due : Receiver κ → Option (Except ε α) → List (Received ε α κ)
  | .served, some outcome => [.wait (.ok outcome)]
  | .served, none => [.wait (.error .abandoned)]
  | .chained k, some outcome => [.ran k outcome]
  | _, _ => []

namespace Bridge

/-- How calls that deliver outcomes come back: only the first is accepted. -/
def verdicts : List (Except ε α) → List (Except PromiseError Unit)
  | [] => []
  | _ :: later => .ok () :: later.map fun _ => .error .alreadyFulfilled

/-- What a promise holds for its receiver, and what the receiver has received, by the first outcome
and by whether there can be none any more or has been one. -/
inductive Settled (first : Option (Except ε α)) (ended : Bool) :
    Receiver κ → Option (Except ε α) → Option κ → List (Received ε α κ) → Prop
  | idle : Settled first ended .idle first none []
  | blocked : Settled first ended (.blocked ended) first none []
  | served (outcome : Except ε α) : first = some outcome → ended = true →
    Settled first ended .served none none [.wait (.ok outcome)]
  | abandoned : first = none → ended = true →
    Settled first ended .served none none [.wait (.error .abandoned)]
  | ran (k : κ) (outcome : Except ε α) : first = some outcome → ended = true →
    Settled first ended (.chained k) none none [.ran k outcome]
  | chained (k : κ) : first = none → ended = false →
    Settled first ended (.chained k) none (some k) []
  | discarded (k : κ) : first = none → ended = true → Settled first ended (.chained k) none none []

/-- The state of a promise by what has happened to it. -/
structure Sound (b : Bridge ε α κ) : Prop where
  senders : b.promise.senders = b.copies.length
  ended : b.promise.fulfilled = true ↔ b.offers ≠ [] ∨ b.copies = []
  answers : b.answers = verdicts b.offers
  settled : Settled b.offers.head? b.promise.fulfilled b.receiver b.promise.outcome
    b.promise.continuation b.received

namespace Settled

variable {first outcome? : Option (Except ε α)} {ended : Bool} {r : Receiver κ}
  {continuation? : Option κ} {received : List (Received ε α κ)}

theorem due (h : Settled first ended r outcome? continuation? received) :
    received = r.due first := by
  cases h with
  | idle => rfl
  | blocked => rfl
  | served o ho _ => rw [ho]; rfl
  | abandoned hnone _ => rw [hnone]; rfl
  | ran k o ho _ => rw [ho]; rfl
  | chained k hnone _ => rw [hnone]; rfl
  | discarded k hnone _ => rw [hnone]; rfl

/-- An outcome, or that there can be none any more, wakes a thread that waits. -/
theorem notify (h : Settled none false r outcome? none received) :
    outcome? = none ∧
      ∀ first : Option (Except ε α), Settled first true r.notify first none received := by
  cases h with
  | idle => exact ⟨rfl, fun _ => .idle⟩
  | blocked => exact ⟨rfl, fun _ => .blocked⟩
  | served o ho _ => cases ho
  | abandoned _ hended => cases hended
  | ran k o ho _ => cases ho
  | discarded k _ hended => cases hended

theorem run (h : Settled none false r outcome? (some k) received) (outcome : Except ε α) :
    Settled (some outcome) true r outcome? none (received ++ [.ran k outcome]) := by
  cases h with
  | chained _ _ _ => exact .ran k outcome rfl rfl

theorem discard (h : Settled none false r outcome? (some k) received) :
    Settled none true r outcome? none received := by
  cases h with
  | chained _ _ _ => exact .discarded k rfl rfl

/-- Until the receiver is used or has been answered, the promise keeps the outcome for it. -/
theorem of_waits (h : Settled first ended r outcome? continuation? received)
    (hr : r.waits = true) : outcome? = first ∧ continuation? = none ∧ received = [] := by
  cases h with
  | idle => exact ⟨rfl, rfl, rfl⟩
  | blocked => exact ⟨rfl, rfl, rfl⟩
  | _ => cases hr

theorem ended_of_served (h : Settled first ended .served outcome? continuation? received) :
    ended = true := by
  cases h with
  | served _ _ hended => exact hended
  | abandoned _ hended => exact hended

/-- A thread that waits is awake just if the promise has ended. -/
theorem awake_eq {awake : Bool}
    (h : Settled first ended (.blocked awake) outcome? continuation? received) : awake = ended := by
  cases h
  rfl

theorem continuation?_of_ended (h : Settled first true r outcome? continuation? received) :
    continuation? = none := by
  cases h with
  | chained _ _ hended => cases hended
  | _ => rfl

end Settled

variable {b t : Bridge ε α κ} {copy new : Nat} {outcome : Except ε α} {k : κ}

theorem Sound.create : (create : Bridge ε α κ).Sound :=
  ⟨rfl, by simp [Bridge.create, Promise.create], rfl, .idle⟩

/-- A promise of which a copy is left has ended just if an outcome has been offered. -/
theorem Sound.fulfilled_iff (hb : b.Sound) (hcopy : copy ∈ b.copies) :
    b.promise.fulfilled = true ↔ b.offers ≠ [] := by
  simpa [List.ne_nil_of_mem hcopy] using hb.ended

theorem Sound.clone (hb : b.Sound) (hcopy : copy ∈ b.copies) :
    Sound { b with promise := b.promise.clone, copies := new :: b.copies } := by
  refine ⟨?_, ?_, hb.answers, hb.settled⟩
  · simp [Promise.clone, hb.senders]
  · simpa [Promise.clone] using hb.fulfilled_iff hcopy

theorem fulfil_of_fulfilled (h : b.promise.fulfilled = true) (outcome : Except ε α) :
    b.fulfil outcome =
      { b with
        offers := b.offers ++ [outcome]
        answers := b.answers ++ [.error .alreadyFulfilled] } := by
  simp [fulfil, Promise.fulfil, h]

theorem verdicts_append {offers : List (Except ε α)} (h : offers ≠ []) (outcome : Except ε α) :
    verdicts (offers ++ [outcome]) = verdicts offers ++ [.error .alreadyFulfilled] := by
  cases offers with
  | nil => exact absurd rfl h
  | cons first later => simp [verdicts]

theorem Sound.fulfil (hb : b.Sound) (hcopy : copy ∈ b.copies) (outcome : Except ε α) :
    (b.fulfil outcome).Sound := by
  cases hended : b.promise.fulfilled with
  | true =>
    -- with a copy left, only an earlier offer can have ended the promise
    have hoffers := (hb.fulfilled_iff hcopy).1 hended
    rw [fulfil_of_fulfilled hended]
    refine ⟨hb.senders, ?_, ?_, ?_⟩
    · simp [hended]
    · simp [hb.answers, verdicts_append hoffers]
    · obtain ⟨first, later, hcons⟩ := List.exists_cons_of_ne_nil hoffers
      simpa [hcons] using hb.settled
  | false =>
    have hoffers : b.offers = [] := by simpa [hended] using hb.fulfilled_iff hcopy
    have hanswers := hb.answers
    have hsettled := hb.settled
    rw [hoffers] at hanswers hsettled
    rw [hended] at hsettled
    cases hk : b.promise.continuation with
    | none =>
      rw [hk] at hsettled
      have hfulfil : b.fulfil outcome =
          { b with
            promise := { b.promise with fulfilled := true, outcome := some outcome }
            receiver := b.receiver.notify
            offers := [outcome]
            answers := [.ok ()] } := by
        simp [Bridge.fulfil, Promise.fulfil, hended, hk, hoffers, hanswers, verdicts]
      rw [hfulfil]
      refine ⟨hb.senders, by simp, rfl, ?_⟩
      simpa [hk] using hsettled.notify.2 (some outcome)
    | some k =>
      rw [hk] at hsettled
      have hfulfil : b.fulfil outcome =
          { b with
            promise := { b.promise with fulfilled := true, continuation := none }
            offers := [outcome]
            answers := [.ok ()]
            received := b.received ++ [.ran k outcome] } := by
        simp [Bridge.fulfil, Promise.fulfil, hended, hk, hoffers, hanswers, verdicts]
      rw [hfulfil]
      exact ⟨hb.senders, by simp, rfl, hsettled.run outcome⟩

/-- The last copy is dropped before an outcome was delivered. -/
theorem Sound.abandon (hb : b.Sound) (hcopy : copy ∈ b.copies) (hlast : b.copies.length = 1)
    (hended : b.promise.fulfilled = false) : (b.drop copy).Sound := by
  have hoffers : b.offers = [] := by simpa [hended] using hb.fulfilled_iff hcopy
  have hsenders : b.promise.senders = 1 := hb.senders.trans hlast
  have hcopies : b.copies.erase copy = [] := by
    rw [← List.length_eq_zero_iff, List.length_erase_of_mem hcopy, hlast]
  have hsettled := hb.settled
  rw [hoffers, hended] at hsettled
  have hrelease : b.promise.release =
      { b.promise with fulfilled := true, continuation := none, senders := 0 } := by
    simp [Promise.release, hsenders, hended]
  cases hk : b.promise.continuation with
  | none =>
    rw [hk] at hsettled
    have hdrop : b.drop copy =
        { b with promise := b.promise.release, copies := [], receiver := b.receiver.notify } := by
      simp [Bridge.drop, hrelease, hended, hk, hcopies]
    rw [hdrop, hrelease]
    refine ⟨rfl, by simp, hb.answers, ?_⟩
    obtain ⟨houtcome, hnotified⟩ := hsettled.notify
    simpa [hoffers, houtcome] using hnotified none
  | some k =>
    rw [hk] at hsettled
    have hdrop : b.drop copy = { b with promise := b.promise.release, copies := [] } := by
      simp [Bridge.drop, hrelease, hended, hk, hcopies]
    rw [hdrop, hrelease]
    refine ⟨rfl, by simp, hb.answers, ?_⟩
    simpa [hoffers] using hsettled.discard

theorem Sound.drop (hb : b.Sound) (hcopy : copy ∈ b.copies) : (b.drop copy).Sound := by
  -- dropping a copy does no more than count unless it is the last and nothing was delivered
  by_cases hlast : b.copies.length = 1 ∧ b.promise.fulfilled = false
  · exact hb.abandon hcopy hlast.1 hlast.2
  · have hlength := List.length_erase_of_mem hcopy
    have hpos := List.length_pos_of_mem hcopy
    have hrelease : b.promise.release = { b.promise with senders := b.promise.senders - 1 } := by
      have hnot : ¬ (b.promise.senders - 1 = 0 ∧ b.promise.fulfilled = false) := by
        rintro ⟨hone, hended⟩
        have hsenders := hb.senders
        exact hlast ⟨by omega, hended⟩
      simp only [Promise.release, if_neg hnot]
    have hdrop : b.drop copy =
        { b with promise := b.promise.release, copies := b.copies.erase copy } := by
      simp [Bridge.drop, hrelease]
    rw [hdrop, hrelease]
    refine ⟨by simp [hb.senders, hlength], ?_, hb.answers, hb.settled⟩
    cases hended : b.promise.fulfilled with
    | true =>
      have hoffers := (hb.fulfilled_iff hcopy).1 hended
      simp [hoffers]
    | false =>
      have hoffers : b.offers = [] := by simpa [hended] using hb.fulfilled_iff hcopy
      have hmany : b.copies.length ≠ 1 := fun hone => hlast ⟨hone, hended⟩
      have hcopies : b.copies.erase copy ≠ [] := List.ne_nil_of_length_pos (by omega)
      simp [hoffers, hcopies]

theorem Sound.fulfilled_of_head? (hb : b.Sound) (h : b.offers.head? = some outcome) :
    b.promise.fulfilled = true := by
  refine hb.ended.2 (Or.inl ?_)
  intro hnil
  rw [hnil] at h
  cases h

/-- Looking at the promise is answered with the first outcome, or that there can be none. -/
theorem Sound.look (hb : b.Sound) (hr : b.receiver.waits = true) : b.look.Sound := by
  obtain ⟨houtcome, hcontinuation, hreceived⟩ := hb.settled.of_waits hr
  cases hfirst : b.offers.head? with
  | some outcome =>
    rw [hfirst] at houtcome
    have hended := hb.fulfilled_of_head? hfirst
    have hlook : b.look = { b with
        promise := { b.promise with outcome := none }
        receiver := .served
        received := b.received ++ [.wait (.ok outcome)] } := by
      simp [Bridge.look, Promise.await?, houtcome]
    rw [hlook]
    refine ⟨hb.senders, hb.ended, hb.answers, ?_⟩
    simpa [hfirst, hended, hcontinuation, hreceived] using Settled.served outcome rfl rfl
  | none =>
    rw [hfirst] at houtcome
    cases hended : b.promise.fulfilled with
    | true =>
      have hlook : b.look = { b with
          receiver := .served
          received := b.received ++ [.wait (.error .abandoned)] } := by
        simp [Bridge.look, Promise.await?, houtcome, hended]
      rw [hlook]
      refine ⟨hb.senders, hb.ended, hb.answers, ?_⟩
      simpa [hfirst, hended, houtcome, hcontinuation, hreceived] using Settled.abandoned rfl rfl
    | false =>
      have hlook : b.look = { b with receiver := .blocked false } := by
        simp [Bridge.look, Promise.await?, houtcome, hended]
      rw [hlook]
      refine ⟨hb.senders, hb.ended, hb.answers, ?_⟩
      simpa [hfirst, hended, houtcome, hcontinuation, hreceived] using Settled.blocked

theorem Sound.andThen (hb : b.Sound) (hr : b.receiver.waits = true) (k : κ) :
    (b.andThen k).Sound := by
  obtain ⟨houtcome, hcontinuation, hreceived⟩ := hb.settled.of_waits hr
  cases hfirst : b.offers.head? with
  | some outcome =>
    rw [hfirst] at houtcome
    have hended := hb.fulfilled_of_head? hfirst
    have hthen : b.andThen k = { b with
        promise := { b.promise with outcome := none }
        receiver := .chained k
        received := b.received ++ [.ran k outcome] } := by
      simp [Bridge.andThen, Promise.andThen, houtcome]
    rw [hthen]
    refine ⟨hb.senders, hb.ended, hb.answers, ?_⟩
    simpa [hfirst, hended, hcontinuation, hreceived] using Settled.ran k outcome rfl rfl
  | none =>
    rw [hfirst] at houtcome
    cases hended : b.promise.fulfilled with
    | true =>
      have hthen : b.andThen k = { b with receiver := .chained k } := by
        simp [Bridge.andThen, Promise.andThen, houtcome, hended]
      rw [hthen]
      refine ⟨hb.senders, hb.ended, hb.answers, ?_⟩
      simpa [hfirst, hended, houtcome, hcontinuation, hreceived] using Settled.discarded k rfl rfl
    | false =>
      have hthen : b.andThen k = { b with
          promise := { b.promise with continuation := some k }
          receiver := .chained k } := by
        simp [Bridge.andThen, Promise.andThen, houtcome, hended]
      rw [hthen]
      refine ⟨hb.senders, hb.ended, hb.answers, ?_⟩
      simpa [hfirst, hended, houtcome, hreceived] using Settled.chained k rfl rfl

theorem Sound.step {op : Op ε α κ} (hb : b.Sound) (h : Step b op t) : t.Sound := by
  cases h with
  | clone copy new hcopy _ => exact hb.clone hcopy
  | fulfil copy outcome hcopy => exact hb.fulfil hcopy outcome
  | drop copy hcopy => exact hb.drop hcopy
  | wait hr => exact hb.look (by rw [hr]; rfl)
  | look awake hr => exact hb.look (by rw [hr]; rfl)
  | andThen k hr => exact hb.andThen (by rw [hr]; rfl) k

theorem Sound.run? {ops : List (Op ε α κ)} (hb : b.Sound) (h : b.run? ops = some t) : t.Sound := by
  induction ops generalizing b with
  | nil =>
    cases h
    exact hb
  | cons op ops ih =>
    obtain ⟨u, hu, h⟩ := run?_cons.1 h
    exact ih (hb.step (step_of_step? hu)) h

/-- A receiver that looks is answered at once just if the promise has ended. -/
theorem Sound.look_receiver (hb : b.Sound) (hr : b.receiver.waits = true) :
    b.look.receiver = .served ↔ b.promise.fulfilled = true := by
  obtain ⟨houtcome, _, _⟩ := hb.settled.of_waits hr
  cases hfirst : b.offers.head? with
  | some outcome =>
    simp [Bridge.look, Promise.await?, houtcome, hfirst, hb.fulfilled_of_head? hfirst]
  | none =>
    cases hended : b.promise.fulfilled <;>
      simp [Bridge.look, Promise.await?, houtcome, hfirst, hended]

/-- Whatever is done with the copies of the sender and with the receiver, in whatever order: the
first outcome offered is accepted and all others are refused, which changes nothing; the consumer
receives just the first outcome, once, or that there can be none, once the receiver has been used;
a thread that waits is awake just if there is something to receive; and the promise counts the
copies that are left and has ended once it was fulfilled or the last of them was dropped. -/
theorem delivers_once (ops : List (Op ε α κ)) (b : Bridge ε α κ)
    (h : (Bridge.create : Bridge ε α κ).run? ops = some b) :
    let offers := ops.filterMap Op.offer?
    b.answers = verdicts offers ∧
    (offers ≠ [] → ∀ copy ∈ b.copies, ∀ outcome, b.step? (.fulfil copy outcome) =
      some { b with
        offers := offers ++ [outcome]
        answers := b.answers ++ [.error .alreadyFulfilled] }) ∧
    b.received = b.receiver.due offers.head? ∧
    (b.receiver = .served → offers ≠ [] ∨ b.copies = []) ∧
    (b.receiver.waits = true → (b.look.receiver = .served ↔ offers ≠ [] ∨ b.copies = [])) ∧
    (∀ awake, b.receiver = .blocked awake → (awake = true ↔ offers ≠ [] ∨ b.copies = [])) ∧
    (offers ≠ [] ∨ b.copies = [] → b.promise.continuation = none) ∧
    (b.promise.fulfilled = true ↔ offers ≠ [] ∨ b.copies = []) ∧
    b.promise.senders = b.copies.length ∧
    b.copies.length + ops.countP Op.isDrop = 1 + ops.countP Op.isClone ∧
    (∀ copy t, b.step? (.drop copy) = some t → t.promise.senders + 1 = b.promise.senders) := by
  intro offers
  have hb : b.Sound := Sound.create.run? h
  obtain ⟨hoffers, hcopies⟩ := counts_run? h
  have hoffers : b.offers = offers := hoffers
  have hended := hb.ended
  have hsettled := hb.settled
  rw [hoffers] at hended hsettled
  refine ⟨hoffers ▸ hb.answers, ?_, hsettled.due, ?_, ?_, ?_, ?_, hended, hb.senders, hcopies, ?_⟩
  · intro hne copy hcopy outcome
    rw [step?, if_pos hcopy, fulfil_of_fulfilled (hended.2 (Or.inl hne)), hoffers]
  · intro hr
    rw [hr] at hsettled
    exact hended.1 hsettled.ended_of_served
  · intro hr
    exact (hb.look_receiver hr).trans hended
  · intro awake hr
    rw [hr] at hsettled
    rw [hsettled.awake_eq]
    exact hended
  · intro hlast
    rw [hended.2 hlast] at hsettled
    exact hsettled.continuation?_of_ended
  · intro copy t ht
    have hstep := step_of_step? ht
    have hcounts := hstep.counts.2
    have ht := (hb.step hstep).senders
    have hs := hb.senders
    simp only [Op.isDrop, Op.isClone, if_true, Bool.false_eq_true, if_false] at hcounts
    omega

/-- Two copies are to deliver, after the receiver has left a continuation. -/
def contested : List (Op Unit Nat Nat) :=
  [.clone 0 1, .andThen 9, .fulfil 1 (.ok 5), .fulfil 0 (.error ()), .drop 0, .drop 1]

theorem delivers_once_contested :
    ∃ b, Bridge.create.run? contested = some b ∧ b.answers = [.ok (), .error .alreadyFulfilled] ∧
      b.received = [.ran 9 (.ok 5)] ∧ b.promise.senders = 0 := by
  have hrun : Bridge.create.run? contested = some
      { promise := ⟨true, none, none, 0⟩, copies := [], receiver := .chained 9,
        offers := [.ok 5, .error ()], answers := [.ok (), .error .alreadyFulfilled],
        received := [.ran 9 (.ok 5)] } := rfl
  obtain ⟨hanswers, _, hreceived, _, _, _, _, _, hsenders, _⟩ := delivers_once contested _ hrun
  exact ⟨_, hrun, hanswers, hreceived, hsenders⟩

end Bridge
end TickingTable
