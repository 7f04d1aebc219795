import TickingTable.Promise

/-! The life of a promise: its sender is copied, used and dropped in any order, and its receiver
waits or leaves a continuation at any time. -/

namespace TickingTable

/-- What has become of a receiver. -/
inductive Receiver (κ : Type) where
  | idle
  /-- A thread waits. It looks at the promise again when it is awake. -/
  | blocked (awake : Bool)
  | served
  | chained (k : κ)

/-- What the consumer has received: a wait returned, or its continuation ran. -/
inductive Received (ε α κ : Type) where
  | wait (r : Except PromiseError (Except ε α))
  | ran (k : κ) (outcome : Except ε α)

/-- A promise with everything that refers to it, and what has happened to it. -/
structure Bridge (ε α κ : Type) where
  promise : Promise ε α κ
  /-- The copies of the sender that have not been dropped. -/
  copies : List Nat
  receiver : Receiver κ
  /-- The outcomes that copies were to deliver, in order, and how these calls came back. -/
  offers : List (Except ε α)
  answers : List (Except PromiseError Unit)
  received : List (Received ε α κ)

variable {ε α κ : Type}

/-- Only a thread that waits can be notified. -/
def Receiver.notify : Receiver κ → Receiver κ
  | .blocked _ => .blocked true
  | r => r

namespace Bridge

inductive Op (ε α κ : Type) where
  | clone (copy new : Nat)
  | fulfil (copy : Nat) (outcome : Except ε α)
  | drop (copy : Nat)
  | wait
  /-- The thread that waits looks again, with or without being notified. -/
  | look
  | andThen (k : κ)

def create : Bridge ε α κ := ⟨.create, [0], .idle, [], [], []⟩

/-- Delivering notifies the receiver unless its continuation has to run. -/
def fulfil (b : Bridge ε α κ) (outcome : Except ε α) : Bridge ε α κ :=
  let b := { b with offers := b.offers ++ [outcome] }
  match b.promise.fulfil outcome with
  | .error e => { b with answers := b.answers ++ [.error e] }
  | .ok (promise, none) =>
    { b with promise, receiver := b.receiver.notify, answers := b.answers ++ [.ok ()] }
  | .ok (promise, some k) =>
    { b with promise, received := b.received ++ [.ran k outcome], answers := b.answers ++ [.ok ()] }

/-- Dropping the last copy notifies the receiver if the promise has not been fulfilled, unless the
receiver has left a continuation. -/
def drop (b : Bridge ε α κ) (copy : Nat) : Bridge ε α κ :=
  let promise := b.promise.release
  let abandons := !b.promise.fulfilled && promise.fulfilled && b.promise.continuation.isNone
  { b with
    promise
    copies := b.copies.erase copy
    receiver := if abandons then b.receiver.notify else b.receiver }

/-- The thread that waits looks at the promise. It goes to sleep if there is no result yet. -/
def look (b : Bridge ε α κ) : Bridge ε α κ :=
  match b.promise.await? with
  | none => { b with receiver := .blocked false }
  | some (r, promise) =>
    { b with promise, receiver := .served, received := b.received ++ [.wait r] }

def andThen (b : Bridge ε α κ) (k : κ) : Bridge ε α κ :=
  match b.promise.andThen k with
  | (promise, none) => { b with promise, receiver := .chained k }
  | (promise, some outcome) =>
    { b with promise, receiver := .chained k, received := b.received ++ [.ran k outcome] }

/-- Only copies that have not been dropped are used, and the receiver is used once. -/
def step? (b : Bridge ε α κ) : Op ε α κ → Option (Bridge ε α κ)
  | .clone copy new =>
    if copy ∈ b.copies ∧ new ∉ b.copies then
      some { b with promise := b.promise.clone, copies := new :: b.copies }
    else none
  | .fulfil copy outcome => if copy ∈ b.copies then some (b.fulfil outcome) else none
  | .drop copy => if copy ∈ b.copies then some (b.drop copy) else none
  | .wait =>
    match b.receiver with
    | .idle => some b.look
    | _ => none
  | .look =>
    match b.receiver with
    | .blocked _ => some b.look
    | _ => none
  | .andThen k =>
    match b.receiver with
    | .idle => some (b.andThen k)
    | _ => none

/-- All that a step can do. -/
inductive Step (b : Bridge ε α κ) : Op ε α κ → Bridge ε α κ → Prop
  | clone (copy new : Nat) : copy ∈ b.copies → new ∉ b.copies → Step b (.clone copy new)
    { b with promise := b.promise.clone, copies := new :: b.copies }
  | fulfil (copy : Nat) (outcome : Except ε α) : copy ∈ b.copies →
    Step b (.fulfil copy outcome) (b.fulfil outcome)
  | drop (copy : Nat) : copy ∈ b.copies → Step b (.drop copy) (b.drop copy)
  | wait : b.receiver = .idle → Step b .wait b.look
  | look (awake : Bool) : b.receiver = .blocked awake → Step b .look b.look
  | andThen (k : κ) : b.receiver = .idle → Step b (.andThen k) (b.andThen k)

/-- The outcome that an operation is to deliver. -/
def Op.offer? : Op ε α κ → Option (Except ε α)
  | .fulfil _ outcome => some outcome
  | _ => none

def Op.isClone : Op ε α κ → Bool
  | .clone _ _ => true
  | _ => false

def Op.isDrop : Op ε α κ → Bool
  | .drop _ => true
  | _ => false

def run? (b : Bridge ε α κ) (ops : List (Op ε α κ)) : Option (Bridge ε α κ) := ops.foldlM step? b

variable {b t : Bridge ε α κ} {op : Op ε α κ} {ops : List (Op ε α κ)}

theorem step_of_step? (h : b.step? op = some t) : Step b op t := by
  cases op with
  | clone copy new =>
    obtain ⟨⟨hcopy, hnew⟩, hsome⟩ := Option.ite_none_right_eq_some.1 h
    cases hsome
    exact .clone copy new hcopy hnew
  | fulfil copy outcome =>
    obtain ⟨hcopy, hsome⟩ := Option.ite_none_right_eq_some.1 h
    cases hsome
    exact .fulfil copy outcome hcopy
  | drop copy =>
    obtain ⟨hcopy, hsome⟩ := Option.ite_none_right_eq_some.1 h
    cases hsome
    exact .drop copy hcopy
  | wait =>
    cases hr : b.receiver with
    | idle =>
      simp only [step?, hr] at h
      cases h
      exact .wait hr
    | _ =>
      simp only [step?, hr] at h
      cases h
  | look =>
    cases hr : b.receiver with
    | blocked awake =>
      simp only [step?, hr] at h
      cases h
      exact .look awake hr
    | _ =>
      simp only [step?, hr] at h
      cases h
  | andThen k =>
    cases hr : b.receiver with
    | idle =>
      simp only [step?, hr] at h
      cases h
      exact .andThen k hr
    | _ =>
      simp only [step?, hr] at h
      cases h

theorem fulfil_same (b : Bridge ε α κ) (outcome : Except ε α) :
    (b.fulfil outcome).offers = b.offers ++ [outcome] ∧ (b.fulfil outcome).copies = b.copies := by
  unfold fulfil
  dsimp only
  split <;> exact ⟨rfl, rfl⟩

theorem look_same (b : Bridge ε α κ) : b.look.offers = b.offers ∧ b.look.copies = b.copies := by
  unfold look
  split <;> exact ⟨rfl, rfl⟩

theorem andThen_same (b : Bridge ε α κ) (k : κ) :
    (b.andThen k).offers = b.offers ∧ (b.andThen k).copies = b.copies := by
  unfold andThen
  split <;> exact ⟨rfl, rfl⟩

/-- A step records what it offers, and adds or takes away a copy if it clones or drops. -/
theorem Step.counts (h : Step b op t) :
    t.offers = b.offers ++ op.offer?.toList ∧
      t.copies.length + (if op.isDrop then 1 else 0) =
        b.copies.length + (if op.isClone then 1 else 0) := by
  cases h with
  | clone copy new _ _ => simp [Op.offer?, Op.isDrop, Op.isClone]
  | fulfil copy outcome _ => simp [fulfil_same, Op.offer?, Op.isDrop, Op.isClone]
  | drop copy hcopy =>
    have hpos := List.length_pos_of_mem hcopy
    simp only [Bridge.drop, List.length_erase_of_mem hcopy, Op.offer?, Op.isDrop, Op.isClone]
    refine ⟨by simp, ?_⟩
    simp only [if_true, Bool.false_eq_true, if_false]
    omega
  | wait _ => simp [look_same, Op.offer?, Op.isDrop, Op.isClone]
  | look _ _ => simp [look_same, Op.offer?, Op.isDrop, Op.isClone]
  | andThen k _ => simp [andThen_same, Op.offer?, Op.isDrop, Op.isClone]

theorem run?_cons :
    b.run? (op :: ops) = some t ↔ ∃ u, b.step? op = some u ∧ u.run? ops = some t := by
  rw [run?, List.foldlM_cons]
  exact Option.bind_eq_some_iff

theorem counts_run? (h : b.run? ops = some t) :
    t.offers = b.offers ++ ops.filterMap Op.offer? ∧
      t.copies.length + ops.countP Op.isDrop = b.copies.length + ops.countP Op.isClone := by
  induction ops generalizing b with
  | nil =>
    cases h
    simp
  | cons op ops ih =>
    obtain ⟨u, hu, h⟩ := run?_cons.1 h
    obtain ⟨hoffers, hcopies⟩ := (step_of_step? hu).counts
    obtain ⟨hlater, hrest⟩ := ih h
    refine ⟨?_, ?_⟩
    · rw [hlater, hoffers, List.append_assoc]
      cases ho : op.offer? <;> simp [ho]
    · rw [List.countP_cons, List.countP_cons]
      omega

end Bridge
end TickingTable
