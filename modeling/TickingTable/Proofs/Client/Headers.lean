import TickingTable.Proofs.Client.Operations
import TickingTable.Proofs.Config

/-! What the server is told with every exchange: the headers of the configuration, as long as nobody
rewrites them. -/

namespace TickingTable

theorem Transport.headers_dropServer (t : Transport) : t.dropServer.headers = t.headers := by
  have hfold : ∀ (is : List Nat) (t : Transport),
      (is.foldl (fun t i => t.modify i Exchange.dropServer) t).headers = t.headers := by
    intro is
    induction is with
    | nil => exact fun t => rfl
    | cons i is ih => exact fun t => (ih _).trans (headers_modify fun _ _ => rfl)
  exact hfold t.waiting t

theorem Exchange.headers_next? {x y : Exchange} {r : Reading} (h : x.next? = some (r, y)) :
    y.headers = x.headers := by
  unfold next? at h
  split at h
  · cases h
    rfl
  · split at h
    · cases h
      rfl
    · cases h
      rfl
    · split at h
      · cases h
      · cases h
        rfl

namespace Session

variable {s t : Session}

theorem headers_become (s : Session) (t : Subscription) :
    (s.become t).exchange.headers = s.exchange.headers := by
  unfold become
  dsimp only
  split <;> rfl

theorem headers_beginCancel (s : Session) (c : Caller) :
    (s.beginCancel c).exchange.headers = s.exchange.headers := by
  unfold beginCancel
  split
  · rfl
  · split <;> rfl

theorem headers_cancelInside (n : Nat) (s : Session) :
    (cancelInside n s).exchange.headers = s.exchange.headers := by
  induction n generalizing s with
  | zero => rfl
  | succ n ih => exact (ih _).trans (s.headers_beginCancel .worker)

theorem headers_of_bind {u : Option Subscription} (h : (u.bind fun u => some (s.become u)) = some t) :
    t.exchange.headers = s.exchange.headers := by
  obtain ⟨u, _, h⟩ := Option.bind_eq_some_iff.1 h
  cases h
  exact headers_become s u

theorem headers_advance? (h : s.advance? = some t) : t.exchange.headers = s.exchange.headers := by
  unfold advance? at h
  simp only [Option.bind_eq_bind, Option.pure_def] at h
  split at h
  · obtain ⟨⟨r, x⟩, hx, h⟩ := Option.bind_eq_some_iff.1 h
    exact (headers_of_bind h).trans (Exchange.headers_next? hx)
  · exact headers_of_bind h
  · exact headers_of_bind h
  · exact headers_of_bind h
  · exact (headers_of_bind h).trans (headers_cancelInside _ _)
  · exact (headers_of_bind h).trans rfl
  · cases h
  · cases h

theorem headers_runFor (n : Nat) (s : Session) :
    (runFor n s).exchange.headers = s.exchange.headers := by
  induction n generalizing s with
  | zero => rfl
  | succ n ih =>
    unfold runFor
    split
    · rfl
    · next t ht => exact (ih t).trans (headers_advance? ht)

theorem headers_cancel (s : Session) : s.cancel.exchange.headers = s.exchange.headers :=
  (headers_runFor _ _).trans (s.headers_beginCancel _)

end Session

namespace Client

variable {c d e : Client} {i : Nat}

/-- The configuration and the numbers of the subscriptions are the same, and no exchange is forgotten
or has other headers. -/
structure SameHeaders (c d : Client) : Prop where
  config : d.config = c.config
  numbers : d.subscribers.map Prod.fst = c.subscribers.map Prod.fst
  headers : c.transport.headers <+: d.transport.headers

namespace SameHeaders

theorem refl (c : Client) : c.SameHeaders c := ⟨rfl, rfl, List.prefix_refl _⟩

theorem of_headers_eq (hconfig : d.config = c.config)
    (hnumbers : d.subscribers.map Prod.fst = c.subscribers.map Prod.fst)
    (hheaders : d.transport.headers = c.transport.headers) : c.SameHeaders d :=
  ⟨hconfig, hnumbers, by rw [hheaders]⟩

theorem trans (hd : c.SameHeaders d) (he : d.SameHeaders e) : c.SameHeaders e :=
  ⟨he.config.trans hd.config, he.numbers.trans hd.numbers, hd.headers.trans he.headers⟩

theorem foldl {f : Client → Nat → Client} (hf : ∀ (c : Client) i, c.SameHeaders (f c i))
    (is : List Nat) (c : Client) : c.SameHeaders (is.foldl f c) := by
  induction is generalizing c with
  | nil => exact refl c
  | cons i is ih => exact (hf c i).trans (ih (f c i))

end SameHeaders

theorem sameHeaders_putSession {s : Session}
    (h : ∀ x, c.transport.exchange? i = some x → s.exchange.headers = x.headers) :
    c.SameHeaders (c.putSession i s) := by
  refine .of_headers_eq rfl ?_ (Transport.headers_modify h)
  rw [putSession, List.map_map]
  apply List.map_congr_left
  intro entry _
  simp only [Function.comp_apply]
  split
  · next hi => exact hi.symm
  · rfl

theorem sameHeaders_withSession {f : Session → Session}
    (hf : ∀ s, (f s).exchange.headers = s.exchange.headers) (c : Client) (i : Nat) :
    c.SameHeaders (c.withSession i f) := by
  unfold withSession
  split
  · exact .refl c
  · next s hs =>
    apply sameHeaders_putSession
    intro x hx
    simp only [session?, Option.bind_eq_bind, Option.pure_def] at hs
    obtain ⟨subscriber, _, hs⟩ := Option.bind_eq_some_iff.1 hs
    rw [hx, Option.bind_some] at hs
    cases hs
    exact hf _

theorem sameHeaders_cancel (c : Client) (i : Nat) : c.SameHeaders (c.cancel i) :=
  sameHeaders_withSession Session.headers_cancel c i

theorem sameHeaders_dropUnreferenced (c : Client) (i : Nat) :
    c.SameHeaders (c.dropUnreferenced i) := by
  unfold dropUnreferenced
  split
  · exact .refl c
  · exact sameHeaders_cancel c i

theorem sameHeaders_prune (c : Client) : c.SameHeaders c.prune := by
  have hforget : c.SameHeaders
      { c with tracked := c.tracked.filter fun i => !c.isFinished i } := .of_headers_eq rfl rfl rfl
  exact hforget.trans (.foldl sameHeaders_dropUnreferenced _ _)

theorem sameHeaders_track (c : Client) (i : Nat) : c.SameHeaders (c.track i) := by
  have hmore : c.SameHeaders { c with tracked := i :: c.tracked } := .of_headers_eq rfl rfl rfl
  exact hmore.trans (sameHeaders_prune _)

/-- One subscription more, on a new exchange that has the headers of the configuration. -/
structure Enrolls (c d : Client) : Prop where
  config : d.config = c.config
  numbers : d.subscribers.map Prod.fst =
    c.subscribers.map Prod.fst ++ [c.transport.exchanges.length]
  headers : c.transport.headers ++ [c.config.headers] <+: d.transport.headers

theorem Enrolls.trans (hd : c.Enrolls d) (he : d.SameHeaders e) : c.Enrolls e :=
  ⟨he.config.trans hd.config, he.numbers.trans hd.numbers, hd.headers.trans he.headers⟩

/-- Subscribing enrolls a subscription, unless it fails. -/
theorem subscribeWith_cases (c : Client) (link : Transport.Link)
    (executor : Executor SubscriptionRequest) (schema : Schema) (request : SubscriptionRequest)
    (callbacks : Callbacks) :
    c.SameHeaders (c.subscribeWith link executor schema request callbacks).2.2 ∨
      c.Enrolls (c.subscribeWith link executor schema request callbacks).2.2 := by
  have hstart := Setup.start_link link executor c.config.headers request c.transport
  unfold subscribeWith
  generalize Setup.start link.toConnection executor c.config.headers request c.transport = outcome
    at hstart ⊢
  obtain ⟨result, executor, transport⟩ := outcome
  rcases hstart with ⟨hok, hheaders⟩ | ⟨⟨e, hfailed⟩, hkept⟩
  · obtain rfl : result = some (.ok c.transport.exchanges.length) := hok
    exact Or.inr ⟨rfl, by simp, by rw [← hheaders]⟩
  · obtain rfl : result = some (.error e) := hfailed
    exact Or.inl ⟨rfl, rfl, hkept⟩

/-- What the server does leaves the headers of an exchange as they came. -/
def Operation.LeavesHeaders : Operation → Prop
  | .act _ f => ∀ x, (f x).headers = x.headers
  | _ => True

theorem sameHeaders_shutdown (c : Client) : c.SameHeaders c.shutdown := by
  have htaken : c.SameHeaders c.takeTracked.2 := .of_headers_eq rfl rfl rfl
  have hcancelled := htaken.trans (.foldl sameHeaders_cancel c.tracked _)
  exact hcancelled.trans (.of_headers_eq rfl rfl rfl)

/-- An operation enrolls at most one subscription. -/
theorem perform_cases {op : Operation} (hop : op.LeavesHeaders) (c : Client) :
    c.SameHeaders (c.perform op).2 ∨ c.Enrolls (c.perform op).2 := by
  cases op with
  | subscribe link schema ticket options callbacks =>
    have hcases := c.subscribeWith_cases link c.executor schema
      ⟨ticket, options.getD c.config.subscription⟩ callbacks
    simp only [perform, subscribe]
    generalize c.subscribeWith link c.executor schema _ callbacks = outcome at hcases ⊢
    obtain ⟨result, executor, d⟩ := outcome
    have hnext : d.SameHeaders { d with executor } := .of_headers_eq rfl rfl rfl
    have hall : ∀ e : Client, d.SameHeaders e → c.SameHeaders e ∨ c.Enrolls e := fun e he =>
      hcases.imp (fun hd => hd.trans he) fun hd => hd.trans he
    rcases result with _ | x | i
    · exact hall _ hnext
    · exact hall _ hnext
    · exact hall _ (hnext.trans (sameHeaders_track _ i))
  | unsubscribe i =>
    have hforget : c.SameHeaders { c with tracked := c.tracked.filter (· ≠ i) } :=
      .of_headers_eq rfl rfl rfl
    exact Or.inl (hforget.trans (sameHeaders_cancel _ i))
  | count => exact Or.inl (sameHeaders_prune c)
  | shutdown => exact Or.inl (sameHeaders_shutdown c)
  | subscribeAside link executor schema request callbacks =>
    exact c.subscribeWith_cases link executor schema request callbacks
  | cancel i => exact Or.inl (sameHeaders_cancel c i)
  | dropHandle i =>
    have hforget : c.SameHeaders { c with held := c.held.filter (· ≠ i) } :=
      .of_headers_eq rfl rfl rfl
    exact Or.inl (hforget.trans (sameHeaders_dropUnreferenced _ i))
  | work i =>
    refine Or.inl (sameHeaders_withSession (fun s => ?_) c i)
    cases h : s.advance? with
    | none => rfl
    | some t => exact Session.headers_advance? h
  | act i f => exact Or.inl (.of_headers_eq rfl rfl (Transport.headers_modify fun x _ => hop x))
  | accept =>
    refine Or.inl (.of_headers_eq rfl rfl ?_)
    simp only [perform, Transport.accept?]
    cases c.transport.waiting <;> rfl
  | dropServer => exact Or.inl (.of_headers_eq rfl rfl (Transport.headers_dropServer c.transport))

/-- A client connects with an accepted configuration only, and keeps it. -/
theorem config_of_connect {config : ClientConfig} {transport : Transport}
    (h : connect config transport = .ok c) : config.validate = .ok () ∧ c.config = config := by
  unfold connect at h
  split at h
  · cases h
  · next hvalid =>
    split at h
    · cases h
    · cases h
      exact ⟨hvalid, rfl⟩

/-- Every subscription has an exchange with the headers of the configuration. -/
structure Sends (c : Client) (config : ClientConfig) : Prop where
  same : c.config = config
  headers : ∀ i ∈ c.subscribers.map Prod.fst,
    c.transport.headers[i]? = some config.headers

namespace Sends

variable {config : ClientConfig}

theorem of_connect {transport : Transport} (h : connect config transport = .ok c) :
    c.Sends config := by
  obtain ⟨_, hconfig⟩ := config_of_connect h
  refine ⟨hconfig, ?_⟩
  rw [(connect_eq_ok h).1]
  exact nofun

theorem getElem?_of_prefix {hs ks : List (List (String × String))} (h : hs <+: ks) {i : Nat}
    {x : List (String × String)} (hi : hs[i]? = some x) : ks[i]? = some x := by
  obtain ⟨more, rfl⟩ := h
  rwa [List.getElem?_append_left (List.getElem?_eq_some_iff.1 hi).1]

theorem of_sameHeaders (h : c.Sends config) (hd : c.SameHeaders d) : d.Sends config := by
  refine ⟨hd.config.trans h.same, fun i hi => ?_⟩
  rw [hd.numbers] at hi
  exact getElem?_of_prefix hd.headers (h.headers i hi)

theorem of_enrolls (h : c.Sends config) (hd : c.Enrolls d) : d.Sends config := by
  refine ⟨hd.config.trans h.same, fun i hi => ?_⟩
  rw [hd.numbers] at hi
  refine getElem?_of_prefix hd.headers ?_
  rcases List.mem_append.1 hi with hi | hi
  · exact getElem?_of_prefix (List.prefix_append _ _) (h.headers i hi)
  · obtain rfl := List.mem_singleton.1 hi
    simp [Transport.headers, h.same]

theorem after (h : c.Sends config) {ops : List Operation} (hops : ∀ op ∈ ops, op.LeavesHeaders) :
    (c.after ops).Sends config := by
  induction ops generalizing c with
  | nil => exact h
  | cons op ops ih =>
    obtain ⟨hop, hrest⟩ := List.forall_mem_cons.1 hops
    refine ih ?_ hrest
    rcases perform_cases hop c with hsame | henrolls
    · exact h.of_sameHeaders hsame
    · exact h.of_enrolls henrolls

end Sends

/-- A configuration is accepted just if its sizes are positive, the names of its extra headers are
not empty and have no blanks, and none of them is the name of an authorization beside it; otherwise
the error is the first thing wrong. Of the headers of an accepted one only the authorization has its
name, and whatever is done with a client, the server finds the authorization under that name, in any
case, on the exchange of every subscription. -/
theorem authorization_unambiguous (config : ClientConfig) :
    (config.validate = .ok () ↔ config.Accepted) ∧
    (∀ e, config.validate = .error e ↔ config.Refused e) ∧
    ∀ a, config.authorization = some a →
      (config.validate = .ok () →
        (config.headers.filter fun h => Recased h.1 ClientConfig.authorizationHeader) =
          [(ClientConfig.authorizationHeader, a)]) ∧
      ∀ transport client, connect config transport = .ok client →
        ∀ ops, (∀ op ∈ ops, op.LeavesHeaders) → ∀ entry ∈ (client.after ops).subscribers,
          ∃ x, (client.after ops).transport.exchange? entry.1 = some x ∧
            ∀ name, Recased name ClientConfig.authorizationHeader →
              header? x.headers name = some a := by
  refine ⟨ClientConfig.validate_eq_ok, fun e => ClientConfig.validate_eq_error, ?_⟩
  intro a ha
  refine ⟨fun hvalid => ClientConfig.filter_headers (ClientConfig.validate_eq_ok.1 hvalid) ha, ?_⟩
  intro transport client hconnect ops hops entry hentry
  have hsends := (Sends.of_connect hconnect).after hops
  have hheaders := hsends.headers entry.1 (List.mem_map_of_mem hentry)
  rw [Transport.headers, List.getElem?_map] at hheaders
  obtain ⟨x, hx, hsame⟩ := Option.map_eq_some_iff.1 hheaders
  refine ⟨x, hx, fun name hname => ?_⟩
  rw [hsame]
  exact ClientConfig.header?_headers ha hname

/-- A configuration with an authorization and another header. -/
def signed : ClientConfig :=
  { authorization := some "Bearer abc", extraHeaders := .ofList [("x-session", "42")] }

/-- The same with a header that has the name of the authorization in another case. -/
def contradictory : ClientConfig :=
  { signed with extraHeaders := .ofList [("x-session", "42"), ("Authorization", "Basic xyz")] }

/-- The client of the first of these configurations. -/
def signedClient : Client := ⟨signed, .create, .create "barrage-flight-executor", [], [], []⟩

/-- It subscribes, the subscription is cancelled, and the server goes. -/
def signedOperations : List Operation :=
  [.subscribe Transport.link Decoder.oneColumn ⟨[1]⟩ none ⟨fun _ => ⟨0, .returned⟩, .returned⟩,
    .accept, .act 0 Exchange.dropServer, .cancel 0, .dropServer]

theorem authorization_unambiguous_capitals :
    contradictory.validate = .error (.conflictingHeader "Authorization") ∧
      signed.validate = .ok () ∧
      (signed.headers.filter fun h => Recased h.1 ClientConfig.authorizationHeader) =
        [("authorization", "Bearer abc")] ∧
      connect signed .create = .ok signedClient ∧
      ∃ x, (signedClient.after signedOperations).transport.exchange? 0 = some x ∧
        header? x.headers "AUTHORIZATION" = some "Bearer abc" := by
  have hvalid : signed.validate = .ok () := by rfl
  have hconnect : connect signed .create = .ok signedClient := by rfl
  have hops : ∀ op ∈ signedOperations, op.LeavesHeaders := by
    simp [signedOperations, Operation.LeavesHeaders, Exchange.dropServer]
  have hnumbers : (signedClient.after signedOperations).subscribers.map Prod.fst = [0] := by rfl
  have hcapitals : Recased "AUTHORIZATION" ClientConfig.authorizationHeader :=
    sameIgnoringCase_iff.1 (by cbv)
  have hspelled : Recased "Authorization" ClientConfig.authorizationHeader :=
    sameIgnoringCase_iff.1 (by cbv)
  have hnames : contradictory.extraNames = ["Authorization", "x-session"] := by cbv
  obtain ⟨_, hrefused, _⟩ := authorization_unambiguous contradictory
  have hclash : contradictory.validate = .error (.conflictingHeader "Authorization") := by
    refine (hrefused _).2 (.header (by decide) (by decide) ⟨"Authorization", ?_, ?_, ?_⟩)
    · simp [hnames]
    · exact .conflicting rfl hspelled
    · intro other hother hlt
      rw [hnames] at hother
      rcases List.mem_cons.1 hother with rfl | hother
      · exact absurd hlt (lt_irrefl _)
      · obtain rfl := List.mem_singleton.1 hother
        exact absurd hlt (by decide)
  obtain ⟨_, _, hauthorized⟩ := authorization_unambiguous signed
  obtain ⟨honce, hexchanges⟩ := hauthorized "Bearer abc" rfl
  have hmem : 0 ∈ (signedClient.after signedOperations).subscribers.map Prod.fst := by
    rw [hnumbers]
    exact List.mem_singleton_self 0
  obtain ⟨entry, hentry, hzero⟩ := List.mem_map.1 hmem
  obtain ⟨x, hx, hfound⟩ := hexchanges .create signedClient hconnect signedOperations hops entry hentry
  rw [hzero] at hx
  exact ⟨hclash, hvalid, honce hvalid, hconnect, x, hx, hfound _ hcapitals⟩

end Client
end TickingTable
