import AewtState.Events
import AewtState.Publish

/-!
# The numbers that fan-out returns

A fan-out sends in a loop and returns a number that it computes apart from the loop: the size
of the store less one, the number of subscribed sessions, or the number of sessions.

* `Counted` — the eight members of `aewt::state` that return such a number.
* `Counts` — the number is that of the clients, or sessions, on which `send` was invoked.
* `Counted.Exact` — the stores for which that is so.
* `ReportsCount` — the same for what the requester of a broadcast or publish reads.

Principal result: `counts_exact_iff`.  The sessions are always counted; the clients are when
exactly one row is left out of the loop; the subscribed sessions are when each of them is in
the map.
-/

set_option autoImplicit false

namespace Aewt

/-- The fan-outs that return a number, with the arguments of the source. -/
inductive Counted where
  | broadcastToClients (sessionId clientId : Uuid) (data : Object)
  | publishToClients (sessionId clientId : Uuid) (channel : String) (data : Object)
  | broadcastToSessions (clientId : Uuid) (data : Object)
  | publishToSessions (clientId : Uuid) (channel : String) (data : Object)
  | joinToSessions (clientId : Uuid)
  | leaveToSessions (clientId : Uuid)
  | subscribeToSessions (clientId : Uuid) (channel : String)
  | unsubscribeToSessions (clientId : Uuid) (channel : String)

def Counted.run (request : Request) : Counted → M UInt64
  | .broadcastToClients s c data => Aewt.broadcastToClients request s c data
  | .publishToClients s c channel data => Aewt.publishToClients request s c channel data
  | .broadcastToSessions c data => Aewt.broadcastToSessions request c data
  | .publishToSessions c channel data => Aewt.publishToSessions request c channel data
  | .joinToSessions c => Aewt.joinToSessions c
  | .leaveToSessions c => Aewt.leaveToSessions c
  | .subscribeToSessions c channel => Aewt.subscribeToSessions request c channel
  | .unsubscribeToSessions c channel => Aewt.unsubscribeToSessions request c channel

/-! ## What is counted -/

def Effect.session? : Effect → Option Uuid
  | .session id _ => some id
  | .client _ _ => none
  | .dial _ _ _ => none

/-- The sessions that are sent something. -/
def sessionTargets (es : List Effect) : List Uuid := es.filterMap Effect.session?

/-- The number that `x` returns is that of the different receivers of what it sends. -/
def Counts (sent : List Effect → List Uuid) (x : M UInt64) (w : World) : Prop :=
  ∃ n w' es, x w = (.ok n, w') ∧ w'.effects = w.effects ++ es ∧
    n.toNat = (sent es).dedup.length

/-- Who a fan-out sends to. -/
def Counted.sent : Counted → List Effect → List Uuid
  | .broadcastToClients _ _ _ | .publishToClients _ _ _ _ => clientTargets
  | .broadcastToSessions _ _ | .publishToSessions _ _ _ | .joinToSessions _
  | .leaveToSessions _ | .subscribeToSessions _ _ | .unsubscribeToSessions _ _ => sessionTargets

/-- The clients that `send_to_others_clients` leaves out. -/
def exceptedClients (st : State) (sessionId clientId : Uuid) : List Client :=
  st.getClients.filter fun c => c.id = clientId ∨ c.sessionId ≠ sessionId

/-- The subscribed session ids with a session in the map. -/
def presentReceivers (st : State) (channel : String) : List Uuid :=
  (receivers st channel).filter fun s => st.sessions.hasKey s

/-- The subscribed session ids without one: the node's own, or a session that has gone. -/
def absentReceivers (st : State) (channel : String) : List Uuid :=
  (receivers st channel).filter fun s => ¬ st.sessions.hasKey s

/-! ## The stores that are counted right -/

/-- One client is left out.  Both numbers are taken in `std::size_t`. -/
def ClientsExact (st : State) (sessionId clientId : Uuid) : Prop :=
  (otherClients st sessionId clientId).length < 2 ^ 64 ∧
  (exceptedClients st sessionId clientId).length % 2 ^ 64 = 1

/-- No subscribed session is absent. -/
def ReceiversExact (st : State) (channel : String) : Prop :=
  (presentReceivers st channel).length < 2 ^ 64 ∧
  (absentReceivers st channel).length % 2 ^ 64 = 0

def Counted.Exact (st : State) : Counted → Prop
  | .broadcastToClients s c _ | .publishToClients s c _ _ => ClientsExact st s c
  | .publishToSessions _ channel _ => ReceiversExact st channel
  | .broadcastToSessions _ _ | .joinToSessions _ | .leaveToSessions _
  | .subscribeToSessions _ _ | .unsubscribeToSessions _ _ => st.getSessions.length < 2 ^ 64

/-! ## Numbers in `std::size_t` -/

theorem ofNat_eq_iff {returned sent left : Nat} (h : returned = sent + left) :
    (UInt64.ofNat returned).toNat = sent ↔ sent < 2 ^ 64 ∧ left % 2 ^ 64 = 0 := by
  rw [UInt64.toNat_ofNat']
  omega

theorem ofNat_sub_one_eq_iff {returned sent left : Nat} (h : returned = sent + left) :
    (UInt64.ofNat returned - 1).toNat = sent ↔ sent < 2 ^ 64 ∧ left % 2 ^ 64 = 1 := by
  have hone : (1 : UInt64).toNat = 1 := rfl
  rw [UInt64.toNat_sub, UInt64.toNat_ofNat', hone]
  omega

/-! ## What the loops send -/

section

variable (st : State) (data : Object)

theorem sessionTargets_toSessions :
    sessionTargets (toSessions st data) = st.getSessions.map Session.id := by
  rw [sessionTargets, toSessions, List.filterMap_map, ← List.filterMap_eq_map]
  rfl

theorem sessionTargets_toSubscribedSessions (channel : String) :
    sessionTargets (toSubscribedSessions st data channel) =
      (st.getSessions.filter fun s => s.id ∈ receivers st channel).map Session.id := by
  rw [sessionTargets, toSubscribedSessions, List.filterMap_map, ← List.filterMap_eq_map]
  rfl

theorem length_getClients (s c : Uuid) : st.getClients.length =
    (otherClients st s c).length + (exceptedClients st s c).length := by
  rw [List.length_eq_length_filter_add fun d : Client => decide (d.id ≠ c ∧ d.sessionId = s)]
  congr 2
  refine List.filter_congr fun d _ => ?_
  by_cases h : d.id = c <;> by_cases h' : d.sessionId = s <;> simp [h, h']

theorem length_receivers (channel : String) : (receivers st channel).length =
    (presentReceivers st channel).length + (absentReceivers st channel).length := by
  rw [List.length_eq_length_filter_add fun s => st.sessions.hasKey s]
  congr 2
  refine List.filter_congr fun s _ => ?_
  cases st.sessions.hasKey s <;> rfl

/-- The subscribed sessions of the map are the subscribed ids that are in the map. -/
theorem length_subscribed (channel : String) :
    (st.getSessions.filter fun s => s.id ∈ receivers st channel).length =
      (presentReceivers st channel).length := by
  rw [← List.length_map Session.id]
  refine ((List.perm_ext_iff_of_nodup ?_ ?_).mpr fun s => ?_).length_eq
  · exact st.sessions.nodup.sublist (List.filter_sublist.map _)
  · exact (List.nodup_dedup _).filter _
  · simp only [presentReceivers, List.mem_map, List.mem_filter, decide_eq_true_eq,
      Table.hasKey_iff]
    constructor
    · rintro ⟨x, ⟨hx, hr⟩, rfl⟩
      exact ⟨hr, x, hx, rfl⟩
    · rintro ⟨hr, x, hx, rfl⟩
      exact ⟨x, ⟨hx, hr⟩, rfl⟩

end

/-! ## Counting -/

/-- A fan-out to the rows of a list, no two of which have the same id. -/
theorem counts_iff {α : Type} {key : α → Uuid} {rows : List α} {sent : List Effect → List Uuid}
    {x : M UInt64} {w w' : World} {n : UInt64} {es : List Effect} (h : x w = (.ok n, w'))
    (he : w'.effects = w.effects ++ es) (hs : sent es = rows.map key)
    (hnd : (rows.map key).Nodup) : Counts sent x w ↔ n.toNat = rows.length := by
  have hlen : (sent es).dedup.length = rows.length := by
    rw [hs, hnd.dedup, List.length_map]
  constructor
  · rintro ⟨m, v, fs, hx, hf, hm⟩
    rw [h] at hx
    cases hx
    rw [hm, ← List.append_cancel_left (he.symm.trans hf), hlen]
  · intro hn
    exact ⟨n, w', es, h, he, hn.trans hlen.symm⟩

section

variable {w w' : World} {x : M UInt64} {data : Object}

theorem counts_toSessions (h : x w = (.ok (UInt64.ofNat w.state.getSessions.length), w'))
    (he : w'.effects = w.effects ++ toSessions w.state data) :
    Counts sessionTargets x w ↔ w.state.getSessions.length < 2 ^ 64 := by
  rw [counts_iff h he (sessionTargets_toSessions w.state data) w.state.sessions.nodup,
    ofNat_eq_iff (Nat.add_zero _).symm]
  simp

theorem counts_toOthersClients {s c : Uuid}
    (h : x w = (.ok (UInt64.ofNat w.state.getClients.length - 1), w'))
    (he : w'.effects = w.effects ++ toOthersClients w.state data s c) :
    Counts clientTargets x w ↔ ClientsExact w.state s c := by
  rw [counts_iff h he (clientTargets_toOthersClients w.state data s c)
    (nodup_otherClients w.state s c), ofNat_sub_one_eq_iff (length_getClients w.state s c),
    ClientsExact]

theorem counts_toSubscribedSessions {channel : String}
    (h : x w = (.ok (UInt64.ofNat (receivers w.state channel).length), w'))
    (he : w'.effects = w.effects ++ toSubscribedSessions w.state data channel) :
    Counts sessionTargets x w ↔ ReceiversExact w.state channel := by
  rw [counts_iff h he (sessionTargets_toSubscribedSessions w.state data channel)
    (w.state.sessions.nodup.sublist (List.filter_sublist.map _)), length_subscribed,
    ofNat_eq_iff (length_receivers w.state channel), ReceiversExact]

end

theorem counted_iff (w : World) (request : Request) (f : Counted) :
    Counts f.sent (f.run request) w ↔ f.Exact w.state := by
  cases f with
  | broadcastToClients s c data =>
    exact counts_toOthersClients (sendToOthersClients_eq _ s c w) rfl
  | publishToClients s c channel data =>
    exact counts_toOthersClients (sendToOthersClients_eq _ s c w) rfl
  | broadcastToSessions c data => exact counts_toSessions (sendToSessions_eq _ w) rfl
  | publishToSessions c channel data =>
    exact counts_toSubscribedSessions (sendToSubscribedSessions_eq _ channel w) rfl
  | joinToSessions c => exact counts_toSessions (joinToSessions_eq c w) rfl
  | leaveToSessions c => exact counts_toSessions (leaveToSessions_eq c w) rfl
  | subscribeToSessions c channel => exact counts_toSessions (sendToSessions_eq _ w) rfl
  | unsubscribeToSessions c channel => exact counts_toSessions (sendToSessions_eq _ w) rfl

/-! ## What the requester reads -/

/-- The client in whose name a command fans out to the clients. -/
def Command.fansOut : Command → Option Uuid
  | .broadcast c _ => some c
  | .publish c _ _ => some c
  | _ => none

/-- The reply to a message tells a number, and "ok" when it is positive; the number is that of
the clients on which `send` was invoked. -/
def ReportsCount (data : Object) (context : Context) (entityId : Uuid) (w : World) : Prop :=
  ∃ response w' es status n, kernel data context entityId w = (.ok response, w') ∧
    w'.effects = w.effects ++ es ∧
    response.data.find? "message" = some (.string status) ∧ (status = "ok" ↔ 0 < n) ∧
    response.data.find? "data" = some (.object [("count", .uint64 n)]) ∧
    n.toNat = (clientTargets es).dedup.length

theorem getStatus_ok (gate : Bool) : getStatus gate = "ok" ↔ gate = true := by
  cases gate <;> simp [getStatus]

theorem clientTargets_toSessions (st : State) (data : Object) :
    clientTargets (toSessions st data) = [] := by
  simp [clientTargets, toSessions, Effect.target]

/-- The effects and the reply of a command that fans out. -/
theorem outcome_fansOut (w : World) (request : Request) {command : Command} {c : Uuid}
    (h : command.fansOut = some c) :
    clientTargets (outcome w request command).effects =
      (otherClients w.state w.state.id c).map Client.id ∧
    (outcome w request command).reply = some (countReply (othersCount w.state)) := by
  cases command with
  | broadcast d payload =>
    cases h
    have hrelay := clientTargets_relayed request (clientTargets_toSessions w.state
      (makeBroadcastRequestObject request c payload))
    refine ⟨?_, rfl⟩
    simp only [outcome]
    rw [clientTargets_append, hrelay, List.append_nil, clientTargets_toOthersClients]
  | publish d channel payload =>
    cases h
    have hrelay := clientTargets_relayed request (clientTargets_toSubscribedSessions w.state
      (makePublishRequestObject request c channel payload) channel)
    refine ⟨?_, rfl⟩
    simp only [outcome]
    rw [clientTargets_append, hrelay, List.append_nil, clientTargets_toOthersClients]
  | _ => cases h

theorem reportsCount_iff {data : Object} {context : Context} {entityId t : Uuid}
    {command : Command} {c : Uuid} (w : World)
    (hd : decode data context entityId = .ok (.accepted t command))
    (hc : command.fansOut = some c) :
    ReportsCount data context entityId w ↔ ClientsExact w.state w.state.id c := by
  obtain ⟨v, runtime, hk, -, he, -⟩ := kernel_accepted w data context entityId hd (by
    rintro host sp cp rfl
    cases hc)
  obtain ⟨hsent, hreply⟩ := outcome_fansOut w (requestOf w data context entityId t) hc
  rw [hreply] at hk
  have hnd := nodup_otherClients w.state w.state.id c
  have hlen := ofNat_sub_one_eq_iff (length_getClients w.state w.state.id c)
  rw [ClientsExact, ← hlen]
  constructor
  · rintro ⟨response, w', es, status, n, hk', hes, -, -, hn, hcount⟩
    rw [hk] at hk'
    cases hk'
    rw [← List.append_cancel_left (he.symm.trans hes), hsent, hnd.dedup, List.length_map]
      at hcount
    cases hn
    exact hcount
  · intro hcount
    refine ⟨_, v, _, getStatus (0 < othersCount w.state), othersCount w.state, hk, he, rfl, ?_,
      rfl, ?_⟩
    · rw [getStatus_ok, decide_eq_true_eq]
    · rw [hsent, hnd.dedup, List.length_map]
      exact hcount

/-- **When the counts are exact**: for the members of the node, and for the requester of a
broadcast or publish. -/
theorem counts_exact_iff (w : World) :
    (∀ (request : Request) (f : Counted), Counts f.sent (f.run request) w ↔ f.Exact w.state) ∧
    (∀ (data : Object) (context : Context) (entityId t : Uuid) (command : Command) (c : Uuid),
      decode data context entityId = .ok (.accepted t command) → command.fansOut = some c →
      (ReportsCount data context entityId w ↔ ClientsExact w.state w.state.id c)) := by
  constructor
  · intro request f
    exact counted_iff w request f
  · intro data context entityId t command c hd hc
    exact reportsCount_iff w hd hc

/-! ### Two clients and none -/

/-- A peer broadcasts in the name of the first client. -/
def peerBroadcast : Text :=
  serialize (requestObject Uuid.nil "broadcast" (broadcastParams firstClient []))

theorem decode_peerBroadcast (s : Uuid) : decode peerBroadcast .onSession s =
    .ok (.accepted Uuid.nil (.broadcast firstClient [])) :=
  decode_broadcast (built_requestObject _ _ _)

/-- With two clients, of which one is the sender, one is counted. -/
theorem counts_exact_pair :
    Counts clientTargets
      ((Counted.broadcastToClients Uuid.nil firstClient []).run publication) World.pair ∧
    ReportsCount peerBroadcast .onSession secondClient World.pair := by
  have hex : ClientsExact World.pair.state World.pair.state.id firstClient := by
    constructor
    · show 1 < 2 ^ 64
      decide
    · show 1 % 2 ^ 64 = 1
      decide
  exact ⟨((counts_exact_iff World.pair).1 publication _).mpr hex,
    ((counts_exact_iff World.pair).2 _ _ _ _ _ _ (decode_peerBroadcast _) rfl).mpr hex⟩

/-- A node whose only subscription is a local one. -/
def World.subscribed : World :=
  (World.initial Uuid.nil).withState
    (State.subscribe { id := Uuid.nil } Uuid.nil firstClient "c").1

/-- Without clients the count wraps around, and the requester reads it; a local subscription
is counted as a session. -/
theorem not_counts_empty :
    broadcastToClients publication Uuid.nil firstClient [] (World.initial Uuid.nil) =
      (.ok 18446744073709551615, World.initial Uuid.nil) ∧
    ¬ Counts clientTargets ((Counted.broadcastToClients Uuid.nil firstClient []).run publication)
      (World.initial Uuid.nil) ∧
    ¬ ReportsCount peerBroadcast .onSession secondClient (World.initial Uuid.nil) ∧
    ¬ Counts sessionTargets ((Counted.publishToSessions firstClient "c" []).run publication)
      World.subscribed := by
  have hempty : ¬ ClientsExact (World.initial Uuid.nil).state Uuid.nil firstClient := by
    rintro ⟨-, h⟩
    change 0 % 2 ^ 64 = 1 at h
    omega
  refine ⟨rfl, ?_, ?_, ?_⟩
  · intro h
    exact hempty ((counted_iff _ publication (.broadcastToClients _ _ _)).mp h)
  · rw [reportsCount_iff _ (decode_peerBroadcast _) rfl]
    exact hempty
  · intro h
    obtain ⟨-, h⟩ := (counted_iff _ publication (.publishToSessions _ _ _)).mp h
    change 1 % 2 ^ 64 = 0 at h
    omega

end Aewt
