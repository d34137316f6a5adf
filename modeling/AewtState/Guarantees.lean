import AewtState.Delivery

/-!
# Broadcasts and publishes reach their clients exactly once

The requests of clients that start a `Spread`, in a cluster whose nodes share one session each.

* `broadcast_exactly_once` — a broadcast is sent once to every other client of the cluster.
* `publish_exactly_once` — once the subscriptions have been delivered, a publish is sent once
  to every subscribed client.
-/

set_option autoImplicit false

namespace Aewt

namespace Cluster

variable {N : Type} {X Y Z : Cluster N}

/-! ## Fresh tags -/

theorem Initial.fresh (h : X.Initial) : X.Fresh where
  wire m s p hp := by
    rw [h.wire] at hp
    cases hp
  log e he := by
    rw [h.log] at he
    cases he

variable [DecidableEq N]

theorem Fresh.perform (h : X.Fresh) {n : N} {tag tags : Nat} {w : World} (ht : tag < tags)
    (hle : X.tags ≤ tags) (home : Uuid → Option N) :
    Fresh { X.perform n tag w with home := home, tags := tags } where
  wire m s p hp := by
    rcases List.mem_append.mp hp with hp | hp
    · exact Nat.lt_of_lt_of_le (h.wire m s p hp) hle
    · rw [(mem_posted hp).1]
      exact ht
  log e he := by
    rcases List.mem_append.mp he with he | he
    · exact Nat.lt_of_lt_of_le (h.log e he) hle
    · obtain ⟨x, -, rfl⟩ := List.mem_map.mp he
      exact ht

theorem Fresh.of_step (h : X.Fresh) {a : Action N} (hs : X.step a = some Y) : Y.Fresh := by
  cases a with
  | connect m d env =>
    obtain ⟨-, w, -, rfl⟩ := step_connect.mp hs
    exact h.perform (Nat.lt_succ_self _) (Nat.le_succ _) _
  | request m d frame env =>
    obtain ⟨-, w, -, rfl⟩ := step_request.mp hs
    exact h.perform (Nat.lt_succ_self _) (Nat.le_succ _) X.home
  | disconnect m d env =>
    obtain ⟨-, w, -, rfl⟩ := step_disconnect.mp hs
    exact h.perform (Nat.lt_succ_self _) (Nat.le_succ _) X.home
  | deliver m s i env =>
    obtain ⟨p, hp, w, -, rfl⟩ := step_deliver.mp hs
    have htake : (X.take m s i).Fresh := ⟨fun j x p' hp' => h.wire j x p' (mem_take hp'), h.log⟩
    exact htake.perform (h.wire m s p (List.mem_of_getElem? hp)) (Nat.le_refl _) X.home

theorem Fresh.of_run (h : X.Fresh) {as : List (Action N)} (hr : Run.exec step X as = some Y) :
    Y.Fresh :=
  Run.exec_invariant (fun hI hs => hI.of_step hs) h hr

/-! ## Broadcast -/

section

variable {n : N} {c t : Uuid} {data payload : Object} {env : Env} {as : List (Action N)}

theorem nodup_sessions (st : State) : (st.getSessions.map Session.id).Nodup := st.sessions.nodup

/-- The request of a client that is fanned out to the sessions `xs`. -/
theorem spread_request (env : Env) (xs : List Session) (hl : Paired X.links) (hf : X.Fresh)
    {command : Command} {T : Text} (hc : X.Local n c)
    (hne : ∀ host sp cp, command ≠ .session host sp cp)
    (hdec : decode data .onClient c = .ok (.accepted t command)) (hfan : Fanout T c)
    (hxs : (xs.map Session.id).Nodup)
    (hout : ∀ request : Request, request.context = .onClient → request.transactionId = t →
      outcome (.start env (X.node n)) request command =
        ⟨X.node n, toClients (X.node n) c T ++ xs.map fun x => .session x.id T,
          some (countReply (othersCount (X.node n)))⟩) :
    ∃ Y, X.step (.request n c (.object data) env) = some Y ∧
      Y.Spread X.tags T n c (· ∈ xs.map Session.id) ∧ SameClients X Y ∧ Y.links = X.links := by
  cases clientRead c data (.start env (X.node n)) with
  | raised e w' eq =>
    obtain ⟨v, runtime, hk, -⟩ := kernel_accepted (World.ticked (.start env (X.node n))) data
      .onClient c hdec fun host sp cp hs => absurd hs (hne host sp cp)
    rw [Client.onRead_of_kernel hk] at eq
    cases eq
  | rejected t' field message reply w' decoded eq state effects =>
    rw [hdec] at decoded
    cases decoded
  | accepted t' command' request reply w decoded transactionId entityId context eq state
      effects answers =>
    rw [hdec] at decoded
    cases decoded
    refine ⟨_, step_request.mpr ⟨hc, w, eq, rfl⟩, ?_⟩
    have ho := hout request context transactionId
    rw [ho] at state effects
    obtain ⟨ts, rt, hreply⟩ := answers _ _ (by rw [ho])
    have heff : w.effects = toClients (X.node n) c T ++ (xs.map fun x => .session x.id T) ++
      [reply].map (.client c) := effects
    refine ⟨Spread.start hl hf hfan state heff (fun r hr => ?_) hxs, fun j d => ?_, rfl⟩
    · rw [List.mem_singleton.mp hr, hreply]
      exact acknowledges_success _ _ _ _ _
    · have hnode := X.perform_node n X.tags w j
      change ((X.perform n X.tags w).node j).Holds ((X.perform n X.tags w).node j).id _ ↔ _
      rw [hnode]
      split
      · rename_i hj
        rw [hj, state]
        rfl
      · rfl

/-- **A broadcast reaches every other client of the cluster exactly once**, in whatever order
the texts are delivered. -/
theorem broadcast_exactly_once (hm : X.Mesh) (hf : X.Fresh) (hc : X.Local n c)
    (hdec : decode data .onClient c = .ok (.accepted t (.broadcast c payload))) :
    ∃ Y, X.step (.request n c (.object data) env) = some Y ∧
      ∀ as Z, Steady Y as → Run.exec step Y as = some Z → (∀ m s, Z.pending X.tags m s = 0) →
        (∀ m d, X.Local m d → d ≠ c → Z.count X.tags m d = 1) ∧
        (∀ m, Z.count X.tags m c = 0) ∧
        ∀ e ∈ Z.log, e.tag = X.tags → acknowledges e.text = false →
          e.text = serialize (requestObject t "broadcast" (broadcastParams c payload)) := by
  have hfan := fanout_broadcast t c payload
  obtain ⟨Y, hY, hspread, hsame, hlinks⟩ := spread_request env
    (X.node n).getSessions hm.toPaired hf hc
    (by simp) hdec hfan (nodup_sessions (X.node n)) (by
      rintro request hctx rfl
      simp only [outcome, relayed, hctx, World.start, toOthersClients, toSessions, toClients,
        makeBroadcastRequestObject])
  refine ⟨Y, hY, fun as Z hst hr hq => ?_⟩
  have hpaired : Paired Y.links := by
    rw [hlinks]
    exact hm.toPaired
  obtain ⟨hspread, hsame', hlinks'⟩ := hspread.of_run hfan hpaired hst hr
  obtain ⟨horigin, hreach⟩ := hspread.delivered hq
  have honce : ∀ m, Z.Once X.tags c m := by
    intro m
    by_cases hmn : m = n
    · rw [hmn]
      exact horigin
    · obtain ⟨s, s', hl⟩ := hm.total hmn
      refine (hreach m s s' (by rw [hlinks', hlinks]; exact hl)).1 ?_
      exact List.mem_map.mpr (Table.hasKey_iff.mp (hm.known (hm.symm hl)))
  refine ⟨fun m d hd hdc => ?_, fun m => ?_, hspread.logged⟩
  · rw [honce m d, if_pos ⟨(hsame' m d).mpr ((hsame m d).mpr hd), hdc⟩]
  · rw [honce m c, if_neg (fun h => h.2 rfl)]

/-- A client's message with a transaction id and parameters. -/
theorem decode_requestObject (t c : Uuid) (action : String) (params : Object) :
    decode (requestObject t action params) .onClient c =
      (decodeAction ⟨t, c, .onClient, requestObject t action params, 0⟩ action).decoded t := by
  have ha : (requestObject t action params).find? "action" = some (.string action) := by
    simp [requestObject]
  have ht : (requestObject t action params).find? "transaction_id" =
      some (.string t.toString) := by
    simp [requestObject]
  exact decode_of_envelope ha ⟨ht, isUuid_toString t⟩ (lexicalCast_toString t)

/-- A broadcast that a client asks for. -/
def broadcastRequest (payload : Object) : Object :=
  requestObject Uuid.nil "broadcast" [("payload", .object payload)]

theorem decode_broadcastRequest (c : Uuid) (payload : Object) :
    decode (broadcastRequest payload) .onClient c =
      .ok (.accepted Uuid.nil (.broadcast c payload)) := by
  rw [broadcastRequest, decode_requestObject, decodeAction_broadcast]
  rfl

/-- A broadcast of the first client, delivered after its join. -/
theorem broadcast_reaches_secondClient : ∃ X Z,
    Run.exec step duo [.connect false firstClient still, .connect true secondClient still] =
      some X ∧
    Run.exec step X [.request false firstClient (.object (broadcastRequest [])) still,
      .deliver true (duoSession true) 0 still, .deliver true (duoSession true) 0 still] =
      some Z ∧
    Z.count X.tags true secondClient = 1 ∧ ∀ m, Z.count X.tags m firstClient = 0 := by
  have heval : ((Run.exec step duo [.connect false firstClient still,
        .connect true secondClient still]).any fun X =>
      (X.step (.request false firstClient (.object (broadcastRequest [])) still)).any fun Y =>
      (Y.step (.deliver true (duoSession true) 0 still)).any fun Y' =>
      (Y'.step (.deliver true (duoSession true) 0 still)).any fun Z =>
      decide ((∀ m, Z.pending X.tags m (duoSession m) = 0) ∧ X.Local false firstClient ∧
        X.Local true secondClient ∧ SameRows Y Y' ∧ SameRows Y' Z)) = true := by
    decide +kernel
  simp only [Option.any_eq_true, decide_eq_true_eq] at heval
  obtain ⟨X, hX, Y, hY, Y', hY', Z, hZ, hq, hfirst, hsecond, hrows, hrows'⟩ := heval
  have hI := initial_duo.inv.of_run (by simp [InOrder]) hX
  have hYZ := Run.exec_cons.mpr ⟨Y', hY', Run.exec_cons.mpr ⟨Z, hZ, Run.exec_nil Z⟩⟩
  have hXZ := Run.exec_cons.mpr ⟨Y, hY, hYZ⟩
  have hst : Steady Y [.deliver true (duoSession true) 0 still,
      .deliver true (duoSession true) 0 still] :=
    steady_cons hY' hrows.sameClients (steady_cons hZ hrows'.sameClients trivial)
  obtain ⟨V, hV, hrun⟩ := broadcast_exactly_once hI.mesh (initial_duo.fresh.of_run hX) hfirst
    (decode_broadcastRequest firstClient [])
  cases hY.symm.trans hV
  obtain ⟨hsent, hsender, -⟩ := hrun _ Z hst hYZ
    (duo_pending (by simp [InOrder]) (Run.exec_append.mpr ⟨X, hX, hXZ⟩) hq)
  exact ⟨X, Z, hX, hXZ, hsent true secondClient hsecond (by decide), hsender⟩

/-! ## Publish -/

/-- No text in flight adds or removes a subscription to `ch`. -/
def SubscriptionsDelivered (X : Cluster N) (ch : String) : Prop :=
  ∀ m s, ∀ p ∈ X.wire m s, ∀ d b, updateOf s p.text ≠ some (.subscription d ch, b)

/-- **A publish reaches every other subscribed client of the cluster exactly once**, when
nothing about the channel was in flight. -/
theorem publish_exactly_once {X₀ : Cluster N} {history : List (Action N)} {ch : String}
    (h₀ : X₀.Initial) (ho : ∀ a ∈ history, InOrder a) (hX : Run.exec step X₀ history = some X)
    (hdel : X.SubscriptionsDelivered ch) (hc : X.Local n c)
    (hdec : decode data .onClient c = .ok (.accepted t (.publish c ch payload))) :
    ∃ Y, X.step (.request n c (.object data) env) = some Y ∧
      ∀ as Z, Steady Y as → Run.exec step Y as = some Z → (∀ m s, Z.pending X.tags m s = 0) →
        (∀ m d, X.Local m d → d ≠ c →
          (X.node m).Holds (X.node m).id (.subscription d ch) → Z.count X.tags m d = 1) ∧
        ∀ e ∈ Z.log, e.tag = X.tags → acknowledges e.text = false →
          e.text = serialize (requestObject t "publish" (publishParams c ch payload)) := by
  have hinv : X.Inv := h₀.inv.of_run ho hX
  have hm : X.Mesh := hinv.mesh
  have hfan := fanout_publish t c ch payload
  obtain ⟨Y, hY, hspread, hsame, hlinks⟩ := spread_request env
    ((X.node n).getSessions.filter fun s => s.id ∈ receivers (X.node n) ch) hm.toPaired
    (h₀.fresh.of_run hX) hc (by simp) hdec hfan
    ((nodup_sessions (X.node n)).sublist (List.filter_sublist.map _)) (by
      rintro request hctx rfl
      simp only [outcome, relayed, hctx, World.start, toOthersClients, toSubscribedSessions,
        toClients, makePublishRequestObject]
      rfl)
  refine ⟨Y, hY, fun as Z hst hr hq => ?_⟩
  have hpaired : Paired Y.links := by
    rw [hlinks]
    exact hm.toPaired
  obtain ⟨hspread, hsame', hlinks'⟩ := hspread.of_run hfan hpaired hst hr
  obtain ⟨horigin, hreach⟩ := hspread.delivered hq
  refine ⟨fun m d hd hdc hsub => ?_, hspread.logged⟩
  have honce : Z.Once X.tags c m := by
    by_cases hmn : m = n
    · rw [hmn]
      exact horigin
    · obtain ⟨s, s', hl⟩ := hm.total hmn
      refine (hreach m s s' (by rw [hlinks', hlinks]; exact hl)).1 ?_
      -- the publisher's node mirrors the subscription, so the session is a receiver
      have hrow : (X.node n).Holds s' (.subscription d ch) :=
        (hinv.mirror (hm.symm hl) fun p hp b => hdel n s' p hp d b).mpr hsub
      have hrec : s' ∈ receivers (X.node n) ch := mem_receivers.mpr ⟨_, hrow, rfl, rfl⟩
      obtain ⟨x, hx, hid⟩ := Table.hasKey_iff.mp (hm.known (hm.symm hl))
      exact List.mem_map.mpr ⟨x, List.mem_filter.mpr ⟨hx, by simpa [hid] using hrec⟩, hid⟩
  rw [honce d, if_pos ⟨(hsame' m d).mpr ((hsame m d).mpr hd), hdc⟩]

/-- A publish that a client asks for. -/
def publishRequest (ch : String) (payload : Object) : Object :=
  requestObject Uuid.nil "publish" [("channel", .string ch), ("payload", .object payload)]

theorem decode_publishRequest (c : Uuid) (ch : String) (payload : Object) :
    decode (publishRequest ch payload) .onClient c =
      .ok (.accepted Uuid.nil (.publish c ch payload)) := by
  rw [publishRequest, decode_requestObject, decodeAction_publish]
  rfl

/-- While only the coming of a client is on its way, all subscriptions have been delivered. -/
theorem duo_subscriptionsDelivered {as : List (Action Bool)} {Z : Cluster Bool} {ch : String}
    {d : Uuid} (ho : ∀ a ∈ as, InOrder a) (hr : Run.exec step duo as = some Z)
    (hu : ∀ m, ∀ p ∈ Z.wire m (duoSession m),
      updateOf (duoSession m) p.text = some (.client d, true)) : Z.SubscriptionsDelivered ch := by
  intro m s p hp d' b h
  have hs := duo_wire ho hr hp
  subst hs
  rw [hu m p hp] at h
  cases h

/-- The second client subscribes, and the first one publishes when its node knows. -/
theorem publish_reaches_secondClient : ∃ X Z,
    Run.exec step duo [.connect true secondClient still,
      .request true secondClient
        (.object (requestObject Uuid.nil "subscribe" [("channel", .string "x")])) still,
      .deliver false (duoSession false) 0 still, .deliver false (duoSession false) 0 still,
      .deliver true (duoSession true) 0 still, .deliver true (duoSession true) 0 still,
      .connect false firstClient still] = some X ∧
    Run.exec step X [.request false firstClient (.object (publishRequest "x" [])) still,
      .deliver true (duoSession true) 0 still, .deliver true (duoSession true) 0 still] =
      some Z ∧
    Z.count X.tags true secondClient = 1 := by
  have heval : ((Run.exec step duo [.connect true secondClient still,
        .request true secondClient
          (.object (requestObject Uuid.nil "subscribe" [("channel", .string "x")])) still,
        .deliver false (duoSession false) 0 still, .deliver false (duoSession false) 0 still,
        .deliver true (duoSession true) 0 still, .deliver true (duoSession true) 0 still,
        .connect false firstClient still]).any fun X =>
      (X.step (.request false firstClient (.object (publishRequest "x" [])) still)).any fun Y =>
      (Y.step (.deliver true (duoSession true) 0 still)).any fun Y' =>
      (Y'.step (.deliver true (duoSession true) 0 still)).any fun Z =>
      decide ((∀ m, Z.pending X.tags m (duoSession m) = 0) ∧ X.Local false firstClient ∧
        X.Local true secondClient ∧
        ((X.node true).id = duoId true ∧
          ⟨duoId true, secondClient, "x"⟩ ∈ (X.node true).subscriptions.rows) ∧
        (∀ m, ∀ p ∈ X.wire m (duoSession m),
          updateOf (duoSession m) p.text = some (.client firstClient, true)) ∧
        SameRows Y Y' ∧ SameRows Y' Z)) = true := by
    decide +kernel
  simp only [Option.any_eq_true, decide_eq_true_eq] at heval
  obtain ⟨X, hX, Y, hY, Y', hY', Z, hZ, hq, hfirst, hsecond, hsub, hdel, hrows, hrows'⟩ := heval
  have hYZ := Run.exec_cons.mpr ⟨Y', hY', Run.exec_cons.mpr ⟨Z, hZ, Run.exec_nil Z⟩⟩
  have hXZ := Run.exec_cons.mpr ⟨Y, hY, hYZ⟩
  have hst : Steady Y [.deliver true (duoSession true) 0 still,
      .deliver true (duoSession true) 0 still] :=
    steady_cons hY' hrows.sameClients (steady_cons hZ hrows'.sameClients trivial)
  obtain ⟨V, hV, hrun⟩ := publish_exactly_once initial_duo (by simp [InOrder]) hX
    (duo_subscriptionsDelivered (by simp [InOrder]) hX hdel) hfirst
    (decode_publishRequest firstClient "x" [])
  cases hY.symm.trans hV
  obtain ⟨hsent, -⟩ := hrun _ Z hst hYZ
    (duo_pending (by simp [InOrder]) (Run.exec_append.mpr ⟨X, hX, hXZ⟩) hq)
  refine ⟨X, Z, hX, hXZ, hsent true secondClient hsecond (by decide) ?_⟩
  have hid : (X.node true).id = duoId true := hsub.1
  rw [hid]
  exact hsub.2

end

end Cluster

end Aewt
