import AewtState.Raising

/-!
# Whom a publish reaches

* `clientTargets` — the clients on which `send` was called, in order.
* `publishTargets` — those of one run of `publish_handler`.
* `Subscriber` — the clients a publish is meant for.

Principal results: `publishTargets_eq` — the handler sends to every other local client once,
in both contexts, whatever the subscriptions are; `publish_subscribers_iff` — so it reaches
exactly the subscribers when every other local client is one.
-/

set_option autoImplicit false

namespace Aewt

def Effect.target : Effect → Option Uuid
  | .client id _ => some id
  | _ => none

/-- The clients that are sent something. -/
def clientTargets (es : List Effect) : List Uuid := es.filterMap Effect.target

@[simp] theorem clientTargets_append (es fs : List Effect) :
    clientTargets (es ++ fs) = clientTargets es ++ clientTargets fs := List.filterMap_append

theorem clientTargets_toOthersClients (st : State) (data : Object) (s p : Uuid) :
    clientTargets (toOthersClients st data s p) = (otherClients st s p).map Client.id := by
  simp only [clientTargets, toOthersClients, List.filterMap_map]
  exact congrFun (List.filterMap_eq_map (f := Client.id)) _

theorem clientTargets_toSubscribedSessions (st : State) (data : Object) (ch : String) :
    clientTargets (toSubscribedSessions st data ch) = [] := by
  simp [clientTargets, toSubscribedSessions, Effect.target]

/-- What is relayed to sessions is not sent to a client. -/
theorem clientTargets_relayed (request : Request) {es : List Effect} (h : clientTargets es = []) :
    clientTargets (relayed request es) = [] := by
  unfold relayed
  cases request.context
  · rfl
  · exact h

/-- The clients that one run of `publish_handler` sends to. -/
def publishTargets (request : Request) (w : World) : List Uuid :=
  clientTargets ((publishHandler request w).2.effects.drop w.effects.length)

/-- A local client other than the publisher with the subscription. -/
def Subscriber (st : State) (publisher : Uuid) (channel : String) (c : Uuid) : Prop :=
  (∃ row ∈ st.clients, row.id = c ∧ row.sessionId = st.id) ∧ c ≠ publisher ∧
    ⟨st.id, c, channel⟩ ∈ st.subscriptions

section

variable {request : Request} {p : Uuid} {ch : String} {payload : Object}

/-- **The local part of a publish ignores the channel.** -/
theorem publishTargets_eq (h : decodePublish request = .ok (.ok (.publish p ch payload)))
    (w : World) :
    publishTargets request w = (otherClients w.state w.state.id p).map Client.id := by
  obtain ⟨w', hw, hp⟩ := perform_spec w request (.publish p ch payload) (by simp)
  have hrun : publishHandler request w = (.ok (), w') := by
    rw [publishHandler_eq, h]
    exact hw
  have hrelay := clientTargets_relayed request (clientTargets_toSubscribedSessions w.state
    (makePublishRequestObject request p ch payload) ch)
  rw [publishTargets, hrun]
  simp only [hp.effects, List.drop_left]
  simp only [outcome, clientTargets_append, clientTargets_toOthersClients, hrelay,
    List.append_nil]

theorem mem_otherClients {st : State} {s c : Uuid} :
    c ∈ (otherClients st s p).map Client.id ↔
      ∃ row ∈ st.clients, row.id = c ∧ row.id ≠ p ∧ row.sessionId = s := by
  simp only [otherClients, State.getClients, List.mem_map, List.mem_filter, Table.mem_def,
    decide_eq_true_eq]
  constructor
  · rintro ⟨row, ⟨hr, hp, hs⟩, hc⟩
    exact ⟨row, hr, hc, hp, hs⟩
  · rintro ⟨row, hr, hc, hp, hs⟩
    exact ⟨row, ⟨hr, hp, hs⟩, hc⟩

/-- No client is sent a fanned-out message twice. -/
theorem nodup_otherClients (st : State) (s p : Uuid) :
    ((otherClients st s p).map Client.id).Nodup :=
  st.clients.nodup.sublist (List.filter_sublist.map Client.id)

/-- **A publish reaches exactly the subscribers, each once, when and only when every local
client other than the publisher is subscribed to the channel.** -/
theorem publish_subscribers_iff
    (h : decodePublish request = .ok (.ok (.publish p ch payload))) (w : World) :
    ((publishTargets request w).Nodup ∧
      ∀ c, c ∈ publishTargets request w ↔ Subscriber w.state p ch c) ↔
    ∀ row ∈ w.state.clients, row.sessionId = w.state.id → row.id ≠ p →
      ⟨w.state.id, row.id, ch⟩ ∈ w.state.subscriptions := by
  rw [publishTargets_eq h]
  constructor
  · rintro ⟨-, hall⟩ row hrow hs hp
    exact ((hall row.id).mp (mem_otherClients.mpr ⟨row, hrow, rfl, hp, hs⟩)).2.2
  · intro hall
    refine ⟨nodup_otherClients _ _ _, fun c => ?_⟩
    rw [mem_otherClients]
    constructor
    · rintro ⟨row, hrow, rfl, hp, hs⟩
      exact ⟨⟨row, hrow, rfl, hs⟩, hp, hall row hrow hs hp⟩
    · rintro ⟨⟨row, hrow, rfl, hs⟩, hp, -⟩
      exact ⟨row, hrow, rfl, hp, hs⟩

end

/-! ## A client that did not subscribe -/

def firstClient : Uuid := ⟨List.replicate 16 1, rfl⟩

def secondClient : Uuid := ⟨List.replicate 16 2, rfl⟩

/-- A node with two local clients and no subscription. -/
def World.pair : World :=
  (World.initial Uuid.nil).withState
    (((State.mk Uuid.nil {} (Table.empty _) (Table.empty _) (Table.empty _)).addClient
      ⟨firstClient, Uuid.nil⟩).1.addClient ⟨secondClient, Uuid.nil⟩).1

/-- `firstClient` publishes an empty object on `"c"`. -/
def publication : Request :=
  ⟨Uuid.nil, firstClient, .onClient, [("action", .string "publish"),
    ("params", .object [("channel", .string "c"), ("payload", .object [])])], 0⟩

theorem decodePublish_publication :
    decodePublish publication = .ok (.ok (.publish firstClient "c" [])) := rfl

/-- At the publication the theorem's condition fails. -/
theorem publish_subscribers_publication :
    ((publishTargets publication World.pair).Nodup ∧ ∀ c, c ∈ publishTargets publication
      World.pair ↔ Subscriber World.pair.state firstClient "c" c) ↔
    ∀ row ∈ World.pair.state.clients, row.sessionId = World.pair.state.id →
      row.id ≠ firstClient →
      ⟨World.pair.state.id, row.id, "c"⟩ ∈ World.pair.state.subscriptions :=
  publish_subscribers_iff decodePublish_publication World.pair

/-- The second client is sent it without a subscription. -/
theorem publish_reaches_unsubscribed :
    secondClient ∈ publishTargets publication World.pair ∧
    ¬ Subscriber World.pair.state firstClient "c" secondClient := by
  constructor
  · rw [publishTargets_eq decodePublish_publication]
    decide
  · rintro ⟨-, -, h⟩
    exact absurd h (Table.not_mem_empty _)

end Aewt
