import AewtState.Notices

/-!
# A recipient cannot tell where the sender is

`broadcast`, `publish` and `send` reach a client of the sender's node directly and a client of
another node over a session and a second kernel.

* `Command.Addressed` — the three commands; `Command.object` — the object they put in front of
  a recipient.
* `sent` — what one call of the kernel sends.

Principal result: `location_transparent` — both ways deliver the same object; only `send` draws
a new transaction id on each hop.
-/

set_option autoImplicit false

namespace Aewt

/-- What a call of the kernel sends. -/
def sent (data : Object) (context : Context) (entityId : Uuid) (env : Env) (st : State) :
    List Effect := (kernel data context entityId (.start env st)).2.effects

/-- The three requests with recipients. -/
inductive Command.Addressed : Command → Prop where
  | broadcast (c : Uuid) (payload : Object) : Addressed (.broadcast c payload)
  | publish (c : Uuid) (channel : String) (payload : Object) :
    Addressed (.publish c channel payload)
  | send (f c : Uuid) (payload : Object) : Addressed (.send f c payload)

def Command.isSend : Command → Bool
  | .send .. => true
  | _ => false

/-- The object for a recipient. -/
def Command.object (t : Uuid) : Command → Object
  | .broadcast c payload => requestObject t "broadcast" (broadcastParams c payload)
  | .publish c channel payload => requestObject t "publish" (publishParams c channel payload)
  | .send f c payload => sendObject t f c payload
  | _ => []

/-- The command as a peer reads it. -/
def Command.wire : Command → Command
  | .broadcast c payload => .broadcast c payload.wire
  | .publish c channel payload => .publish c channel payload.wire
  | .send f c payload => .send f c payload.wire
  | command => command

@[simp] theorem Command.isSend_wire (command : Command) :
    command.wire.isSend = command.isSend := by
  cases command <;> rfl

theorem Command.Addressed.wire {command : Command} (h : command.Addressed) :
    command.wire.Addressed := by
  cases h with
  | broadcast c payload => exact .broadcast c payload.wire
  | publish c channel payload => exact .publish c channel payload.wire
  | send f c payload => exact .send f c payload.wire

/-- A second hop writes the text of the first. -/
theorem Command.serialize_object_wire {command : Command} (h : command.Addressed) (t : Uuid) :
    serialize (command.wire.object t) = serialize (command.object t) := by
  cases h with
  | broadcast c payload =>
    simp [Command.wire, Command.object, serialize, requestObject, broadcastParams]
  | publish c channel payload =>
    simp [Command.wire, Command.object, serialize, requestObject, publishParams]
  | send f c payload =>
    simp [Command.wire, Command.object, serialize, sendObject, requestObject, sendParams]

/-- Two texts of one command differ in the transaction id at most. -/
theorem Command.without_object {command : Command} (h : command.Addressed) (t t' : Uuid) :
    (serialize (command.object t)).without ["transaction_id"] =
      (serialize (command.object t')).without ["transaction_id"] := by
  cases h <;> simp [Command.object, serialize, sendObject, requestObject, Object.without]

theorem Command.decode_object {command : Command} (h : command.Addressed) (t s : Uuid) :
    decode (serialize (command.object t)) .onSession s = .ok (.accepted t command.wire) := by
  cases h with
  | broadcast c payload => exact decode_broadcast (built_requestObject _ _ _)
  | publish c channel payload => exact decode_publish (built_requestObject _ _ _)
  | send f c payload => exact decode_send (built_requestObject _ _ _)

/-! ## What the kernel sends -/

section

variable {data : Object} {context : Context} {entityId t : Uuid} {command : Command} {env : Env}
  {st : State}

theorem sent_accepted (h : decode data context entityId = .ok (.accepted t command))
    (hn : ∀ host sp cp, command ≠ .session host sp cp) :
    sent data context entityId env st = (outcome (.start env st)
      (requestOf (.start env st) data context entityId t) command).effects := by
  obtain ⟨w', runtime, hk, -, he, -⟩ := kernel_accepted (.start env st) data context entityId h
    fun host sp cp hs => absurd hs (hn host sp cp)
  rw [sent, hk]
  exact he.trans (List.nil_append _)

theorem Command.Addressed.ne_session (h : command.Addressed) (host : String) (sp cp : UInt64) :
    command ≠ .session host sp cp := by
  cases h <;> simp

/-- The text of an effect, when it sends one. -/
def Effect.text? : Effect → Option Text
  | .session _ text | .client _ text => some text
  | .dial _ _ _ => none

/-- Clients and sessions alike are sent the object of the command. -/
theorem outcome_object {w : World} {request : Request} (h : command.Addressed) {e : Effect}
    (he : e ∈ (outcome w request command).effects) {text : Text} (ht : e.text? = some text) :
    ∃ t', text = serialize (command.object t') ∧
      (command.isSend = false → t' = request.transactionId) := by
  have hmap : ∀ {α : Type} {as : List α} {f : α → Effect} {T : Text}, e ∈ as.map f →
      (∀ a, (f a).text? = some T) → text = T := by
    intro α as f T hm hf
    obtain ⟨a, -, rfl⟩ := List.mem_map.mp hm
    exact Option.some.inj (ht.symm.trans (hf a))
  cases h with
  | broadcast c payload =>
    refine ⟨request.transactionId, ?_, fun _ => rfl⟩
    rcases List.mem_append.mp he with he | he
    · exact hmap he fun _ => rfl
    · exact hmap (mem_relayed he).2 fun _ => rfl
  | publish c channel payload =>
    refine ⟨request.transactionId, ?_, fun _ => rfl⟩
    rcases List.mem_append.mp he with he | he
    · exact hmap he fun _ => rfl
    · exact hmap (mem_relayed he).2 fun _ => rfl
  | send f c payload =>
    refine ⟨w.env.random w.drawn, ?_, fun h => absurd h (by simp [Command.isSend])⟩
    simp only [outcome, sendOutcome] at he
    split at he
    · rename_i row hrow
      have hid : row.id = c := (Table.find?_eq_some.mp hrow).2
      rw [hid] at he
      split at he
      · rw [List.mem_singleton] at he
        subst he
        exact (Option.some.inj ht).symm
      · split at he
        · exact hmap he fun _ => rfl
        · cases he
    · cases he

/-- What one call sends, in terms of what the message decodes to. -/
theorem sent_object (hd : decode data context entityId = .ok (.accepted t command))
    (h : command.Addressed) {e : Effect} (he : e ∈ sent data context entityId env st)
    {text : Text} (ht : e.text? = some text) :
    ∃ t', text = serialize (command.object t') ∧ (command.isSend = false → t' = t) := by
  rw [sent_accepted hd h.ne_session] at he
  exact outcome_object h he ht

end

/-- **Location transparency.**  Client `e` makes a request on its node (`home`), which forwards
it to a peer; the object the peer hands to a client is the object the node hands to its own
clients (in any state `near` of it), but for the transaction id of a `send`. -/
theorem location_transparent {data : Object} {e t : Uuid} {command : Command}
    (hd : decode data .onClient e = .ok (.accepted t command)) (h : command.Addressed)
    {homeEnv peerEnv nearEnv : Env} {home peer near : State} {s s' r r' : Uuid}
    {forwarded far own : Text}
    (hf : .session s forwarded ∈ sent data .onClient e homeEnv home)
    (hp : .client r far ∈ sent forwarded .onSession s' peerEnv peer)
    (hn : .client r' own ∈ sent data .onClient e nearEnv near) :
    far.without ["transaction_id"] = own.without ["transaction_id"] ∧
    (command.isSend = false → far = own) := by
  obtain ⟨t₁, rfl, h₁⟩ := sent_object hd h hf rfl
  obtain ⟨t₂, rfl, h₂⟩ := sent_object (Command.decode_object h t₁ s') h.wire hp rfl
  obtain ⟨t₃, rfl, h₃⟩ := sent_object hd h hn rfl
  rw [Command.serialize_object_wire h]
  refine ⟨Command.without_object h t₂ t₃, fun hk => ?_⟩
  rw [h₂ (by simpa using hk), h₁ hk, h₃ hk]

/-! ## One broadcast over two nodes -/

theorem mem_toOthersClients {st : State} {data : Object} {o c : Uuid} {row : Client}
    (hrow : row ∈ st.clients) (hc : row.id ≠ c) (ho : row.sessionId = o) :
    Effect.client row.id (serialize data) ∈ toOthersClients st data o c :=
  List.mem_map.mpr ⟨row, List.mem_filter.mpr ⟨hrow, by simp [hc, ho]⟩, rfl⟩

theorem mem_toSessions {st : State} {data : Object} {x : Session} (hx : x ∈ st.sessions) :
    Effect.session x.id (serialize data) ∈ toSessions st data :=
  List.mem_map.mpr ⟨x, hx, rfl⟩

/-- The empty payload, broadcast. -/
def broadcastData : Object :=
  [("action", .string "broadcast"), ("transaction_id", .string Uuid.nil.toString),
    ("params", .object [("payload", .object [])])]

theorem decode_broadcastData :
    decode broadcastData .onClient firstClient =
      .ok (.accepted Uuid.nil (.broadcast firstClient [])) := by
  rw [decode_of_envelope rfl ⟨rfl, isUuid_toString _⟩ (lexicalCast_toString _),
    decodeAction_broadcast]
  rfl

/-- A node with two local clients and one session. -/
def State.trio : State := (World.pair.state.addSession { id := secondClient }).1

/-- What its recipients are sent. -/
def broadcastCopy : Text :=
  serialize (requestObject Uuid.nil "broadcast" (broadcastParams firstClient []))

theorem decode_broadcastCopy (s : Uuid) :
    decode broadcastCopy .onSession s = .ok (.accepted Uuid.nil (.broadcast firstClient [])) :=
  decode_broadcast (built_requestObject _ _ _)

/-- The second client gets one object, from its own node or from the peer. -/
theorem location_transparent_broadcast :
    .session secondClient broadcastCopy ∈
      sent broadcastData .onClient firstClient World.pair.env State.trio ∧
    .client secondClient broadcastCopy ∈
      sent broadcastCopy .onSession firstClient World.pair.env World.pair.state ∧
    .client secondClient broadcastCopy ∈
      sent broadcastData .onClient firstClient World.pair.env State.trio ∧
    broadcastCopy.without ["transaction_id"] = broadcastCopy.without ["transaction_id"] ∧
    ((Command.broadcast firstClient []).isSend = false → broadcastCopy = broadcastCopy) := by
  have hrow : ⟨secondClient, Uuid.nil⟩ ∈ World.pair.state.clients := by
    rw [Table.mem_def]
    decide
  have hf : .session secondClient broadcastCopy ∈
      sent broadcastData .onClient firstClient World.pair.env State.trio := by
    rw [sent_accepted decode_broadcastData (by simp)]
    have hx : { id := secondClient } ∈ State.trio.sessions := Table.mem_insert.mpr (.inr ⟨rfl, rfl⟩)
    exact List.mem_append_right _ (mem_toSessions hx)
  have hn : .client secondClient broadcastCopy ∈
      sent broadcastData .onClient firstClient World.pair.env State.trio := by
    rw [sent_accepted decode_broadcastData (by simp)]
    exact List.mem_append_left _ (mem_toOthersClients hrow (by decide) rfl)
  have hp : .client secondClient broadcastCopy ∈
      sent broadcastCopy .onSession firstClient World.pair.env World.pair.state := by
    rw [sent_accepted (decode_broadcastCopy firstClient) (by simp)]
    exact List.mem_append_left _ (mem_toOthersClients hrow (by decide) rfl)
  exact ⟨hf, hp, hn, location_transparent decode_broadcastData (.broadcast firstClient []) hf hp hn⟩

end Aewt
