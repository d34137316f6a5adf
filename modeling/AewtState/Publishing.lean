import AewtState.Strands
import AewtState.Threads

/-!
# The two parts of a publish

`publish_handler` sends to the clients of its node, and then looks up the subscribed sessions.
Other handlers may run in between.

* `Publishing` — what the handler has still to do when it has sent to the clients.
* `Strand.cut` — what the handler of a frame does up to there, and what is then due.

Principal results: `cut_alone` — a publish that nothing interrupts sends what its handler sends;
`cut_sections` — it is cut between two of its critical sections.
-/

set_option autoImplicit false

namespace Aewt

/-- What `publish_handler` has still to do after `publish_to_clients`. -/
structure Publishing where
  transactionId : Uuid
  clientId : Uuid
  channel : String
  payload : Object
  /-- The response to the client. -/
  reply : List Effect := []

namespace Publishing

variable (p : Publishing)

/-- `make_publish_request_object`. -/
def message : Object :=
  requestObject p.transactionId "publish" (publishParams p.clientId p.channel p.payload)

/-- `publish_to_clients`. -/
def toClients (st : State) : List Effect := toOthersClients st p.message st.id p.clientId

/-- `publish_to_sessions` and the response. -/
def effects (st : State) : List Effect :=
  toSubscribedSessions st p.message p.channel ++ p.reply

end Publishing

section

variable {N : Type} (t : Strand N) (f : Frame) (st : State) (w : World)

/-- The publish that a frame of the connection asks for. -/
def Strand.publish? : Option Publishing :=
  match t.context, f with
  | .onClient, .object data =>
    match decode data .onClient t.id with
    | .ok (.accepted transactionId (.publish clientId channel payload)) =>
      some { transactionId, clientId, channel, payload }
    | _ => none
  | _, _ => none

/-- The handler that reads `f` and ends in `w`, up to the lookup of the subscribed sessions if it
is that of a publish, and what is due then. -/
def Strand.cut : World × Option Publishing :=
  match t.publish? f with
  | some p => ({ w with effects := p.toClients st },
      some { p with reply := w.effects.drop (p.toClients st ++ p.effects st).length })
  | none => (w, none)

variable {t f st w}

theorem publish?_eq_some {p : Publishing} (h : t.publish? f = some p) : t.context = .onClient ∧
    p.reply = [] ∧ ∃ data, f = .object data ∧ decode data .onClient t.id =
      .ok (.accepted p.transactionId (.publish p.clientId p.channel p.payload)) := by
  unfold Strand.publish? at h
  split at h
  · rename_i data hc
    split at h
    · rename_i hd
      cases h
      exact ⟨hc, rfl, data, rfl, hd⟩
    · cases h
  · cases h

/-- Sessions forward nothing. -/
theorem publish?_session {N : Type} (n : N) (s : Uuid) (f : Frame) :
    (⟨n, .onSession, s⟩ : Strand N).publish? f = none := rfl

theorem cut_of_none (hp : t.publish? f = none) : t.cut f st w = (w, none) := by
  rw [Strand.cut, hp]

/-- The handler of a publish sends to the clients and to the subscribed sessions, and answers. -/
theorem cut_of_some {p : Publishing} {env : Env} (hp : t.publish? f = some p)
    (h : t.onRead f (.start env st) = (.ok (), w)) : ∃ q : Publishing,
      (∃ message timestamp runtime data, q = { p with reply := [.client t.id
        (serialize (successData p.transactionId message timestamp runtime data))] }) ∧
      t.cut f st w = ({ w with effects := q.toClients st }, some q) ∧
      w.state = st ∧ w.effects = q.toClients st ++ q.effects st := by
  obtain ⟨n, context, c⟩ := t
  obtain ⟨hcontext, hreply, data, rfl, hd⟩ := publish?_eq_some hp
  obtain rfl : context = .onClient := hcontext
  have h' : Client.onRead c (.object data) (.start env st) = (.ok (), w) := h
  cases clientRead c data (.start env st) with
  | raised e w' eq =>
    rw [eq] at h'
    cases h'
  | rejected t field message reply w' decoded eq state effects =>
    cases hd.symm.trans decoded
  | accepted t command request reply w' decoded transactionId entityId context eq state effects
      answers =>
    rw [eq] at h'
    cases h'
    cases hd.symm.trans decoded
    have heff : w.effects = (p.toClients st ++ p.effects st) ++ [.client c reply] := by
      simp [effects, outcome, relayed, context, makePublishRequestObject, transactionId,
        Publishing.toClients, Publishing.effects, Publishing.message, hreply, World.start]
    obtain ⟨timestamp, runtime, hsuccess⟩ := answers _ _ rfl
    refine ⟨{ p with reply := [.client c reply] },
      ⟨_, timestamp, runtime, _, by rw [hsuccess]⟩, ?_, state, ?_⟩
    · rw [Strand.cut, hp]
      simp only [heff, List.drop_left]
      rfl
    · rw [heff]
      simp [Publishing.toClients, Publishing.effects, Publishing.message, hreply]

/-- **A publish that nothing interrupts sends what its handler sends**, and other handlers are not
cut. -/
theorem cut_alone {env : Env} (h : t.onRead f (.start env st) = (.ok (), w)) :
    (t.cut f st w).1.state = w.state ∧ w.effects = (t.cut f st w).1.effects ++
      ((t.cut f st w).2.map fun p => p.effects st).getD [] := by
  cases hp : t.publish? f with
  | none =>
    rw [cut_of_none hp]
    exact ⟨rfl, (List.append_nil _).symm⟩
  | some p =>
    obtain ⟨q, -, hcut, -, heff⟩ := cut_of_some hp h
    rw [hcut]
    exact ⟨rfl, heff⟩

/-- **A publish is cut between its critical sections.**  The first looks up the clients and leaves
`codeSubscribed`; that sends to the sessions what is due, as the stores are when it looks up the
receivers, if the receivers have the same sessions when it looks up these. -/
theorem cut_sections {env : Env} {drawn : Nat} {request : Request} (p : Publishing)
    {reply : Option (String × Object)} {st st' st'' : State}
    (hcontext : request.context = .onClient) (ht : request.transactionId = p.transactionId)
    (hsame : (st''.getSessions.map Session.id).filter (· ∈ receivers st' p.channel) =
      (st'.getSessions.map Session.id).filter (· ∈ receivers st' p.channel)) :
    (codeOf env drawn request (.publish p.clientId p.channel p.payload)).enter st =
      (st, codeSubscribed (p.toClients st) p.message p.channel
        (some (countReply (othersCount st)))) ∧
    (((codeSubscribed (p.toClients st) p.message p.channel reply).enter st').2.enter st'').2 =
      .done (p.toClients st ++ toSubscribedSessions st' p.message p.channel, reply) := by
  refine ⟨?_, ?_⟩
  · have hmessage : makePublishRequestObject request p.clientId p.channel p.payload =
        p.message := by
      rw [makePublishRequestObject, ht, Publishing.message]
    simp only [codeOf, Serial.Code.enter, hcontext, hmessage]
    rfl
  · have hsend : ∀ U : State, (U.getSessions.filter fun s => s.id ∈ receivers st' p.channel).map
        (fun s => Effect.session s.id (serialize p.message)) =
        ((U.getSessions.map Session.id).filter (· ∈ receivers st' p.channel)).map
          fun s => Effect.session s (serialize p.message) := by
      intro U
      rw [List.filter_map, List.map_map]
      rfl
    rw [toSubscribedSessions, hsend]
    by_cases hnone : receivers st' p.channel = []
    · simp [codeSubscribed, Serial.Code.enter, hnone]
    · simp only [codeSubscribed, Serial.Code.enter, id]
      rw [if_neg (by simpa using hnone)]
      simp only [hsend, hsame]

end

end Aewt
