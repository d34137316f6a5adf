import AewtState.Reading
import AewtState.UuidForms

/-!
# What a reply looks like

* `reply` — the text with which `on_read` of a session or of a client answers a frame, when it
  does; `reply_sent` — it is what is sent after the effects of the kernel.
* `Envelope` — the seven members of a reply.
* `SetsOnce` — a handler that ends has set the response once more, one that raises has not.
* `Correlated` — the response carries the transaction id of the request.

Principal results: `setsOnce_dispatch`; `fullReply_iff` — the replies to objects have the
envelope, except the one to a client's acknowledgement; `correlated_iff` — a response is
correlated unless it rejects a message whose id is nil.
-/

set_option autoImplicit false

namespace Aewt

/-! ## Acknowledgements -/

/-- The object is an acknowledgement of the transaction `t`. -/
def IsAck (data : Object) (t : Uuid) : Prop :=
  data.find? "action" = some (.string "ack") ∧ ∃ s, NamedBy data s ∧ lexicalCast s = some t

theorem decode_eq_ack {data : Object} {context : Context} {id t : Uuid} :
    decode data context id = .ok (.accepted t .ack) ↔ IsAck data t := by
  constructor
  · intro h
    rcases decode_cases h with ⟨action, s, u, ha, hs, hu, hv⟩ | ⟨_, _, _, _, -, -, hx⟩ |
      ⟨-, _, _, hx⟩
    · obtain ⟨rfl, hd⟩ := Verdict.of_decoded_accepted hv
      rw [← decodeAction_action hd rfl] at ha
      exact ⟨ha, s, hs, hu⟩
    · cases hx
    · cases hx
  · rintro ⟨ha, s, hs, ht⟩
    rw [decode_of_envelope ha hs ht, decodeAction_ack]
    rfl

theorem outcome_reply_eq_none {w : World} {request : Request} {command : Command}
    (h : (outcome w request command).reply = none) : command = .ack := by
  cases command with
  | ack => rfl
  | send f t payload =>
    simp only [outcome, sendOutcome] at h
    split at h
    · split at h
      · cases h
      · split at h <;> cases h
    · cases h
  | register sp cp registered =>
    simp only [outcome, registerOutcome] at h
    split at h <;> cases h
  | session host sp cp =>
    simp only [outcome, sessionOutcome] at h
    split at h <;> cases h
  | _ => cases h

/-! ## Replies -/

/-- The answer of `client::on_read`, when it sends one.  Unlike a session, a client is answered
on an acknowledgement too. -/
def Client.reply (id : Uuid) (frame : Frame) (w : World) : Option Text :=
  match frame with
  | .object data =>
    match (kernel data .onClient id w.ticked).1 with
    | .ok response => some (serialize response.data)
    | .error _ => none
  | .other =>
    let t := w.env.clock (w.ticks + 1)
    some (serialize (unprocessableBody t (t - w.env.clock w.ticks)))

def reply : Context → Uuid → Frame → World → Option Text
  | .onSession => Session.reply
  | .onClient => Client.reply

def onRead : Context → Uuid → Frame → M Unit
  | .onSession => Session.onRead
  | .onClient => Client.onRead

/-- Sending on the connection that was read. -/
def toPeer : Context → Uuid → Text → Effect
  | .onSession => .session
  | .onClient => .client

theorem Client.onRead_effects (id : Uuid) (frame : Frame) (w : World) :
    ∃ es, (Client.onRead id frame w).2.effects = w.effects ++ es ++
        (Client.reply id frame w).toList.map (Effect.client id) ∧
      (∀ data, frame = .object data →
        (kernel data .onClient id w.ticked).2.effects = w.effects ++ es) ∧
      (frame = .other → es = []) := by
  cases frame with
  | other => exact ⟨[], by simp [Client.onRead, Client.reply, Client.send], by simp⟩
  | object data =>
    obtain ⟨es, hes⟩ := kernel_appends data .onClient id w.ticked
    refine ⟨es, ?_, by rintro _ ⟨⟩; exact hes, by simp⟩
    unfold Client.reply
    rcases hk : kernel data .onClient id w.ticked with ⟨e | response, v⟩
    · simp only [hk] at hes
      rw [Client.onRead_object, M.bind_error hk]
      simp [hk, hes]
    · simp only [hk] at hes
      rw [Client.onRead_of_kernel hk, World.emit_effects, hes]
      simp [hk]

/-- **`on_read` sends the reply after what the kernel sent**, and nothing else. -/
theorem reply_sent (context : Context) (id : Uuid) (frame : Frame) (w : World) :
    ∃ es, (onRead context id frame w).2.effects = w.effects ++ es ++
        (reply context id frame w).toList.map (toPeer context id) ∧
      (∀ data, frame = .object data →
        (kernel data context id w.ticked).2.effects = w.effects ++ es) ∧
      (frame = .other → es = []) := by
  cases context with
  | onSession => exact Aewt.onRead_effects id frame w
  | onClient => exact Client.onRead_effects id frame w

section

variable {context : Context} {id : Uuid} {data : Object} {w v : World}

theorem reply_of_raised {e : Raise} (h : kernel data context id w.ticked = (.error e, v)) :
    reply context id (.object data) w = none := by
  cases context with
  | onSession => simp [reply, Session.reply, h]
  | onClient => simp [reply, Client.reply, h]

theorem reply_of_kernel {r : Response} (h : kernel data context id w.ticked = (.ok r, v)) :
    reply context id (.object data) w =
      if context = .onSession ∧ r.isAck = true then none else some (serialize r.data) := by
  cases context with
  | onSession => simp [reply, Session.reply, h]
  | onClient => simp [reply, Client.reply, h]

end

/-! ## The envelope -/

/-- The members of a reply. -/
structure Envelope (text : Text) : Prop where
  transactionId : text.contains "transaction_id" = true
  action : text.find? "action" = some (.string "ack")
  status : text.contains "status" = true
  message : text.contains "message" = true
  data : ∃ o, text.find? "data" = some (.object o)
  timestamp : text.contains "timestamp" = true
  runtime : text.contains "runtime" = true

section

variable (t : Uuid) (message : String) (timestamp runtime : Int64)

theorem envelope_success (data : Object) :
    Envelope (serialize (successData t message timestamp runtime data)) := by
  constructor <;> simp [serialize, successData, Object.contains]

theorem envelope_failed (bag : List (String × String)) :
    Envelope (serialize (failedData t message timestamp runtime bag)) := by
  constructor <;> simp [serialize, failedData, Object.contains]

theorem status_success (data : Object) :
    (serialize (successData t message timestamp runtime data)).find? "status" =
      some (.string "success") := by
  simp [serialize, successData]

theorem status_failed (bag : List (String × String)) :
    (serialize (failedData t message timestamp runtime bag)).find? "status" =
      some (.string "failed") := by
  simp [serialize, failedData]

end

theorem not_envelope_nil : ¬ Envelope (serialize []) := by
  intro h
  cases h.action

theorem not_envelope_unprocessableBody (timestamp runtime : Int64) :
    ¬ Envelope (serialize (unprocessableBody timestamp runtime)) := by
  intro h
  have ha := h.action
  simp [serialize, unprocessableBody] at ha

/-- The frame is no object, or its message fails a check. -/
def Rejects (context : Context) (id : Uuid) : Frame → Prop
  | .other => True
  | .object data => ∃ t field message,
    decode data context id = .ok (.invalid t field message)

/-- Any reply to the frame has the envelope and tells whether the request was rejected. -/
def FullReply (context : Context) (id : Uuid) (frame : Frame) (w : World) : Prop :=
  ∀ text, reply context id frame w = some text →
    Envelope text ∧ (text.find? "status" = some (.string "failed") ↔ Rejects context id frame)

/-- The frame is an object, and no acknowledgement when a client sent it. -/
def Replied (context : Context) : Frame → Prop
  | .other => False
  | .object data => context = .onClient → ∀ t, ¬ IsAck data t

theorem reply_accepted {context : Context} {id t : Uuid} {data : Object} {command : Command}
    {w : World} {text : Text} (hd : decode data context id = .ok (.accepted t command))
    (hn : command ≠ .ack) (h : reply context id (.object data) w = some text) :
    ∃ message timestamp runtime d,
      text = serialize (successData t message timestamp runtime d) := by
  cases kernel_cases w.ticked data context id with
  | raised e w' eq idle =>
    rw [reply_of_raised eq] at h
    cases h
  | rejected t' field message runtime w' decoded eq idle =>
    rw [hd] at decoded
    cases decoded
  | accepted t' command' runtime w' decoded eq acted =>
    rw [hd] at decoded
    cases decoded
    rw [reply_of_kernel eq] at h
    cases hr : (outcome w.ticked (requestOf w.ticked data context id t) command).reply with
    | none => exact absurd (outcome_reply_eq_none hr) hn
    | some r =>
      rw [hr, if_neg (by simp [acceptance, Response.replied])] at h
      cases h
      exact ⟨_, _, _, _, rfl⟩

theorem reply_invalid {context : Context} {id t : Uuid} {data : Object}
    {field message : String} {w : World} {text : Text}
    (hd : decode data context id = .ok (.invalid t field message))
    (h : reply context id (.object data) w = some text) :
    ∃ timestamp runtime, text = serialize
      (failedData t "unprocessable entity" timestamp runtime [(field, message)]) := by
  obtain ⟨w', runtime, hk, -⟩ := kernel_invalid w.ticked data context id hd
  rw [reply_of_kernel hk, if_neg (by simp [rejection])] at h
  cases h
  exact ⟨_, _, rfl⟩

/-- What a connection answers to an acknowledgement: a session nothing, a client `{}`. -/
theorem reply_ack (context : Context) (id : Uuid) {t : Uuid} {data : Object} (w : World)
    (h : IsAck data t) : reply context id (.object data) w =
      if context = .onSession then none else some (serialize []) := by
  obtain ⟨w', runtime, hk, -⟩ := kernel_accepted w.ticked data context id
    (decode_eq_ack.mpr h) (by simp)
  rw [reply_of_kernel hk]
  cases context <;> rfl

/-- **A reply has the envelope exactly when the frame is an object that is no client's
acknowledgement.** -/
theorem fullReply_iff (context : Context) (id : Uuid) (frame : Frame) (w : World) :
    FullReply context id frame w ↔ Replied context frame := by
  cases frame with
  | other =>
    refine ⟨fun h => ?_, fun h => h.elim⟩
    have hreply : reply context id .other w = some (serialize (unprocessableBody
        (w.env.clock (w.ticks + 1)) (w.env.clock (w.ticks + 1) - w.env.clock w.ticks))) := by
      cases context <;> rfl
    exact not_envelope_unprocessableBody _ _ (h _ hreply).1
  | object data =>
    constructor
    · intro h hctx t hack
      have hreply := reply_ack context id w hack
      rw [if_neg (by rw [hctx]; decide)] at hreply
      exact not_envelope_nil (h _ hreply).1
    · intro h text htext
      cases hd : decode data context id with
      | error e =>
        rw [reply_of_raised (kernel_raised w.ticked data context id hd)] at htext
        cases htext
      | ok d =>
        cases d with
        | invalid t field message =>
          obtain ⟨timestamp, runtime, rfl⟩ := reply_invalid hd htext
          exact ⟨envelope_failed _ _ _ _ _, iff_of_true (status_failed _ _ _ _ _)
            ⟨t, field, message, hd⟩⟩
        | accepted t command =>
          have hn : command ≠ .ack := by
            rintro rfl
            have hack := decode_eq_ack.mp hd
            rw [reply_ack context id w hack] at htext
            cases context with
            | onSession => cases htext
            | onClient => exact h rfl t hack
          obtain ⟨message, timestamp, runtime, o, rfl⟩ := reply_accepted hd hn htext
          refine ⟨envelope_success _ _ _ _ _, iff_of_false ?_ ?_⟩
          · rw [status_success]
            simp
          · rintro ⟨t', field, m, hinv⟩
            rw [hd] at hinv
            cases hinv

/-! ## One response for each handler -/

/-- The computation sets the response once when it ends, and not at all when it raises. -/
def SetsOnce (x : M Unit) : Prop :=
  ∀ w, match x w with
    | (.ok (), w') => w'.response.writes = w.response.writes + 1
    | (.error _, w') => w'.response.writes = w.response.writes

theorem setsOnce_next (request : Request) (status : String) (data : Object) :
    SetsOnce (next request status data) := fun _ => rfl

theorem setsOnce_perform {request : Request} {command : Command} (h : command ≠ .ack) :
    SetsOnce (perform request command) := by
  intro w
  by_cases hr : ∀ host sp cp, command = .session host sp cp → w.env.resolves host sp = true
  · obtain ⟨w', hw, hp⟩ := perform_spec w request command hr
    obtain ⟨runtime, hresponse⟩ := hp.response
    cases ho : (outcome w request command).reply with
    | none => exact absurd (outcome_reply_eq_none ho) h
    | some r =>
      rw [ho] at hresponse
      rw [hw]
      exact congrArg Response.writes hresponse
  · push Not at hr
    obtain ⟨host, sp, cp, rfl, hres⟩ := hr
    show match performSession request host sp cp w with
      | (.ok (), w') => w'.response.writes = w.response.writes + 1
      | (.error _, w') => w'.response.writes = w.response.writes
    cases hk : isKnown w.state host sp cp with
    | false => rw [performSession_unresolved w request host sp cp (by simpa using hres) hk]
    | true =>
      -- a known session is found before its name is resolved
      rw [performSession, getState_bind, if_pos hk]
      exact setsOnce_next request "no effect" [] w

/-- **Every handler sets the response once.** -/
theorem setsOnce_dispatch (request : Request) {action : String} (h : action ≠ "ack") :
    SetsOnce (dispatch request action) := by
  rw [dispatch_eq]
  rcases hv : decodeAction request action with e | (entry | command)
  · exact fun _ => rfl
  · exact fun _ => rfl
  · refine setsOnce_perform ?_
    rintro rfl
    exact h (decodeAction_action hv rfl).symm

/-- **The replies have the envelope where `Replied` says so, and the handlers set the response
once.** -/
theorem reply_envelope_iff (request : Request) (action : String) (context : Context) (id : Uuid)
    (frame : Frame) (w : World) :
    (action = "ack" ∨ SetsOnce (dispatch request action)) ∧
      (FullReply context id frame w ↔ Replied context frame) := by
  refine ⟨?_, fullReply_iff context id frame w⟩
  by_cases h : action = "ack"
  · exact .inl h
  · exact .inr (setsOnce_dispatch request h)

def ackData : Object :=
  [("action", .string "ack"), ("transaction_id", .string firstClient.toString)]

theorem isAck_ackData : IsAck ackData firstClient :=
  ⟨rfl, firstClient.toString, ⟨rfl, isUuid_toString firstClient⟩, lexicalCast_toString _⟩

/-- A frame that is no object is answered without an action, and a client's acknowledgement
with an object that has no member at all. -/
theorem not_full_replies : ¬ FullReply .onClient firstClient .other World.pair ∧
    ¬ FullReply .onClient firstClient (.object ackData) World.pair := by
  constructor
  · intro h
    exact not_envelope_unprocessableBody _ _ (h _ rfl).1
  · intro h
    exact not_envelope_nil (h _ (reply_ack .onClient firstClient World.pair isAck_ackData)).1

/-! ## Correlation -/

/-- The response names the transaction `u`. -/
def Correlated (r : Response) (u : Uuid) : Prop :=
  ∃ s, r.data.find? "transaction_id" = some (.string s) ∧ Spells .canonical u s.toList

/-- The message passes the envelope and the check of its action. -/
def Passes (data : Object) (context : Context) (id : Uuid) : Prop :=
  ∃ t command, decode data context id = .ok (.accepted t command)

theorem spells_toString (u : Uuid) : Spells .canonical u u.toString.toList :=
  lexicalCast_eq_some.mp (lexicalCast_toString u)

theorem correlated_success (r : Response) (t : Uuid) (message : String)
    (timestamp runtime : Int64) (data : Object)
    (h : r.data = successData t message timestamp runtime data) : Correlated r t :=
  ⟨t.toString, by rw [h]; rfl, spells_toString t⟩

/-- A failure carries the id unless it is nil. -/
theorem correlated_failed_iff {r : Response} {t : Uuid} {error : String}
    {timestamp runtime : Int64} {bag : List (String × String)}
    (h : r.data = failedData t error timestamp runtime bag) :
    Correlated r t ↔ t ≠ Uuid.nil := by
  have hfind : r.data.find? "transaction_id" = some (transactionIdValue t) := by
    rw [h]
    rfl
  unfold Correlated
  rw [hfind]
  by_cases ht : t = Uuid.nil
  · subst ht
    refine iff_of_false ?_ (by simp)
    rintro ⟨s, hs, -⟩
    cases hs
  · have hv : transactionIdValue t = .string t.toString := by
      simp [transactionIdValue, Uuid.isNil, ht]
    rw [hv]
    exact iff_of_true ⟨t.toString, rfl, spells_toString t⟩ ht

/-- The id under which a message is decoded is the one it carries. -/
theorem decode_transactionId {data : Object} {context : Context} {id u : Uuid} {s : String}
    {d : Decoded} (hs : data.find? "transaction_id" = some (.string s))
    (hu : lexicalCast s = some u) (hd : decode data context id = .ok d) :
    (∃ command, d = .accepted u command) ∨ ∃ field message, d = .invalid u field message := by
  have hnamed : NamedBy data s :=
    ⟨hs, by rw [isUuid, stringGenerator_of_lexicalCast hu]; rfl⟩
  have hsame : ∀ s' u', NamedBy data s' → lexicalCast s' = some u' → u' = u := by
    intro s' u' hs' hu'
    have hss : s = s' := by simpa using hs.symm.trans hs'.1
    subst hss
    exact Option.some.inj (hu'.symm.trans hu)
  rcases decode_cases hd with ⟨action, s', u', -, hs', hu', hv⟩ |
    ⟨s', u', field, message, hs', hu', rfl⟩ | ⟨hn, -⟩
  · cases hsame s' u' hs' hu'
    cases d with
    | accepted t command =>
      obtain ⟨rfl, -⟩ := Verdict.of_decoded_accepted hv
      exact .inl ⟨command, rfl⟩
    | invalid t field message =>
      cases Verdict.of_decoded_invalid hv
      exact .inr ⟨field, message, rfl⟩
  · cases hsame s' u' hs' hu'
    exact .inr ⟨field, message, rfl⟩
  · exact absurd ⟨s, hnamed⟩ hn

/-- **A response is correlated exactly when the id is not nil or the message passes.** -/
theorem correlated_iff {data : Object} {context : Context} {id u : Uuid} {s : String}
    {w w' : World} {r : Response} (hs : data.find? "transaction_id" = some (.string s))
    (hu : Spells .canonical u s.toList) (ha : data.find? "action" ≠ some (.string "ack"))
    (hk : kernel data context id w = (.ok r, w')) :
    Correlated r u ↔ u ≠ Uuid.nil ∨ Passes data context id := by
  have hcast := lexicalCast_eq_some.mpr hu
  cases kernel_cases w data context id with
  | raised e v eq idle =>
    rw [hk] at eq
    cases eq
  | rejected t field message runtime v decoded eq idle =>
    rw [hk] at eq
    cases eq
    have ht : t = u := by
      rcases decode_transactionId hs hcast decoded with ⟨command, h⟩ | ⟨field', message', h⟩
      · cases h
      · cases h
        rfl
    subst ht
    rw [correlated_failed_iff rfl]
    refine ⟨.inl, fun h => h.elim (fun hne => hne) fun hp => ?_⟩
    obtain ⟨t', command, hacc⟩ := hp
    rw [decoded] at hacc
    cases hacc
  | accepted t command runtime v decoded eq acted =>
    rw [hk] at eq
    cases eq
    have ht : t = u := by
      rcases decode_transactionId hs hcast decoded with ⟨command', h⟩ | ⟨field', message', h⟩
      · cases h
        rfl
      · cases h
    subst ht
    cases ho : (outcome w (requestOf w data context id t) command).reply with
    | none =>
      cases outcome_reply_eq_none ho
      exact absurd (decode_eq_ack.mp decoded).1 ha
    | some reply =>
      exact iff_of_true (correlated_success _ t _ _ _ _ rfl) (.inr ⟨t, command, decoded⟩)

def actionData (u : Uuid) (action : String) : Object :=
  [("transaction_id", .string u.toString), ("action", .string action)]

theorem decode_actionData (u : Uuid) (action : String) (context : Context) (id : Uuid) :
    decode (actionData u action) context id =
      (decodeAction ⟨u, id, context, actionData u action, 0⟩ action).decoded u :=
  decode_of_envelope rfl ⟨rfl, isUuid_toString u⟩ (lexicalCast_toString u)

/-- A ping. -/
theorem correlated_ping : ∃ r w',
    kernel (actionData firstClient "ping") .onClient firstClient World.pair = (.ok r, w') ∧
      (Correlated r firstClient ↔
        firstClient ≠ Uuid.nil ∨ Passes (actionData firstClient "ping") .onClient firstClient) := by
  have hd := decode_actionData firstClient "ping" .onClient firstClient
  rw [decodeAction_ping] at hd
  obtain ⟨w', runtime, hk, -⟩ := kernel_accepted World.pair _ .onClient firstClient hd (by simp)
  exact ⟨_, w', hk, correlated_iff rfl (spells_toString firstClient)
    (by simp [actionData]) hk⟩

/-- An unknown action under the nil id. -/
theorem not_correlated_nil : ∃ r w',
    kernel (actionData Uuid.nil "dance") .onClient firstClient World.pair = (.ok r, w') ∧
      ¬ Correlated r Uuid.nil := by
  have hd := decode_actionData Uuid.nil "dance" .onClient firstClient
  rw [decodeAction_unknown _ (by simp [actions])] at hd
  obtain ⟨w', runtime, hk, -⟩ := kernel_invalid World.pair _ .onClient firstClient hd
  refine ⟨_, w', hk, fun h => ?_⟩
  exact (correlated_failed_iff rfl).mp h rfl

end Aewt
