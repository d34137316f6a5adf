import AewtState.Messages

/-!
# Replies between nodes

A session answers a frame with the data of the response, unless the response is an
acknowledgement.  The answer is itself a frame for the peer.

* `Session.reply` — the answer, and `onRead_effects`: it is what `session::on_read` sends after
  the effects of the kernel.
* `Final` — the peer acknowledges the answer and its stores stay as they were.
* `Exchange` — the answers that two nodes send in turn, in whatever states they are when each
  arrives.

Principal results: `reply_final_iff` — an answer is final exactly when the frame is an object that
is accepted, raises or names a transaction id other than the nil one; otherwise
`not_final_unbounded` — the nodes answer each other forever.
-/

set_option autoImplicit false

namespace Aewt

/-! ## Answers -/

/-- The world after the reading of the clock with which `on_read` starts. -/
def World.ticked (w : World) : World := { w with ticks := w.ticks + 1 }

@[simp] theorem World.ticked_state (w : World) : w.ticked.state = w.state := rfl

@[simp] theorem World.ticked_effects (w : World) : w.ticked.effects = w.effects := rfl

theorem Session.onRead_object (s : Uuid) (data : Object) (w : World) :
    Session.onRead s (.object data) w = (kernel data .onSession s >>= fun response =>
      if response.isAck then pure () else Session.send s (serialize response.data)) w.ticked :=
  rfl

theorem Session.onRead_of_kernel {s : Uuid} {data : Object} {w v : World} {r : Response}
    (h : kernel data .onSession s w.ticked = (.ok r, v)) :
    Session.onRead s (.object data) w =
      (.ok (), v.emit (if r.isAck then [] else [.session s (serialize r.data)])) := by
  rw [Session.onRead_object, M.bind_ok h]
  cases r.isAck with
  | true => simp
  | false => rfl

theorem Session.onRead_raised {s : Uuid} {data : Object} {w v : World} {e : Raise}
    (h : kernel data .onSession s w.ticked = (.error e, v)) :
    Session.onRead s (.object data) w = (.error e, v) := by
  rw [Session.onRead_object, M.bind_error h]

/-- The answer of `session::on_read`, when it sends one. -/
def Session.reply (id : Uuid) (frame : Frame) (w : World) : Option Text :=
  match frame with
  | .object data =>
    match (kernel data .onSession id w.ticked).1 with
    | .ok response => if response.isAck then none else some (serialize response.data)
    | .error _ => none
  | .other =>
    let t := w.env.clock (w.ticks + 1)
    some (serialize (unprocessableBody t (t - w.env.clock w.ticks)))

/-- The kernel only adds to the effects. -/
theorem kernel_appends (data : Object) (context : Context) (id : Uuid) (w : World) :
    ∃ es, (kernel data context id w).2.effects = w.effects ++ es := by
  cases kernel_cases w data context id with
  | raised e w' eq idle => exact ⟨[], by simp [eq, idle.effects]⟩
  | rejected t field message runtime w' decoded eq idle =>
    exact ⟨[], by simp [eq, idle.effects]⟩
  | accepted t command runtime w' decoded eq acted =>
    exact ⟨_, by rw [eq]; exact acted.effects⟩

/-- What `session::on_read` sends: the effects of the kernel and then the answer. -/
theorem onRead_effects (id : Uuid) (frame : Frame) (w : World) :
    ∃ es, (Session.onRead id frame w).2.effects = w.effects ++ es ++
        (Session.reply id frame w).toList.map (Effect.session id) ∧
      (∀ data, frame = .object data →
        (kernel data .onSession id w.ticked).2.effects =
          w.effects ++ es) ∧
      (frame = .other → es = []) := by
  cases frame with
  | other => exact ⟨[], by simp [Session.onRead, Session.reply, Session.send], by simp⟩
  | object data =>
    obtain ⟨es, hes⟩ := kernel_appends data .onSession id w.ticked
    refine ⟨es, ?_, by rintro _ ⟨⟩; exact hes, by simp⟩
    unfold Session.reply
    rcases hk : kernel data .onSession id w.ticked with ⟨e | response, v⟩
    · simp only [hk] at hes
      rw [Session.onRead_raised hk]
      simp [hk, hes]
    · simp only [hk] at hes
      rw [Session.onRead_of_kernel hk, World.emit_effects, hes]
      cases ha : response.isAck <;> simp [hk, ha]

/-- The peer acknowledges `text`, in any state and on any session, and its stores stay. -/
def Acknowledged (text : Text) : Prop :=
  ∀ (s : Uuid) (v : World), ∃ response v', kernel text .onSession s v = (.ok response, v') ∧
    response.isAck = true ∧ v'.state.sessions = v.state.sessions ∧
    v'.state.clients = v.state.clients ∧ v'.state.subscriptions = v.state.subscriptions

/-- Whatever `on_read` answers to `frame` is acknowledged. -/
def Final (id : Uuid) (frame : Frame) (w : World) : Prop :=
  ∀ text, Session.reply id frame w = some text → Acknowledged text

/-- The answers to a frame, to that answer, and so on.  Between two of them either node may
have done anything, so each is computed in an arbitrary world. -/
inductive Exchange : Uuid → Frame → World → List Text → Prop where
  | silent (id : Uuid) (frame : Frame) (w : World) : Exchange id frame w []
  | answer {id peer : Uuid} {frame : Frame} {w v : World} {text : Text} {texts : List Text} :
      Session.reply id frame w = some text → Exchange peer (.object text) v texts →
      Exchange id frame w (text :: texts)

/-! ## The shapes of an answer -/

theorem decode_success (t entityId : Uuid) (message : String) (timestamp runtime : Int64)
    (data : Object) :
    decode (serialize (successData t message timestamp runtime data)) .onSession entityId =
      .ok (.accepted t .ack) := by
  have ha : (serialize (successData t message timestamp runtime data)).find? "action" =
      some (.string "ack") := by simp [serialize, successData]
  have hs : NamedBy (serialize (successData t message timestamp runtime data)) t.toString :=
    ⟨by simp [serialize, successData], isUuid_toString t⟩
  rw [decode_of_envelope ha hs (lexicalCast_toString t), decodeAction_ack]
  rfl

theorem find?_failed_transactionId (t : Uuid) (message : String) (timestamp runtime : Int64)
    (bag : List (String × String)) :
    (serialize (failedData t message timestamp runtime bag)).find? "transaction_id" =
      some (transactionIdValue t) := by
  rw [serialize, Object.find?_wire]
  show (some (transactionIdValue t)).map Value.wire = some (transactionIdValue t)
  unfold transactionIdValue
  split <;> simp

theorem decode_failed {t : Uuid} (h : t ≠ Uuid.nil) (entityId : Uuid) (message : String)
    (timestamp runtime : Int64) (bag : List (String × String)) :
    decode (serialize (failedData t message timestamp runtime bag)) .onSession entityId =
      .ok (.accepted t .ack) := by
  have ha : (serialize (failedData t message timestamp runtime bag)).find? "action" =
      some (.string "ack") := by simp [serialize, failedData]
  have hv : transactionIdValue t = .string t.toString := by
    simp [transactionIdValue, Uuid.isNil, h]
  have hs : NamedBy (serialize (failedData t message timestamp runtime bag)) t.toString :=
    ⟨by rw [find?_failed_transactionId, hv], isUuid_toString t⟩
  rw [decode_of_envelope ha hs (lexicalCast_toString t), decodeAction_ack]
  rfl

/-- An object without a usable transaction id that does not pass the envelope. -/
theorem decode_unnamed {data : Object} (entry : String × String)
    (hv : validator data = .ok (some entry)) (hn : ¬ ∃ s, NamedBy data s)
    (context : Context) (entityId : Uuid) :
    decode data context entityId = .ok (.invalid Uuid.nil entry.1 entry.2) := by
  have hh : hasTransactionId data = .ok false := by
    rcases hasTransactionId_eq data with ⟨-, h⟩ | ⟨h, -⟩
    · exact absurd h hn
    · exact h
  simp [decode, hv, hh, bind, Except.bind, pure, Except.pure]

/-- A decoded message was decided by its action, or the envelope was refused: under the
transaction id it carries, or under the nil one. -/
theorem decode_cases {data : Object} {context : Context} {entityId : Uuid} {d : Decoded}
    (h : decode data context entityId = .ok d) :
    (∃ action s t, data.find? "action" = some (.string action) ∧ NamedBy data s ∧
      lexicalCast s = some t ∧
      (decodeAction ⟨t, entityId, context, data, 0⟩ action).decoded t = .ok d) ∨
    (∃ s t field message, NamedBy data s ∧ lexicalCast s = some t ∧
      d = .invalid t field message) ∨
    (¬ ∃ s, NamedBy data s) ∧ ∃ field message, d = .invalid Uuid.nil field message := by
  obtain ⟨r, hr⟩ := validator_total data
  cases r with
  | none =>
    left
    obtain ⟨action, s, ha, hs⟩ := validator_eq_none.mp hr
    cases ht : lexicalCast s with
    | none => simp [decode, hr, getParamAsId_of hs.1, ht, bind, Except.bind] at h
    | some t =>
      rw [decode_of_envelope ha hs ht] at h
      exact ⟨action, s, t, ha, hs, ht, h⟩
  | some entry =>
    right
    rcases hasTransactionId_eq data with ⟨hh, s, hs⟩ | ⟨hh, hn⟩
    · left
      cases ht : lexicalCast s with
      | none => simp [decode, hr, hh, getParamAsId_of hs.1, ht, bind, Except.bind] at h
      | some t =>
        simp only [decode, hr, hh, getParamAsId_of hs.1, ht, bind, Except.bind, pure,
          Except.pure, if_true, Except.ok.injEq] at h
        exact ⟨s, t, entry.1, entry.2, hs, ht, h.symm⟩
    · right
      rw [decode_unnamed entry hr hn] at h
      cases h
      exact ⟨hn, entry.1, entry.2, rfl⟩

/-- The failure with the nil id carries `null`, which the envelope check refuses. -/
theorem decode_failed_nil (entityId : Uuid) (message : String) (timestamp runtime : Int64)
    (bag : List (String × String)) :
    decode (serialize (failedData Uuid.nil message timestamp runtime bag)) .onSession entityId =
      .ok (.invalid Uuid.nil "transaction_id" "transaction_id attribute must be string") := by
  have ht := find?_failed_transactionId Uuid.nil message timestamp runtime bag
  rw [show transactionIdValue Uuid.nil = .null from rfl] at ht
  have ha : (serialize (failedData Uuid.nil message timestamp runtime bag)).find? "action" =
      some (.string "ack") := by simp [serialize, failedData]
  refine decode_unnamed ("transaction_id", _) ?_ ?_ .onSession entityId
  · simp [validator, Object.contains, Object.atKey, ha, ht, Value.isString, bind, Except.bind]
  · rintro ⟨s, hs, -⟩
    rw [ht] at hs
    cases hs

/-- The reply to a frame that is no object has no `action`. -/
theorem decode_unprocessableBody (entityId : Uuid) (timestamp runtime : Int64) :
    decode (serialize (unprocessableBody timestamp runtime)) .onSession entityId =
      .ok (.invalid Uuid.nil "action" "action attribute must be present") := by
  have ha : (serialize (unprocessableBody timestamp runtime)).find? "action" = none := by
    simp [serialize, unprocessableBody]
  have ht : (serialize (unprocessableBody timestamp runtime)).find? "transaction_id" =
      some .null := by simp [serialize, unprocessableBody]
  refine decode_unnamed ("action", _) ?_ ?_ .onSession entityId
  · simp [validator, Object.contains, ha]
  · rintro ⟨s, hs, -⟩
    rw [ht] at hs
    cases hs

/-! ## Which answers are acknowledged -/

theorem acknowledged_of_ack {text : Text}
    (h : ∀ s, ∃ t, decode text .onSession s = .ok (.accepted t .ack)) : Acknowledged text := by
  intro s v
  obtain ⟨t, ht⟩ := h s
  obtain ⟨v', runtime, hk, hs, -, -⟩ := kernel_accepted v text .onSession s ht (by simp)
  exact ⟨_, v', hk, rfl, by rw [hs]; rfl, by rw [hs]; rfl, by rw [hs]; rfl⟩

/-- The frame is rejected, by the envelope check, for its action or for its parameters. -/
def Rejected (data : Object) (id t : Uuid) : Prop :=
  ∃ field message, decode data .onSession id = .ok (.invalid t field message)

/-- The transaction id under which a message is rejected is its own, when it has one. -/
theorem rejected_transactionId {data : Object} {id t : Uuid} (h : Rejected data id t) :
    (t = Uuid.nil ∧ ¬ ∃ s, NamedBy data s) ∨ ∃ s, NamedBy data s ∧ lexicalCast s = some t := by
  obtain ⟨field, message, hd⟩ := h
  rcases decode_cases hd with ⟨action, s, u, -, hs, hu, hv⟩ | ⟨s, u, _, _, hs, hu, hx⟩ |
    ⟨hn, _, _, hx⟩
  · cases Verdict.of_decoded_invalid hv
    exact Or.inr ⟨s, hs, hu⟩
  · cases hx
    exact Or.inr ⟨s, hs, hu⟩
  · cases hx
    exact Or.inl ⟨rfl, hn⟩

/-- The answer to a rejected message. -/
theorem reply_rejected {data : Object} {id t : Uuid} (h : Rejected data id t) (w : World) :
    ∃ message timestamp runtime bag, Session.reply id (.object data) w =
      some (serialize (failedData t message timestamp runtime bag)) := by
  obtain ⟨field, message, hd⟩ := h
  obtain ⟨w', runtime, hk, -⟩ :=
    kernel_invalid w.ticked data .onSession id hd
  refine ⟨"unprocessable entity", w.ticked.env.clock w.ticked.ticks, runtime,
    [(field, message)], ?_⟩
  simp only [Session.reply, hk]
  rfl

/-- An answer is the failure of a rejected message or a success. -/
theorem reply_cases {data : Object} {id : Uuid} {w : World} {text : Text}
    (h : Session.reply id (.object data) w = some text) :
    (∃ t, Rejected data id t) ∨
    ∃ t message timestamp runtime d,
      text = serialize (successData t message timestamp runtime d) := by
  unfold Session.reply at h
  cases kernel_cases w.ticked data .onSession id with
  | raised e w' eq idle => simp [eq] at h
  | rejected t field message runtime w' decoded eq idle =>
    exact Or.inl ⟨t, field, message, decoded⟩
  | accepted t command runtime w' decoded eq acted =>
    right
    simp only [eq] at h
    revert h
    cases (outcome w.ticked
      (requestOf w.ticked data .onSession id t) command).reply with
    | none => simp [acceptance, Response.replied]
    | some r =>
      simp only [acceptance, Response.replied, Bool.false_eq_true, if_false,
        Option.some.injEq]
      rintro rfl
      exact ⟨_, _, _, _, _, rfl⟩

/-- **Every answer is final unless a rejected message carries the nil id.** -/
theorem final_object_iff (id : Uuid) (data : Object) (w : World) :
    Final id (.object data) w ↔ ¬ Rejected data id Uuid.nil := by
  constructor
  · intro hf hr
    obtain ⟨message, timestamp, runtime, bag, hreply⟩ := reply_rejected hr w
    obtain ⟨response, v', hk, hack, -⟩ := hf _ hreply id w
    obtain ⟨v'', runtime', hk', -⟩ := kernel_invalid w _ .onSession id
      (decode_failed_nil id message timestamp runtime bag)
    rw [hk] at hk'
    cases hk'
    cases hack
  · intro hn text htext
    rcases reply_cases htext with ⟨t, hr⟩ | ⟨t, message, timestamp, runtime, d, rfl⟩
    · have ht : t ≠ Uuid.nil := by
        rintro rfl
        exact hn hr
      obtain ⟨message, timestamp, runtime, bag, hreply⟩ := reply_rejected hr w
      rw [htext] at hreply
      cases hreply
      exact acknowledged_of_ack fun s => ⟨t, decode_failed ht s _ _ _ _⟩
    · exact acknowledged_of_ack fun s => ⟨t, decode_success t s _ _ _ _⟩

theorem not_final_other (id : Uuid) (w : World) : ¬ Final id .other w := by
  intro hf
  obtain ⟨response, v', hk, hack, -⟩ := hf _ rfl id w
  obtain ⟨v'', runtime', hk', -⟩ := kernel_invalid w _ .onSession id
    (decode_unprocessableBody id (w.env.clock (w.ticks + 1))
      (w.env.clock (w.ticks + 1) - w.env.clock w.ticks))
  rw [hk] at hk'
  cases hk'
  cases hack

/-- An acknowledged text is not answered. -/
theorem reply_of_acknowledged {text : Text} (h : Acknowledged text) (id : Uuid) (w : World) :
    Session.reply id (.object text) w = none := by
  obtain ⟨response, v', hk, hack, -⟩ := h id w.ticked
  simp [Session.reply, hk, hack]

theorem exchange_of_final {id : Uuid} {frame : Frame} {w : World} {texts : List Text}
    (hf : Final id frame w) (he : Exchange id frame w texts) : texts.length ≤ 1 := by
  cases he with
  | silent => simp
  | answer hreply hrest =>
    cases hrest with
    | silent => simp
    | answer hreply' _ =>
      rw [reply_of_acknowledged (hf _ hreply)] at hreply'
      cases hreply'

/-- A rejected message with the nil id is answered by another one: the exchange goes on as
long as one likes. -/
theorem exchange_of_rejected (id peer : Uuid) (w v : World) : ∀ (n : Nat) (data : Object),
    (∀ s, Rejected data s Uuid.nil) →
    ∃ texts, texts.length = n ∧ Exchange id (.object data) w texts
  | 0, data, _ => ⟨[], rfl, .silent _ _ _⟩
  | n + 1, data, h => by
    obtain ⟨message, timestamp, runtime, bag, hreply⟩ := reply_rejected (h id) w
    obtain ⟨texts, hlen, hrest⟩ := exchange_of_rejected peer id v w n _
      fun s => ⟨_, _, decode_failed_nil s message timestamp runtime bag⟩
    exact ⟨_, by rw [List.length_cons, hlen], .answer hreply hrest⟩

/-- Rejection with the nil id does not depend on the session. -/
theorem not_final_unbounded {id : Uuid} {frame : Frame} {w : World} (h : ¬ Final id frame w)
    (peer : Uuid) (v : World) (n : Nat) :
    ∃ texts, texts.length = n ∧ Exchange id frame w texts := by
  cases n with
  | zero => exact ⟨[], rfl, .silent _ _ _⟩
  | succ n =>
    cases frame with
    | other =>
      obtain ⟨texts, hlen, hrest⟩ := exchange_of_rejected peer id v w n _
        fun s => ⟨_, _, decode_unprocessableBody s _ _⟩
      exact ⟨_, by rw [List.length_cons, hlen], .answer rfl hrest⟩
    | object data =>
      rw [final_object_iff, not_not] at h
      obtain ⟨message, timestamp, runtime, bag, hreply⟩ := reply_rejected h w
      obtain ⟨texts, hlen, hrest⟩ := exchange_of_rejected peer id v w n _
        fun s => ⟨_, _, decode_failed_nil s message timestamp runtime bag⟩
      exact ⟨_, by rw [List.length_cons, hlen], .answer hreply hrest⟩

/-- The message names a transaction other than the nil one. -/
def NamesTransaction (data : Object) : Prop :=
  ∃ s, NamedBy data s ∧ lexicalCast s ≠ some Uuid.nil

theorem rejected_nil_iff (data : Object) (id : Uuid) :
    ¬ Rejected data id Uuid.nil ↔ (∃ t, Rejected data id t) → NamesTransaction data := by
  constructor
  · rintro hn ⟨t, ht⟩
    rcases rejected_transactionId ht with ⟨rfl, -⟩ | ⟨s, hs, hc⟩
    · exact absurd ht hn
    · refine ⟨s, hs, ?_⟩
      rintro h
      rw [hc] at h
      cases h
      exact hn ht
  · intro h hr
    obtain ⟨s, hs, hc⟩ := h ⟨_, hr⟩
    rcases rejected_transactionId hr with ⟨-, hn⟩ | ⟨s', hs', hc'⟩
    · exact hn ⟨s, hs⟩
    · have : s = s' := by simpa using hs.1.symm.trans hs'.1
      exact hc (this ▸ hc')

/-- **A reply is final, and the exchange over, exactly when the frame is an object that names
its transaction or is not rejected.** -/
theorem reply_final_iff (id : Uuid) (frame : Frame) (w : World) :
    (Final id frame w ∧ ∀ texts, Exchange id frame w texts → texts.length ≤ 1) ↔
      ∃ data, frame = .object data ∧ ((∃ t, Rejected data id t) → NamesTransaction data) := by
  constructor
  · rintro ⟨hf, -⟩
    cases frame with
    | other => exact absurd hf (not_final_other id w)
    | object data =>
      exact ⟨data, rfl, (rejected_nil_iff data id).mp ((final_object_iff id data w).mp hf)⟩
  · rintro ⟨data, rfl, h⟩
    have hf : Final id (.object data) w :=
      (final_object_iff id data w).mpr ((rejected_nil_iff data id).mpr h)
    exact ⟨hf, fun texts => exchange_of_final hf⟩

/-- Every random id is nil, the clock stands still and every name resolves. -/
def still : Env := ⟨fun _ => Uuid.nil, fun _ => 0, fun _ _ => true⟩

/-- A node on which nothing happened yet. -/
def World.initial (id : Uuid) : World where
  env := still
  state := { id := id }

/-- The empty object is answered, the answer is answered, and so on. -/
theorem reply_not_final :
    ¬ Final Uuid.nil (.object []) (World.initial Uuid.nil) ∧
    ∀ n, ∃ texts, texts.length = n ∧
      Exchange Uuid.nil (.object []) (World.initial Uuid.nil) texts := by
  have hr : Rejected [] Uuid.nil Uuid.nil :=
    ⟨"action", "action attribute must be present", rfl⟩
  have hf : ¬ Final Uuid.nil (.object []) (World.initial Uuid.nil) := by
    rw [final_object_iff, not_not]
    exact hr
  exact ⟨hf, not_final_unbounded hf Uuid.nil (World.initial Uuid.nil)⟩

end Aewt
