import AewtState.Events
import Mathlib.Data.List.Induction

/-!
# Subscriptions as a set for each client

`subscribe` and `unsubscribe` change the row of a session, a client and a channel;
`is_subscribed` asks for a row of the client and the channel, of any session.

* `KernelCall`, `State.handle` — a call of the kernel, for a client or for a peer's session, and
  the node after it.
* `KernelCall.row` — the row that a call sets or clears; `mem_handleAll` — a row is there after
  a run when the last call about it set it.
* `KernelCall.own`, `lastOwn` — the history of one client and one channel.
* `KernelCall.Respects` — no peer speaks for the client.

Principal result: `answers_own_history` — in a run whose calls respect a client, it is answered
by its own history.
-/

set_option autoImplicit false

namespace Aewt

/-- A call of the kernel. -/
structure KernelCall where
  data : Object
  context : Context
  entityId : Uuid
  env : Env

namespace KernelCall

def run (call : KernelCall) (st : State) : Except Raise Response × World :=
  kernel call.data call.context call.entityId (.start call.env st)

/-- The command of an accepted message. -/
def command (call : KernelCall) : Option Command :=
  match decode call.data call.context call.entityId with
  | .ok (.accepted _ command) => some command
  | _ => none

/-- The session id of the rows that the call changes on the node `nodeId`. -/
def owner (nodeId : Uuid) (call : KernelCall) : Uuid :=
  match call.context with
  | .onClient => nodeId
  | .onSession => call.entityId

end KernelCall

/-- The node after a call, whether it returned or raised. -/
def State.handle (st : State) (call : KernelCall) : State := (call.run st).2.state

def State.handleAll (st : State) (calls : List KernelCall) : State := calls.foldl State.handle st

/-! ## Rows -/

/-- The row that a command sets or clears, for the session `s`. -/
def Command.row (s : Uuid) : Command → Option (Subscription × Bool)
  | .subscribe c channel => some (⟨s, c, channel⟩, true)
  | .unsubscribe c channel => some (⟨s, c, channel⟩, false)
  | _ => none

/-- The row that a call sets or clears on the node `nodeId`. -/
def KernelCall.row (nodeId : Uuid) (call : KernelCall) : Option (Subscription × Bool) :=
  call.command.bind (Command.row (call.owner nodeId))

theorem outcome_row (w : World) (request : Request) (command : Command) (row : Subscription) :
    row ∈ (outcome w request command).state.subscriptions ↔
      Replica.update (command.row (owner request w.state)) row (row ∈ w.state.subscriptions) := by
  cases command with
  | subscribe c channel =>
    show row ∈ (w.state.subscribe (owner request w.state) c channel).1.subscriptions ↔ _
    rw [State.mem_subscribe]
    by_cases h : ⟨owner request w.state, c, channel⟩ = row
    · simp [Command.row, Replica.update, h]
    · simp [Command.row, Replica.update, h, Ne.symm h]
  | unsubscribe c channel =>
    show row ∈ (w.state.unsubscribe (owner request w.state) c channel).1.subscriptions ↔ _
    rw [State.mem_unsubscribe]
    by_cases h : ⟨owner request w.state, c, channel⟩ = row
    · simp [Command.row, Replica.update, h]
    · simp [Command.row, Replica.update, h, Ne.symm h]
  | join c | leave c => simp [outcome, Command.row]
  | send | register | session | ping | ack | noEffect | isSubscribed | broadcast | publish =>
    rw [(outcome_rows w request rfl).2]
    rfl

theorem command_of_decoded {call : KernelCall} {t : Uuid} {command : Command}
    (h : decode call.data call.context call.entityId = .ok (.accepted t command)) :
    call.command = some command := by
  rw [KernelCall.command, h]

theorem decoded_of_command {call : KernelCall} {command : Command}
    (h : call.command = some command) :
    ∃ t, decode call.data call.context call.entityId = .ok (.accepted t command) := by
  unfold KernelCall.command at h
  split at h
  · rename_i t command' hd
    cases h
    exact ⟨t, hd⟩
  · cases h

/-- A call that raises is about no row. -/
theorem row_of_raised {st : State} {call : KernelCall} {e : Raise} {w : World} (n : Uuid)
    (h : call.run st = (.error e, w)) : call.row n = none := by
  cases hc : call.command with
  | none => rw [KernelCall.row, hc]; rfl
  | some command =>
    rw [KernelCall.row, hc]
    show command.row (call.owner n) = none
    by_contra hrow
    obtain ⟨t, hd⟩ := decoded_of_command hc
    have hname : ∀ host sp cp, command = .session host sp cp →
        call.env.resolves host sp = true := by
      rintro host sp cp rfl
      exact absurd rfl hrow
    obtain ⟨w', runtime, hk, -⟩ :=
      kernel_accepted (.start call.env st) call.data call.context call.entityId hd hname
    rw [KernelCall.run, hk] at h
    cases h

/-- **A call sets or clears its row and leaves the others.** -/
theorem handle_spec (st : State) (call : KernelCall) :
    (st.handle call).id = st.id ∧ ∀ row, row ∈ (st.handle call).subscriptions ↔
      Replica.apply (KernelCall.row st.id) row (row ∈ st.subscriptions) call := by
  cases kernel_cases (.start call.env st) call.data call.context call.entityId with
  | raised e w' eq idle =>
    have hst : st.handle call = st := by
      rw [State.handle, KernelCall.run, eq]
      exact idle.state
    have hrow : call.row st.id = none := row_of_raised st.id eq
    rw [hst]
    exact ⟨rfl, fun row => by rw [Replica.apply_none hrow]⟩
  | rejected t field message runtime w' decoded eq idle =>
    have hst : st.handle call = st := by
      rw [State.handle, KernelCall.run, eq]
      exact idle.state
    have hrow : call.row st.id = none := by
      rw [KernelCall.row, KernelCall.command, decoded]
      rfl
    rw [hst]
    exact ⟨rfl, fun row => by rw [Replica.apply_none hrow]⟩
  | accepted t command runtime w' decoded eq acted =>
    have hst : st.handle call = (outcome (.start call.env st)
        (requestOf (.start call.env st) call.data call.context call.entityId t) command).state := by
      rw [State.handle, KernelCall.run, eq]
      exact acted.state
    rw [hst]
    refine ⟨outcome_id _, fun row => ?_⟩
    rw [outcome_row, Replica.apply, KernelCall.row, command_of_decoded decoded]
    exact Iff.rfl

theorem handleAll_id (st : State) (calls : List KernelCall) :
    (st.handleAll calls).id = st.id := by
  induction calls generalizing st with
  | nil => rfl
  | cons call calls ih => exact (ih (st.handle call)).trans (handle_spec st call).1

/-- **After a run a row is there as the last call about it says.** -/
theorem mem_handleAll (st : State) (calls : List KernelCall) (row : Subscription) :
    row ∈ (st.handleAll calls).subscriptions ↔
      Replica.after (KernelCall.row st.id) row (row ∈ st.subscriptions) calls := by
  induction calls generalizing st with
  | nil => exact Iff.rfl
  | cons call calls ih =>
    obtain ⟨hid, hrow⟩ := handle_spec st call
    have hrest := ih (st.handle call)
    rw [hid, propext (hrow row)] at hrest
    exact hrest

/-! ## The history of one client -/

variable {c : Uuid} {channel : String}

/-- What the call says when it is a request of `c` for `channel`. -/
def KernelCall.own (c : Uuid) (channel : String) (call : KernelCall) : Option Bool :=
  if call.context = .onClient ∧ call.entityId = c then
    match call.command with
    | some (.subscribe _ ch) => if ch = channel then some true else none
    | some (.unsubscribe _ ch) => if ch = channel then some false else none
    | _ => none
  else none

/-- The last request of `c` for `channel` was a subscription. -/
def lastOwn (c : Uuid) (channel : String) (calls : List KernelCall) : Bool :=
  (calls.filterMap (KernelCall.own c channel)).getLast? == some true

/-- No peer subscribes `c` to `channel`, and none clears the row of the node itself. -/
def KernelCall.Respects (nodeId c : Uuid) (channel : String) (call : KernelCall) : Prop :=
  call.context = .onSession → call.command ≠ some (.subscribe c channel) ∧
    (call.entityId = nodeId → call.command ≠ some (.unsubscribe c channel))

theorem KernelCall.byClient {call : KernelCall} {command : Command}
    (hctx : call.context = .onClient)
    (h : call.command = some command) : command.ByClient call.entityId := by
  obtain ⟨t, hd⟩ := decoded_of_command h
  rw [hctx] at hd
  exact decode_byClient hd

theorem lastOwn_nil : lastOwn c channel [] = false := rfl

theorem lastOwn_concat (calls : List KernelCall) (call : KernelCall) :
    lastOwn c channel (calls ++ [call]) =
      ((call.own c channel).getD (lastOwn c channel calls)) := by
  unfold lastOwn
  rw [List.filterMap_append]
  cases h : call.own c channel with
  | none => simp [h]
  | some b => cases b <;> simp [h]

theorem of_own {call : KernelCall} {b : Bool} (h : call.own c channel = some b) :
    call.context = .onClient ∧ call.entityId = c ∧
      call.command = some (if b then .subscribe c channel else .unsubscribe c channel) := by
  unfold KernelCall.own at h
  split at h
  · rename_i hcall
    obtain ⟨hctx, rfl⟩ := hcall
    refine ⟨hctx, rfl, ?_⟩
    split at h
    · rename_i d ch hc
      cases call.byClient hctx hc
      split at h
      · rename_i hch
        cases h
        rw [hc, hch]
        rfl
      · cases h
    · rename_i d ch hc
      cases call.byClient hctx hc
      split at h
      · rename_i hch
        cases h
        rw [hc, hch]
        rfl
      · cases h
    · cases h
  · cases h

/-- A client's own request is about its own row. -/
theorem row_of_own {call : KernelCall} {n : Uuid} {b : Bool} (h : call.own c channel = some b) :
    call.row n = some (⟨n, c, channel⟩, b) := by
  obtain ⟨hctx, -, hc⟩ := of_own h
  rw [KernelCall.row, hc, KernelCall.owner, hctx]
  cases b <;> rfl

/-- Among the calls that respect `c`, no other is about its row. -/
theorem own_of_row {call : KernelCall} {n : Uuid} {b : Bool} (hr : call.Respects n c channel)
    (h : call.row n = some (⟨n, c, channel⟩, b)) : call.own c channel = some b := by
  obtain ⟨command, hc, hrow⟩ := Option.bind_eq_some_iff.mp h
  cases hctx : call.context with
  | onClient =>
    have hby := call.byClient hctx hc
    have howner : call.owner n = n := by rw [KernelCall.owner, hctx]
    rw [howner] at hrow
    cases hby <;> cases hrow
    · simp [KernelCall.own, hctx, hc]
    · simp [KernelCall.own, hctx, hc]
  | onSession =>
    obtain ⟨hsub, hunsub⟩ := hr hctx
    have howner : call.owner n = call.entityId := by rw [KernelCall.owner, hctx]
    rw [howner] at hrow
    cases command <;> cases hrow
    · exact absurd hc hsub
    · exact absurd hc (hunsub rfl)

/-- The row of the node follows the history of the client. -/
theorem after_own {n : Uuid} {calls : List KernelCall}
    (hr : ∀ call ∈ calls, call.Respects n c channel) :
    Replica.after (KernelCall.row n) ⟨n, c, channel⟩ False calls ↔
      lastOwn c channel calls = true := by
  induction calls using List.reverseRecOn with
  | nil => simp [lastOwn_nil]
  | append_singleton calls call ih =>
    have hlast := ih fun call' h => hr call' (List.mem_append_left _ h)
    have hcall := hr call (List.mem_append_right _ List.mem_cons_self)
    rw [Replica.after_append, Replica.after_cons, Replica.after_nil, lastOwn_concat]
    cases ho : call.own c channel with
    | none =>
      have hidle : ∀ b, call.row n ≠ some (⟨n, c, channel⟩, b) := by
        intro b hb
        rw [own_of_row hcall hb] at ho
        cases ho
      rw [Replica.apply_idle hidle]
      exact hlast
    | some b => rw [Replica.apply_self (row_of_own ho)]; rfl

/-- A row of another session for `c` and `channel` was set by a peer. -/
theorem not_after_foreign {n s : Uuid} {calls : List KernelCall}
    (hr : ∀ call ∈ calls, call.Respects n c channel) (hs : s ≠ n) :
    ¬ Replica.after (KernelCall.row n) ⟨s, c, channel⟩ False calls := by
  intro h
  obtain hf | ⟨call, hmem, hrow⟩ := Replica.of_after h
  · exact hf
  · obtain ⟨command, hc, hrow⟩ := Option.bind_eq_some_iff.mp hrow
    cases hctx : call.context with
    | onClient =>
      have howner : call.owner n = n := by rw [KernelCall.owner, hctx]
      rw [howner] at hrow
      cases command <;> cases hrow
      exact hs rfl
    | onSession =>
      cases command <;> cases hrow
      exact (hr call hmem hctx).1 hc

variable {st : State} {calls : List KernelCall}

/-- **The answer of `is_subscribed` is the client's own history.** -/
theorem isSubscribed_handleAll (h₀ : ∀ row ∈ st.subscriptions, row.clientId ≠ c)
    (hr : ∀ call ∈ calls, call.Respects st.id c channel) :
    (st.handleAll calls).isSubscribed c channel = lastOwn c channel calls := by
  have hrow : ∀ s, ⟨s, c, channel⟩ ∈ (st.handleAll calls).subscriptions ↔
      Replica.after (KernelCall.row st.id) ⟨s, c, channel⟩ False calls := by
    intro s
    rw [mem_handleAll, propext (iff_false_intro fun h => h₀ _ h rfl)]
  rw [Bool.eq_iff_iff, State.isSubscribed_iff, ← after_own hr]
  constructor
  · rintro ⟨⟨s, d, ch⟩, hmem, rfl, rfl⟩
    have hafter := (hrow s).mp hmem
    by_cases hs : s = st.id
    · subst hs
      exact hafter
    · exact absurd hafter (not_after_foreign hr hs)
  · intro hafter
    exact ⟨_, (hrow st.id).mpr hafter, rfl, rfl⟩

/-- The row of the node itself is the client's own history. -/
theorem hasKey_handleAll (h₀ : ∀ row ∈ st.subscriptions, row.clientId ≠ c)
    (hr : ∀ call ∈ calls, call.Respects st.id c channel) :
    (st.handleAll calls).subscriptions.hasKey ⟨st.id, c, channel⟩ = lastOwn c channel calls := by
  rw [Bool.eq_iff_iff, Table.hasKey_iff, ← after_own hr,
    ← propext (iff_false_intro fun h => h₀ ⟨st.id, c, channel⟩ h rfl), ← mem_handleAll]
  constructor
  · rintro ⟨row, hmem, rfl⟩
    exact hmem
  · intro hmem
    exact ⟨_, hmem, rfl⟩

/-! ## Answers -/

/-- The kernel answers the call with this message. -/
def KernelCall.Answers (call : KernelCall) (st : State) (message : String) : Prop :=
  ∃ r w, call.run st = (.ok r, w) ∧ r.data.find? "message" = some (.string message)

/-- The message with which the command of a call is answered. -/
theorem answers_of_command {call : KernelCall} {command : Command} {message : String}
    {d : Object}
    (h : call.command = some command) (hn : ∀ host sp cp, command ≠ .session host sp cp)
    (ho : ∀ t, (outcome (.start call.env st)
      (requestOf (.start call.env st) call.data call.context call.entityId t) command).reply =
        some (message, d)) : call.Answers st message := by
  obtain ⟨t, hd⟩ := decoded_of_command h
  obtain ⟨w', runtime, hk, -⟩ := kernel_accepted (.start call.env st) call.data call.context
    call.entityId hd fun host sp cp he => absurd he (hn host sp cp)
  rw [ho t] at hk
  exact ⟨_, w', hk, rfl⟩

theorem answers_isSubscribed (st : State) {call : KernelCall}
    (h : call.command = some (.isSubscribed channel)) :
    call.Answers st (getStatus (st.isSubscribed call.entityId channel) "yes" "no") :=
  answers_of_command h (by simp) fun _ => rfl

/-- A client's own request takes effect unless its row is so already. -/
theorem answers_own (st : State) {call : KernelCall} {b : Bool} (h : call.own c channel = some b) :
    call.Answers st (getStatus (st.subscriptions.hasKey ⟨st.id, c, channel⟩ != b)) := by
  obtain ⟨hctx, -, hc⟩ := of_own h
  have howner : ∀ t, owner (requestOf (.start call.env st) call.data call.context
      call.entityId t) st = st.id := fun t => by simp [owner, requestOf, hctx]
  cases b with
  | true =>
    refine answers_of_command (d := []) hc (by simp) fun t => ?_
    show some (getStatus (st.subscribe (owner _ st) c channel).2, []) = _
    rw [howner, State.subscribe_snd, Bool.bne_true]
  | false =>
    refine answers_of_command (d := []) hc (by simp) fun t => ?_
    show some (getStatus (st.unsubscribe (owner _ st) c channel).2, []) = _
    rw [howner, State.unsubscribe_snd, Bool.bne_false]

/-- **Subscriptions are a set for each client**: in a run whose calls respect `c`, the client is
told what its own requests made of `channel`. -/
theorem answers_own_history (h₀ : ∀ row ∈ st.subscriptions, row.clientId ≠ c)
    (hr : ∀ call ∈ calls, call.Respects st.id c channel) {call : KernelCall}
    (hctx : call.context = .onClient) (hid : call.entityId = c) :
    (call.command = some (.isSubscribed channel) → call.Answers (st.handleAll calls)
      (if lastOwn c channel calls then "yes" else "no")) ∧
    (call.command = some (.subscribe c channel) → call.Answers (st.handleAll calls)
      (if lastOwn c channel calls then "no effect" else "ok")) ∧
    (call.command = some (.unsubscribe c channel) → call.Answers (st.handleAll calls)
      (if lastOwn c channel calls then "ok" else "no effect")) := by
  have hkey := hasKey_handleAll h₀ hr
  have hsub := isSubscribed_handleAll h₀ hr
  subst hid
  rw [← handleAll_id st calls] at hkey
  refine ⟨fun hc => ?_, fun hc => ?_, fun hc => ?_⟩
  · have ha := answers_isSubscribed (st.handleAll calls) hc
    rw [hsub] at ha
    exact ha
  · have ho : call.own call.entityId channel = some true := by simp [KernelCall.own, hctx, hc]
    have ha := answers_own (st.handleAll calls) ho
    rw [hkey] at ha
    cases hl : lastOwn call.entityId channel calls <;> rw [hl] at ha <;> exact ha
  · have ho : call.own call.entityId channel = some false := by simp [KernelCall.own, hctx, hc]
    have ha := answers_own (st.handleAll calls) ho
    rw [hkey] at ha
    cases hl : lastOwn call.entityId channel calls <;> rw [hl] at ha <;> exact ha

/-! ### One client and one peer -/

def newsData (action : String) : Object :=
  [("transaction_id", .string Uuid.nil.toString), ("action", .string action),
    ("params", .object [("channel", .string "news")])]

/-- A request of the first client. -/
def newsCall (action : String) : KernelCall :=
  ⟨newsData action, .onClient, firstClient, World.pair.env⟩

def peerSession : Uuid := ⟨List.replicate 16 8, rfl⟩

/-- A peer subscribes the first client. -/
def peerCall : KernelCall :=
  ⟨serialize (requestObject Uuid.nil "subscribe" (subscriptionParams firstClient "news")),
    .onSession, peerSession, World.pair.env⟩

theorem command_newsCall {action : String} {command : Command}
    (h : decodeAction ⟨Uuid.nil, firstClient, .onClient, newsData action, 0⟩ action =
      .ok (.ok command)) : (newsCall action).command = some command := by
  refine command_of_decoded (t := Uuid.nil) ?_
  show decode (newsData action) .onClient firstClient = _
  rw [decode_of_envelope rfl ⟨rfl, isUuid_toString Uuid.nil⟩ (lexicalCast_toString Uuid.nil), h]
  rfl

theorem command_asks : (newsCall "is_subscribed").command = some (.isSubscribed "news") :=
  command_newsCall (by rw [decodeAction_isSubscribed]; rfl)

/-- The client subscribes and asks. -/
theorem answers_after_subscribe :
    (∀ call ∈ [newsCall "subscribe"], call.Respects World.pair.state.id firstClient "news") ∧
    (newsCall "is_subscribed").Answers (World.pair.state.handleAll [newsCall "subscribe"])
      (if lastOwn firstClient "news" [newsCall "subscribe"] then "yes" else "no") := by
  have hr : ∀ call ∈ [newsCall "subscribe"],
      call.Respects World.pair.state.id firstClient "news" := by
    intro call hcall
    cases List.mem_singleton.mp hcall
    intro hctx
    cases hctx
  exact ⟨hr, (answers_own_history (fun row h => absurd h (Table.not_mem_empty row)) hr rfl rfl).1
    command_asks⟩

/-- The peer subscribes the client, which is told so although it never subscribed. -/
theorem answers_for_peer : lastOwn firstClient "news" [peerCall] = false ∧
    (newsCall "is_subscribed").Answers (World.pair.state.handleAll [peerCall]) "yes" := by
  have hc : peerCall.command = some (.subscribe firstClient "news") :=
    command_of_decoded (decode_subscribe (built_requestObject _ _ _))
  have hrow : ⟨peerSession, firstClient, "news"⟩ ∈
      (World.pair.state.handleAll [peerCall]).subscriptions := by
    have hset : peerCall.row World.pair.state.id =
        some (⟨peerSession, firstClient, "news"⟩, true) := by
      rw [KernelCall.row, hc]
      rfl
    rw [mem_handleAll, Replica.after_cons, Replica.after_nil, Replica.apply_self hset]
  have hsub : (World.pair.state.handleAll [peerCall]).isSubscribed firstClient "news" = true :=
    State.isSubscribed_iff.mpr ⟨_, hrow, rfl, rfl⟩
  refine ⟨rfl, ?_⟩
  have ha := answers_isSubscribed (World.pair.state.handleAll [peerCall]) command_asks
  rw [show (newsCall "is_subscribed").entityId = firstClient from rfl, hsub] at ha
  exact ha

end Aewt
