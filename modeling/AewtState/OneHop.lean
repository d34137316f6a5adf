import AewtState.Traffic
import AewtState.Transparency
import AewtState.Lib.Pipeline

/-!
# One hop

`forwarding` reads the numbers of a client's requests that were, are being or will be forwarded
on one session as the contents of a pipeline without fan-out.

Principal result: `one_hop` — a message from a peer is not passed on to a session, so in every
topology a request is forwarded at most once on each session of the client's node and by no
other node.
-/

set_option autoImplicit false

namespace Aewt

namespace View

variable {N : Type} [DecidableEq N] {G : Topology N}

/-- The requests of `e` that its handler forwarded on the session `u`, from the log. -/
def forwarded (V : View N) (e u : Strand N) : List Nat :=
  indices e ((V.log.filter fun x => x.1 = e && x.2.value.goesTo e.node u).map Prod.snd)

/-- The requests of `e` on their way to the session `u` of its node: forwarded, about to be, or
not yet read. -/
def forwarding (V : View N) (e u : Strand N) : List Nat :=
  V.forwarded e u ++ V.onward e u

/-- A text to the session `u` is sent by the handler of a client at most once. -/
theorem goesTo_once {e : Strand N} {s : Uuid} (es : List Effect) :
    (es.filter fun a => a.goesTo e.node ⟨e.node, .onSession, s⟩).length =
      (textsTo s es).length := by
  induction es with
  | nil => rfl
  | cons a es ih =>
    cases a with
    | session s' text =>
      by_cases hs : s' = s
      · subst hs
        simpa [Effect.goesTo, Effect.destination, textsTo] using ih
      · simpa [Effect.goesTo, Effect.destination, textsTo, hs] using ih
    | client c text => simpa [Effect.goesTo, Effect.destination, textsTo] using ih
    | dial id host port => simpa [Effect.goesTo, Effect.destination, textsTo] using ih

theorem forwarded_post (V : View N) (t : Strand N) (x : Traced N Effect)
    (xs : List (Traced N Effect)) (e u : Strand N) :
    (V.post G t x xs).forwarded e u = V.forwarded e u ++
      if t = e ∧ x.value.goesTo e.node u then indices e [x] else [] := by
  simp only [forwarded, post_log, List.filter_append, List.map_append, indices_append]
  congr 1
  by_cases ht : t = e <;> by_cases hx : x.value.goesTo e.node u = true <;> simp [ht, hx]

/-- One step of the pipeline. -/
theorem forwarding_flow {V W : View N} (hs : V.Step G W) {e : Strand N}
    (he : e.context = .onClient) (s : Uuid) :
    Pipeline.Flow (· < ·) (V.issued e) (V.forwarding e ⟨e.node, .onSession, s⟩)
      (W.issued e) (W.forwarding e ⟨e.node, .onSession, s⟩) := by
  cases hs with
  | quiet => exact .same _ _
  | request t frame client => exact onward_request _ t _ frame rfl rfl rfl
  | announce t text =>
    rw [send_issued, forwarding, forwarding, forwarded, forwarded, send_log,
      onward_announce V t _ text he]
    exact .same _ _
  | read t f fs env st w mail idle eq =>
    by_cases ht : t = e
    · subst ht
      refine onward_read _ _ _ mail idle fun k _ => .inl ?_
      -- the handler of a client sends at most one text on a session
      obtain ⟨n, context, id⟩ := t
      cases he
      obtain ⟨es, hes, -, honce⟩ := effects_of_request eq
      rw [goesTo_once, hes]
      exact honce s
    · have hne : e ≠ t := fun h => ht h.symm
      rw [forwarding, forwarding, onward_start hne]
      exact .same _ _
  | post t x xs pending =>
    rw [post_issued, forwarding, forwarding, forwarded_post, onward_post (G := G) pending he,
      List.append_assoc]
    exact .same _ _

end View

namespace Network

variable {N : Type} [DecidableEq N]

/-- The text was sent on the session `u` for request `k` of client `e`, and not by the handler of
`u` itself. -/
def forwards (e : Strand N) (k : Nat) (u : Strand N) (x : Strand N × Traced N Effect) : Bool :=
  x.2.index? e = some k && x.2.value.goesTo x.1.node u && x.1 ≠ u

/-- Only the client's own handler forwards a request. -/
theorem forwards_client {G : Topology N} {V : View N} (h : V.Traffic G) {e u : Strand N} {k : Nat}
    (hu : u.context = .onSession) {x : Strand N × Traced N Effect} (hx : x ∈ V.log)
    (hf : forwards e k u x = true) : x.1 = e ∧ e.context = .onClient ∧ u.node = e.node := by
  obtain ⟨t, y⟩ := x
  simp only [forwards, Bool.and_eq_true, decide_eq_true_eq] at hf
  obtain ⟨⟨hk, hgoes⟩, hne⟩ := hf
  obtain ⟨o, ho, hc, -⟩ := index?_eq_some.mp hk
  have hsends := h.log _ hx o ho
  obtain ⟨n, context, id⟩ := t
  obtain ⟨m, context', s⟩ := u
  cases hu
  have hsession : ∃ text, y.value = .session s text ∧ n = m := by
    cases hv : y.value with
    | session s' text =>
      rw [hv] at hgoes
      simp only [Effect.goesTo, Effect.destination, Option.any_some, decide_eq_true_eq] at hgoes
      cases hgoes
      exact ⟨text, rfl, rfl⟩
    | client c text => simp [hv, Effect.goesTo, Effect.destination] at hgoes
    | dial id host port => simp [hv, Effect.goesTo, Effect.destination] at hgoes
  obtain ⟨text, hv, rfl⟩ := hsession
  cases context with
  | onClient =>
    obtain ⟨hclient, -⟩ := hsends
    rw [hclient] at hc
    subst hc
    exact ⟨rfl, rfl, rfl⟩
  | onSession =>
    rcases hsends with ⟨text', he, -⟩ | ⟨c, text', p, he, -⟩
    · rw [hv] at he
      cases he
      exact absurd rfl hne
    · rw [hv] at he
      cases he

/-- The forwardings in the log are what the pipeline has let out. -/
theorem countP_forwards {G : Topology N} {V : View N} (h : V.Traffic G) {e u : Strand N}
    (k : Nat) (hu : u.context = .onSession) :
    V.log.countP (forwards e k u) ≤ (V.forwarded e u).count k := by
  have hcount : (V.forwarded e u).count k = V.log.countP fun x =>
      x.2.index? e = some k && (x.1 = e && x.2.value.goesTo e.node u) := by
    simp only [View.forwarded, indices, List.count, List.countP_filterMap, List.countP_map,
      List.countP_filter]
    congr 1
    funext x
    cases hx : x.2.index? e <;> simp [hx, beq_eq_decide]
  rw [hcount]
  apply List.countP_mono_left
  intro x hx hf
  obtain ⟨he, -⟩ := forwards_client h hu hx hf
  simp only [forwards, Bool.and_eq_true, decide_eq_true_eq] at hf ⊢
  rw [he] at hf
  exact ⟨hf.1.1, he, hf.1.2⟩

theorem numbered_of_run {G : Topology N} {as : List (Action N)} {Y : Network N}
    (h : Run.exec (step G) {} as = some Y) {e : Strand N} (he : e.context = .onClient)
    (s : Uuid) : Pipeline.Numbered (· < ·) (Y.issued e)
      ((Y.view G).forwarding e ⟨e.node, .onSession, s⟩) := by
  refine view_invariant G (I := fun V => Pipeline.Numbered (· < ·) (V.issued e)
    (V.forwarding e ⟨e.node, .onSession, s⟩)) (fun hI hs => ?_) ?_ h
  · exact hI.of_flow id (View.forwarding_flow hs he s)
  · rw [view_empty]
    exact Pipeline.Numbered.nil 0

/-- **Messages are relayed once.**  While it handles a message from session `s` the kernel sends
to no session but `s`, and to `s` only what `sync` reports on the action `register`.  In every
topology a request is forwarded at most once on each session, and only by the handler of the
client that sent it, on the sessions of its own node. -/
theorem one_hop :
    (∀ (w : World) (data : Object) (s : Uuid), ∃ es,
      (kernel data .onSession s w).2.effects = w.effects ++ es ∧
      ∀ id text, Effect.session id text ∈ es →
        id = s ∧ data.find? "action" = some (.string "register") ∧
        ∃ st registered,
          Effect.session id text ∈ syncTexts w.env.random w.drawn st s registered) ∧
    ∀ {N : Type} [DecidableEq N] (G : Topology N) (as : List (Action N)) (Y : Network N),
      Run.exec (step G) {} as = some Y →
      ∀ (e u : Strand N) (k : Nat), u.context = .onSession →
        Y.log.countP (forwards e k u) ≤ 1 ∧
        ∀ x ∈ Y.log, forwards e k u x = true →
          x.1 = e ∧ e.context = .onClient ∧ u.node = e.node := by
  refine ⟨kernel_onSession, ?_⟩
  intro N _ G as Y hY e u k hu
  have htraffic := traffic_of_run hY
  refine ⟨?_, fun x hx hf => forwards_client htraffic hu hx hf⟩
  by_cases hnone : ∀ x ∈ Y.log, ¬ forwards e k u x = true
  · rw [List.countP_eq_zero.mpr hnone]
    exact Nat.zero_le 1
  · push Not at hnone
    obtain ⟨x, hx, hf⟩ := hnone
    obtain ⟨-, he, hnode⟩ := forwards_client htraffic hu hx hf
    obtain ⟨n, context, s⟩ := u
    cases hu
    cases hnode
    calc Y.log.countP (forwards e k ⟨e.node, .onSession, s⟩)
        ≤ ((Y.view G).forwarded e ⟨e.node, .onSession, s⟩).count k :=
          countP_forwards htraffic k rfl
      _ ≤ ((Y.view G).forwarding e ⟨e.node, .onSession, s⟩).count k := by
          rw [View.forwarding, List.count_append]
          exact Nat.le_add_right _ _
      _ ≤ 1 := (numbered_of_run hY he s).count_le_one k

/-! ## Two sockets between two nodes -/

def socketId (k : UInt8) : Uuid := ⟨List.replicate 16 k, by simp⟩

def nodeId (b : Bool) : Uuid := if b then Uuid.nil else socketId 7

/-- Two nodes whose sessions with the given ids, the same at both ends, are connected. -/
def twoNodes (ids : List Uuid) : Topology Bool where
  id := nodeId
  links b s := if s ∈ ids then some (!b, s) else none
  symm := by
    intro b s b' s' h
    split at h
    · rename_i hs
      cases h
      simp [hs]
    · cases h

/-- A node with the sessions `ids` and one client. -/
def nodeState (ids : List Uuid) (b : Bool) : State :=
  let st : State := ⟨nodeId b, {}, Table.empty _, Table.empty _, Table.empty _⟩
  (ids.foldl (fun st s => (st.addSession { id := s }).1) st |>.addClient
    ⟨if b then firstClient else secondClient, nodeId b⟩).1

def sender : Strand Bool := ⟨true, .onClient, firstClient⟩

def socketEnd (b : Bool) (k : UInt8) : Strand Bool := ⟨b, .onSession, socketId k⟩

/-- The client of the first node broadcasts; the second node reads both copies. -/
def relay : List (Action Bool) :=
  [.request true firstClient (.object broadcastData),
    .read sender World.pair.env (nodeState [socketId 8, socketId 9] true),
    .post sender, .post sender, .post sender,
    .onSend (socketEnd true 8), .onWrite (socketEnd true 8),
    .onSend (socketEnd true 9), .onWrite (socketEnd true 9),
    .read (socketEnd false 9) World.pair.env (nodeState [socketId 8, socketId 9] false),
    .post (socketEnd false 9), .post (socketEnd false 9),
    .read (socketEnd false 8) World.pair.env (nodeState [socketId 8, socketId 9] false),
    .post (socketEnd false 8), .post (socketEnd false 8)]

theorem exec_relay : (Run.exec (step (twoNodes [socketId 8, socketId 9])) {} relay).any (fun Y =>
    decide (Y.log.length = 7 ∧ Y.log.countP (forwards sender 0 (socketEnd true 8)) = 1)) =
    true := by
  decide +kernel

/-- The broadcast is forwarded on both sockets, once on each, and ends there. -/
theorem one_hop_relay : ∃ Y,
    Run.exec (step (twoNodes [socketId 8, socketId 9])) {} relay = some Y ∧
    Y.log.length = 7 ∧ Y.log.countP (forwards sender 0 (socketEnd true 8)) = 1 ∧
    Y.log.countP (forwards sender 0 (socketEnd true 9)) ≤ 1 ∧
    ∀ x ∈ Y.log, forwards sender 0 (socketEnd false 8) x = false := by
  have heval := exec_relay
  simp only [Option.any_eq_true, decide_eq_true_eq] at heval
  obtain ⟨Y, hY, hlen, hone⟩ := heval
  refine ⟨Y, hY, hlen, hone, (one_hop.2 _ _ Y hY sender (socketEnd true 9) 0 rfl).1,
    fun x hx => ?_⟩
  rw [Bool.eq_false_iff]
  intro hf
  have hnode := ((one_hop.2 _ _ Y hY sender (socketEnd false 8) 0 rfl).2 x hx hf).2.2
  cases hnode

end Network

end Aewt
