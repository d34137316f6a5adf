import AewtState.Order

/-!
# Answers

What a client is answered, whatever the other connections of its node do.

* `AnswerTo` — the response of the kernel to a frame, or the text for a frame that is no object.
* `isAnswer` — how answers differ from everything else that requests cause: they carry no
  `params`.
* `Answered` — the frames of a client, as far as they have been read, and the answers to them
  stand against each other one by one.

Principal result: `answered_in_order` — in every run each frame that a client sent is answered
once, to that client alone, and in the order of the frames.
-/

set_option autoImplicit false

namespace Aewt

/-! ## What one handler answers -/

/-- The text with which client `c` of node `n` is answered. -/
inductive AnswerTo (n c : Uuid) : Frame → Text → Prop where
  | response (data : Object) (w w' : World) (response : Response)
    (node : w.state.id = n) (eq : kernel data .onClient c w = (.ok response, w')) :
    AnswerTo n c (.object data) (serialize response.data)
  | unprocessable (timestamp runtime : Int64) :
    AnswerTo n c .other (serialize (unprocessableBody timestamp runtime))

def carriesParams (text : Text) : Bool := text.contains "params"

theorem carriesParams_requestObject (t : Uuid) (action : String) (params : Object) :
    carriesParams (serialize (requestObject t action params)) = true := by
  simp [carriesParams, Object.contains, serialize, requestObject]

theorem not_carriesParams_successData (t : Uuid) (message : String) (timestamp runtime : Int64)
    (data : Object) :
    carriesParams (serialize (successData t message timestamp runtime data)) = false := by
  simp [carriesParams, Object.contains, serialize, successData]

theorem not_carriesParams_failedData (t : Uuid) (message : String) (timestamp runtime : Int64)
    (bag : List (String × String)) :
    carriesParams (serialize (failedData t message timestamp runtime bag)) = false := by
  simp [carriesParams, Object.contains, serialize, failedData]

section

variable {w w' : World} {request : Request} {command : Command} {c : Uuid} {text : Text}

/-- A command sends clients nothing but notices. -/
theorem outcome_client_text (h : Effect.client c text ∈ (outcome w request command).effects) :
    carriesParams text = true := by
  have hsessions : ∀ {st : State} {data : Object}, Effect.client c text ∉ toSessions st data := by
    intro st data hm
    obtain ⟨s, -, hs⟩ := List.mem_map.mp hm
    cases hs
  have hrelayed : ∀ {es : List Effect}, Effect.client c text ∈ relayed request es →
      Effect.client c text ∈ es := by
    intro es hm
    unfold relayed at hm
    split at hm
    · exact hm
    · cases hm
  have hothers : ∀ {t o d : Uuid} {action : String} {params : Object},
      Effect.client c text ∈ toOthersClients w.state (requestObject t action params) o d →
        carriesParams text = true := by
    intro t o d action params hm
    obtain ⟨row, -, hrow⟩ := List.mem_map.mp hm
    cases hrow
    exact carriesParams_requestObject t action params
  cases command with
  | ping | ack | noEffect | isSubscribed | join | leave => cases h
  | send f t payload =>
    simp only [outcome, sendOutcome] at h
    split at h
    · split at h
      · rw [List.mem_singleton] at h
        cases h
        exact carriesParams_requestObject _ _ _
      · split at h
        · obtain ⟨s, -, hs⟩ := List.mem_map.mp h
          cases hs
        · cases h
    · cases h
  | register sp cp registered =>
    simp only [outcome, registerOutcome] at h
    split at h
    · simp only [syncTexts, List.mem_append] at h
      rcases h with h | h | h <;>
      · obtain ⟨t, a, -, ha⟩ := mem_announced h
        cases ha
    · cases h
  | session host sp cp =>
    simp only [outcome, sessionOutcome] at h
    split at h
    · cases h
    · simp at h
  | subscribe d ch | unsubscribe d ch => exact absurd (hrelayed h) hsessions
  | broadcast d payload =>
    rcases List.mem_append.mp h with h | h
    · exact hothers h
    · exact absurd (hrelayed h) hsessions
  | publish d ch payload =>
    rcases List.mem_append.mp h with h | h
    · exact hothers h
    · obtain ⟨s, -, hs⟩ := List.mem_map.mp (hrelayed h)
      cases hs

/-- The response carries no `params`. -/
theorem not_carriesParams_acceptance (t : Uuid) (timestamp runtime : Int64)
    (reply : Option (String × Object)) :
    carriesParams (serialize (acceptance t timestamp runtime reply).data) = false := by
  cases reply with
  | none => rfl
  | some r => exact not_carriesParams_successData t r.1 timestamp runtime r.2

/-- **A client's handler sends notices, and one answer at the end.** -/
theorem Client.onRead_answer {frame : Frame} (h : Client.onRead c frame w = (.ok (), w')) :
    ∃ es answer, w'.effects = w.effects ++ (es ++ [.client c answer]) ∧
      AnswerTo w.state.id c frame answer ∧ carriesParams answer = false ∧
      ∀ d text, Effect.client d text ∈ es → carriesParams text = true := by
  cases frame with
  | other =>
    cases h
    refine ⟨[], _, rfl, .unprocessable _ _, ?_, by simp⟩
    simp [carriesParams, Object.contains, serialize, unprocessableBody]
  | object data =>
    cases kernel_cases w.ticked data .onClient c with
    | raised e v eq idle =>
      rw [Client.onRead_object, M.bind_error eq] at h
      cases h
    | rejected t field message runtime v decoded eq idle =>
      rw [Client.onRead_of_kernel eq] at h
      cases h
      refine ⟨[], _, ?_, .response data w.ticked v _ rfl eq, ?_, by simp⟩
      · rw [World.emit_effects, idle.effects]
        rfl
      · exact not_carriesParams_failedData t _ _ runtime _
    | accepted t command runtime v decoded eq acted =>
      rw [Client.onRead_of_kernel eq] at h
      cases h
      refine ⟨(outcome w.ticked (requestOf w.ticked data .onClient c t) command).effects, _, ?_,
        .response data w.ticked v _ rfl eq, not_carriesParams_acceptance t _ runtime _,
        fun d text hm => outcome_client_text hm⟩
      rw [World.emit_effects, acted.effects, List.append_assoc]
      rfl

/-- A session's handler sends clients notices alone. -/
theorem Session.onRead_client {s : Uuid} {frame : Frame}
    (h : Session.onRead s frame w = (.ok (), w')) :
    ∃ es, w'.effects = w.effects ++ es ∧
      ∀ d text, Effect.client d text ∈ es → carriesParams text = true := by
  cases frame with
  | other =>
    cases h
    exact ⟨[.session s _], rfl, by simp⟩
  | object data =>
    cases sessionRead s data w with
    | raised e v eq =>
      rw [eq] at h
      cases h
    | rejected t field message reply v decoded eq state effects isReply =>
      rw [eq] at h
      cases h
      exact ⟨_, effects, by simp⟩
    | accepted t command request replies v decoded transactionId entityId context eq state
        effects successes =>
      rw [eq] at h
      cases h
      refine ⟨_, by rw [effects, List.append_assoc], fun d text hm => ?_⟩
      rcases List.mem_append.mp hm with hm | hm
      · exact outcome_client_text hm
      · obtain ⟨reply, -, hr⟩ := List.mem_map.mp hm
        cases hr

end

/-! ## On the strands -/

variable {N : Type}

/-- Caused by a request, and without `params`. -/
def Traced.isAnswer (x : Traced N Text) : Bool := x.origin.isSome && !carriesParams x.value

/-- What an effect sends to the client `c`. -/
def Traced.toClient (c : Uuid) (x : Traced N Effect) : Option (Traced N Text) :=
  match x.value with
  | .client d text => if d = c then some ⟨x.origin, text⟩ else none
  | _ => none

/-- The answers among what the handler of `e` has still to send. -/
def answering (e : Strand N) (es : List (Traced N Effect)) : List (Traced N Text) :=
  (es.filterMap (Traced.toClient e.id)).filter Traced.isAnswer

theorem answering_append (e : Strand N) (es fs : List (Traced N Effect)) :
    answering e (es ++ fs) = answering e es ++ answering e fs := by
  simp [answering]

theorem answering_cons (e : Strand N) (x : Traced N Effect) (xs : List (Traced N Effect)) :
    answering e (x :: xs) =
      (x.toClient e.id).toList.filter Traced.isAnswer ++ answering e xs := by
  rw [← List.singleton_append, answering_append]
  cases h : x.toClient e.id <;> simp [answering, h]

theorem answering_caused_notices {e : Strand N} {o : Option (Origin N)} {es : List Effect}
    (h : ∀ d text, Effect.client d text ∈ es → carriesParams text = true) :
    answering e (Network.caused o es) = [] := by
  rw [answering, List.filter_eq_nil_iff]
  intro x hx
  obtain ⟨y, hy, hxy⟩ := List.mem_filterMap.mp hx
  obtain ⟨a, ha, rfl⟩ := List.mem_map.mp hy
  cases a with
  | client d text =>
    simp only [Traced.toClient] at hxy
    split at hxy
    · cases hxy
      simp [Traced.isAnswer, h d text ha]
    · cases hxy
  | _ => cases hxy

namespace View

variable (G : Topology N)

/-- A frame with its number, and the answer to it. -/
def AnsweredBy (e : Strand N) (p : Frame × ℕ) (x : Traced N Text) : Prop :=
  x.origin = some ⟨e, p.2, 1⟩ ∧ AnswerTo (G.id e.node) e.id p.1 x.value

/-- The request `p.2` of `e`. -/
def requested (e : Strand N) (p : Frame × ℕ) : Traced N Frame := ⟨some ⟨e, p.2, 0⟩, p.1⟩

/-- The answers to `e`, sent or to be sent. -/
def answers (V : View N) (e : Strand N) : List (Traced N Text) :=
  (V.sent e).filter Traced.isAnswer ++ answering e (V.pending e)

/-- The frames `fs` of client `e`, as far as they were read, and the answers to them. -/
structure Answered (e : Strand N) (fs : List Frame) (V : View N) : Prop where
  issued : V.issued e = fs.length
  split : ∃ done todo, fs = done ++ todo ∧
    V.mail e = (todo.zipIdx done.length).map (requested e) ∧
    List.Forall₂ (AnsweredBy G e) done.zipIdx (V.answers e)

/-- Only its own handler has an answer to a client. -/
def Reserved (V : View N) : Prop :=
  ∀ t, ∀ x ∈ V.pending t, ∀ d text, x.value = .client d text →
    carriesParams text = true ∨ t.context = .onClient ∧ d = t.id

variable {G} [DecidableEq N] {V W : View N} {e : Strand N} {fs : List Frame}

theorem Reserved.of_step (h : Reserved V) (hs : V.Step G W) : Reserved W := by
  cases hs with
  | quiet => exact h
  | request t frame client => exact h
  | announce t text =>
    intro u x hx
    rw [send_pending] at hx
    exact h u x hx
  | read t f fs env st w mail idle eq =>
    intro u x hx d text hv
    rcases mem_update hx with ⟨rfl, hnew⟩ | hold
    · obtain ⟨a, ha, rfl⟩ := List.mem_map.mp hnew
      obtain ⟨n, context, id⟩ := u
      cases hv
      cases context with
      | onClient =>
        obtain ⟨es, answer, hes, -, -, hnotices⟩ := Client.onRead_answer eq
        rw [hes] at ha
        simp only [World.start, List.nil_append, List.mem_append, List.mem_singleton,
          Effect.client.injEq] at ha
        rcases ha with ha | ⟨rfl, -⟩
        · exact .inl (hnotices d text ha)
        · exact .inr ⟨rfl, rfl⟩
      | onSession =>
        obtain ⟨es, hes, hnotices⟩ := Session.onRead_client eq
        rw [hes] at ha
        exact .inl (hnotices d text (by simpa [World.start] using ha))
    · exact h u x hold d text hv
  | post t x xs pending =>
    intro u y hy
    rw [post_pending] at hy
    rcases mem_update hy with ⟨rfl, hrest⟩ | hold
    · exact h u y (by rw [pending]; exact List.mem_cons_of_mem _ hrest)
    · exact h u y hold

/-! ### The steps -/

omit [DecidableEq N] in
theorem Answered.congr (h : Answered G e fs V) (hi : W.issued e = V.issued e)
    (hm : W.mail e = V.mail e) (ha : W.answers e = V.answers e) : Answered G e fs W := by
  obtain ⟨done, todo, hfs, hmail, hall⟩ := h.split
  exact ⟨hi.trans h.issued, done, todo, hfs, hm.trans hmail, by rwa [ha]⟩

/-- A new frame. -/
theorem Answered.request (h : Answered G e fs V) (frame : Frame) :
    Answered G e (fs ++ [frame]) { V with
      mail := push V.mail e ⟨some ⟨e, V.issued e, 0⟩, frame⟩
      issued := Function.update V.issued e (V.issued e + 1) } := by
  obtain ⟨done, todo, rfl, hmail, hall⟩ := h.split
  refine ⟨?_, done, todo ++ [frame], by rw [List.append_assoc], ?_, hall⟩
  · change Function.update V.issued e _ e = _
    rw [Function.update_self, h.issued]
    simp [Nat.add_assoc]
  · change push V.mail e _ e = _
    rw [push_self, hmail, h.issued]
    simp [List.zipIdx_append, requested]

/-- The next frame is read. -/
theorem Answered.read (h : Answered G e fs V) {f : Traced N Frame} {rest : List (Traced N Frame)}
    {env : Env} {st : State} {w : World} (he : e.context = .onClient) (hst : st.id = G.id e.node)
    (mail : V.mail e = f :: rest) (idle : V.pending e = [])
    (eq : e.onRead f.value (.start env st) = (.ok (), w)) :
    Answered G e fs (V.start e rest (Network.caused f.origin w.effects)) := by
  obtain ⟨done, todo, rfl, hmail, hall⟩ := h.split
  cases todo with
  | nil =>
    rw [mail] at hmail
    cases hmail
  | cons frame todo =>
    rw [mail, List.zipIdx_cons, List.map_cons, List.cons.injEq] at hmail
    obtain ⟨rfl, rfl⟩ := hmail
    obtain ⟨es, answer, hes, hto, hno, hnotices⟩ : ∃ es answer,
        w.effects = [] ++ (es ++ [.client e.id answer]) ∧
          AnswerTo st.id e.id frame answer ∧ carriesParams answer = false ∧
            ∀ d text, Effect.client d text ∈ es → carriesParams text = true := by
      obtain ⟨n, context, id⟩ := e
      cases he
      exact Client.onRead_answer eq
    rw [hst] at hto
    have hanswers : (V.start e ((todo.zipIdx (done.length + 1)).map (requested e))
        (Network.caused (requested e (frame, done.length)).origin w.effects)).answers e =
          V.answers e ++ [⟨some ⟨e, done.length, 1⟩, answer⟩] := by
      have hlast : answering e (Network.caused (requested e (frame, done.length)).origin
          [.client e.id answer]) = [⟨some ⟨e, done.length, 1⟩, answer⟩] := by
        simp [answering, Network.caused, Traced.toClient, Traced.isAnswer, hno, requested,
          Origin.next]
      have hfirst := answering_caused_notices (e := e)
        (o := (requested e (frame, done.length)).origin) hnotices
      have hcaused : Network.caused (requested e (frame, done.length)).origin w.effects =
          Network.caused (requested e (frame, done.length)).origin es ++
            Network.caused (requested e (frame, done.length)).origin [.client e.id answer] := by
        simp [Network.caused, hes]
      simp only [answers, start, Function.update_self, idle, hcaused, answering_append, hfirst,
        hlast]
      simp [answering]
    refine ⟨h.issued, done ++ [frame], todo, by simp, ?_, ?_⟩
    · simp [start]
    · rw [hanswers, List.zipIdx_append]
      refine List.rel_append hall ?_
      simpa using ⟨rfl, hto⟩

/-- What an effect adds to the answers to `e`. -/
theorem answers_sent_post (V : View N) (he : e.context = .onClient) (t : Strand N)
    (x : Traced N Effect) (xs : List (Traced N Effect)) :
    ((V.post G t x xs).sent e).filter Traced.isAnswer = (V.sent e).filter Traced.isAnswer ++
      if t.node = e.node then ((x.toClient e.id).toList.filter Traced.isAnswer) else [] := by
  obtain ⟨n, context, c⟩ := e
  cases he
  obtain ⟨o, a⟩ := x
  cases a with
  | session s text =>
    have hne : (⟨n, .onClient, c⟩ : Strand N) ≠ ⟨t.node, .onSession, s⟩ := by simp
    simp [post, View.send, Effect.destination, push_of_ne _ _ _ hne, Traced.toClient]
  | dial id host port => simp [post, View.send, Effect.destination, Traced.toClient]
  | client d text =>
    by_cases hd : t.node = n ∧ d = c
    · obtain ⟨rfl, rfl⟩ := hd
      simp [post, View.send, Effect.destination, Traced.toClient]
    · have hne : (⟨n, .onClient, c⟩ : Strand N) ≠ ⟨t.node, .onClient, d⟩ := by
        rintro heq
        cases heq
        exact hd ⟨rfl, rfl⟩
      have hnone : (if t.node = n then
          ((Traced.toClient c ⟨o, .client d text⟩).toList.filter Traced.isAnswer)
          else []) = [] := by
        by_cases hn : t.node = n
        · have hdc : d ≠ c := fun h => hd ⟨hn, h⟩
          simp [Traced.toClient, hdc]
        · exact if_neg hn
      rw [hnone]
      simp [post, View.send, Effect.destination, push_of_ne _ _ _ hne]

/-- A running handler sends. -/
theorem Answered.post (h : Answered G e fs V) (hr : Reserved V) (he : e.context = .onClient)
    {t : Strand N} {x : Traced N Effect} {xs : List (Traced N Effect)}
    (pending : V.pending t = x :: xs) : Answered G e fs (V.post G t x xs) := by
  refine h.congr (by rw [post_issued]) (post_mail_onClient _ _ _ _ he) ?_
  rw [answers, answers_sent_post V he, post_pending, answers]
  by_cases ht : t = e
  · subst ht
    rw [Function.update_self, pending, answering_cons, if_pos rfl, List.append_assoc]
  · have hnone : (if t.node = e.node then
        ((x.toClient e.id).toList.filter Traced.isAnswer) else []) = [] := by
      by_cases hn : t.node = e.node
      · rw [if_pos hn, List.filter_eq_nil_iff]
        intro y hy
        rw [Option.mem_toList] at hy
        obtain ⟨o, a⟩ := x
        cases a with
        | client d text =>
          simp only [Traced.toClient] at hy
          split at hy
          · rename_i hd
            cases hy
            rcases hr t ⟨o, .client d text⟩ (by rw [pending]; exact List.mem_cons_self) d text rfl
              with hp | ⟨hc, hid⟩
            · simp [Traced.isAnswer, hp]
            · refine absurd ?_ ht
              obtain ⟨n, context, id⟩ := t
              obtain ⟨n', context', id'⟩ := e
              cases hc
              cases he
              cases hn
              cases hid
              cases hd
              rfl
          · cases hy
        | _ => cases hy
      · exact if_neg hn
    rw [hnone, List.append_nil, Function.update_of_ne (Ne.symm ht)]

end View

/-! ## Runs -/

namespace Network

variable (G : Topology N) [DecidableEq N]

/-- The frame that `e` sends. -/
def asks (e : Strand N) : Action N → List Frame
  | .request n c frame => if (⟨n, .onClient, c⟩ : Strand N) = e then [frame] else []
  | _ => []

/-- The frames that `e` sends in a run. -/
def asked (e : Strand N) (as : List (Action N)) : List Frame := as.flatMap (asks e)

variable {G} {X Y : Network N} {e : Strand N} {fs : List Frame} {a : Action N}

theorem answered_step (he : e.context = .onClient) (hr : View.Reserved (X.view G))
    (h : View.Answered G e fs (X.view G)) (hY : X.step G a = some Y) :
    View.Answered G e (fs ++ asks e a) (Y.view G) := by
  cases a with
  | request n c frame =>
    cases hY
    rw [view_request G X rfl]
    by_cases ht : (⟨n, .onClient, c⟩ : Strand N) = e
    · subst ht
      simp only [asks, if_true]
      exact h.request frame
    · simp only [asks, ht, if_false, List.append_nil]
      refine h.congr (Function.update_of_ne (Ne.symm ht) ..) ?_ rfl
      exact push_of_ne _ _ _ (Ne.symm ht)
  | announce t text =>
    cases hY
    simp only [asks, List.append_nil]
    rw [view_send]
    refine h.congr (by rw [View.send_issued]) (View.send_mail_onClient _ _ _ he) ?_
    rw [View.answers, View.answers, View.send_pending]
    congr 1
    by_cases ht : e = t
    · subst ht
      simp [View.send, Traced.isAnswer]
    · simp [View.send, push_of_ne _ _ _ ht]
  | read t env st =>
    simp only [step] at hY
    split at hY
    · rename_i f rest hi hp
      split at hY
      · rename_i hst
        split at hY
        · rename_i w hw
          cases hY
          obtain ⟨rest', hmail, hview⟩ := view_read G X hi (caused f.origin w.effects)
          simp only [asks, List.append_nil]
          rw [hview]
          by_cases ht : t = e
          · subst ht
            exact h.read he hst hmail hp hw
          · have hne : e ≠ t := fun h => ht h.symm
            refine h.congr rfl (Function.update_of_ne hne ..) ?_
            simp only [View.answers, View.start, Function.update_of_ne hne]
        · cases hY
      · cases hY
    · cases hY
  | post t =>
    simp only [step] at hY
    split at hY
    · rename_i x xs hp
      cases hY
      simp only [asks, List.append_nil]
      rw [view_send]
      exact h.post hr he hp
    · cases hY
  | onSend t =>
    simp only [step] at hY
    split at hY
    · rename_i x xs hp
      cases hY
      simp only [asks, List.append_nil]
      rwa [view_onSend G X hp]
    · cases hY
  | onWrite t =>
    simp only [step] at hY
    split at hY
    · rename_i x xs hq
      cases hY
      simp only [asks, List.append_nil]
      rwa [view_onWrite G X hq]
    · cases hY

theorem answered_run (he : e.context = .onClient) : ∀ {as : List (Action N)} {X : Network N}
    {fs : List Frame}, View.Reserved (X.view G) → View.Answered G e fs (X.view G) →
      Run.exec (step G) X as = some Y → View.Answered G e (fs ++ asked e as) (Y.view G)
  | [], X, fs, _, h, hY => by
    cases hY
    simpa [asked] using h
  | a :: as, X, fs, hr, h, hY => by
    obtain ⟨Z, hZ, hrest⟩ := Run.exec_cons.mp hY
    have hend := answered_run he (hr.of_step (view_step G hZ)) (answered_step he hr h hZ) hrest
    simpa [asked] using hend

/-- **Every frame of a client is answered once, to that client alone and in order.**  In every
run, whatever the interleaving: the answers sent to client `e`, with the one that its handler has
still to send, answer the frames of `e` one by one, and the other frames wait to be read. -/
theorem answered_in_order {as : List (Action N)} (hY : Run.exec (step G) {} as = some Y)
    (he : e.context = .onClient) :
    ∃ done, asked e as = done ++ (Y.inbox e).map Traced.value ∧
      List.Forall₂ (View.AnsweredBy G e) done.zipIdx
        ((Y.sent e).filter Traced.isAnswer ++ answering e (Y.pending e)) := by
  have hreserved : View.Reserved (({} : Network N).view G) := by
    rw [view_empty]
    intro t x hx
    cases hx
  have hstart : View.Answered G e [] (({} : Network N).view G) := by
    rw [view_empty]
    exact ⟨rfl, [], [], rfl, rfl, .nil⟩
  obtain ⟨done, todo, hfs, hmail, hall⟩ := (answered_run he hreserved hstart hY).split
  refine ⟨done, ?_, hall⟩
  rw [view_mail_of_none G Y (G.peer_onClient he)] at hmail
  rw [List.nil_append] at hfs
  rw [hfs, hmail, List.map_map]
  congr 1
  have hvalue : Traced.value ∘ View.requested e = Prod.fst := rfl
  rw [hvalue, List.zipIdx_map_fst]

/-- Both broadcasts are answered. -/
theorem answered_in_order_broadcasts : ∃ Y, Run.exec (step (twoNodes [socketId 8])) {}
    ([.request true firstClient (.object broadcastData),
      .request true firstClient (.object broadcastData)] ++ broadcastOver ++
      broadcastOver) = some Y ∧
    List.Forall₂ (View.AnsweredBy (twoNodes [socketId 8]) sender)
      [(.object broadcastData, 0), (.object broadcastData, 1)]
      ((Y.sent sender).filter Traced.isAnswer) := by
  have heval : (Run.exec (step (twoNodes [socketId 8])) {}
      ([.request true firstClient (.object broadcastData),
        .request true firstClient (.object broadcastData)] ++ broadcastOver ++
        broadcastOver)).any (fun Y =>
          (Y.inbox sender).isEmpty && (Y.pending sender).isEmpty) = true := by decide +kernel
  simp only [Option.any_eq_true, Bool.and_eq_true, List.isEmpty_iff] at heval
  obtain ⟨Y, hY, hinbox, hpending⟩ := heval
  obtain ⟨done, hasked, hall⟩ := answered_in_order (e := sender) hY rfl
  rw [hinbox, List.map_nil, List.append_nil] at hasked
  have hdone : done = [.object broadcastData, .object broadcastData] := hasked.symm
  rw [hpending, hdone] at hall
  exact ⟨Y, hY, by simpa [answering] using hall⟩

end Network

end Aewt
