import AewtState.Guarantees

/-!
# A message to one client

`send` names its recipient.  The node of the sender sends to a client of its own at once and
otherwise forwards the text on the session in the recipient's row; the node that receives it
sends it on, under a new transaction id.

* `letter` — the text, under any transaction id.
* `Letter` — the text is on its way to the node of the recipient, or was sent to the recipient.

Principal result: `send_exactly_once` — a message to a client that its node knows of is sent to
that client once, to nobody else, and says what the sender sent.
-/

set_option autoImplicit false

namespace Aewt

def letter (t c d : Uuid) (payload : Object) : Text := serialize (sendObject t c d payload)

section

variable {t c d s : Uuid} {payload : Object}

theorem decode_letter (t c d s : Uuid) (payload : Object) :
    decode (letter t c d payload) .onSession s = .ok (.accepted t (.send c d payload.wire)) :=
  decode_send (built_requestObject _ _ _)

theorem not_acknowledges_letter (t c d : Uuid) (payload : Object) :
    acknowledges (letter t c d payload) = false := by
  rw [Bool.eq_false_iff]
  intro ha
  obtain ⟨t', ht'⟩ := acknowledges_iff.mp ha Uuid.nil
  rw [decode_letter] at ht'
  cases ht'

theorem letter_wire (t c d : Uuid) (payload : Object) :
    letter t c d payload.wire = letter t c d payload := by
  simp [letter, serialize, sendObject, requestObject, sendParams]

/-- The row of a local client. -/
theorem getClient_of_local {st : State} (h : st.Holds st.id (.client d)) :
    st.getClient d = some ⟨d, st.id⟩ := Table.find?_eq_some.mpr ⟨h, rfl⟩

/-- The node of the recipient hands the text over. -/
theorem onRead_letter {st : State} {env : Env} {w : World} (hd : st.Holds st.id (.client d))
    (hr : Session.onRead s (.object (letter t c d payload)) (.start env st) = (.ok (), w)) :
    w.state = st ∧ ∃ t', ∃ replies : List Text,
      w.effects = .client d (letter t' c d payload) :: replies.map (Effect.session s) ∧
      ∀ reply ∈ replies, acknowledges reply = true := by
  cases sessionRead s (letter t c d payload) (.start env st) with
  | raised e w' eq =>
    rw [eq] at hr
    cases hr
  | rejected t' field message reply w' decoded eq state effects isReply =>
    rw [decode_letter] at decoded
    cases decoded
  | accepted t' command request replies w' decoded transactionId entityId context eq state
      effects successes =>
    rw [eq] at hr
    cases hr
    rw [decode_letter] at decoded
    cases decoded
    have ho : outcome (.start env st) request (.send c d payload.wire) =
        ⟨st, [.client d (letter (env.random 0) c d payload)], some ("ok", [])⟩ := by
      simp only [outcome, sendOutcome, World.start, getClient_of_local hd, if_true]
      rw [← letter_wire]
      rfl
    rw [ho] at state effects
    refine ⟨state, _, replies, effects, fun reply hreply => ?_⟩
    obtain ⟨message, timestamp, runtime, e, rfl⟩ := successes reply hreply
    exact acknowledges_success _ message timestamp runtime e

end

namespace Cluster

variable {N : Type} [DecidableEq N] {X Y Z : Cluster N}

/-- The request `k` sent `letter c d payload` to client `d` of node `m`.  It is on its way to the
session `s` of the node, or it has arrived. -/
structure Letter (X : Cluster N) (k : Nat) (c d : Uuid) (payload : Object) (m : N) (s : Uuid)
    (flying : Bool) : Prop where
  below : k < X.tags
  text : ∀ j x, ∀ p ∈ X.wire j x, p.tag = k → acknowledges p.text = false →
    ∃ t, p.text = letter t c d payload
  logged : ∀ e ∈ X.log, e.tag = k → acknowledges e.text = false →
    ∃ t, e.text = letter t c d payload
  pending : ∀ j x, X.pending k j x = if flying = true ∧ j = m ∧ x = s then 1 else 0
  count : ∀ j e, X.count k j e = if flying = false ∧ j = m ∧ e = d then 1 else 0

section

variable {k : Nat} {c d s : Uuid} {payload : Object} {m : N} {flying : Bool}

/-- Nothing that counts changed. -/
theorem Letter.congr (h : X.Letter k c d payload m s flying) (ht : X.tags ≤ Y.tags)
    (hp : ∀ j x, Y.pending k j x = X.pending k j x) (hc : ∀ j e, Y.count k j e = X.count k j e)
    (hw : ∀ j x, ∀ p ∈ Y.wire j x, p.tag = k → acknowledges p.text = false → p ∈ X.wire j x)
    (hlog : ∀ e ∈ Y.log, e.tag = k → acknowledges e.text = false → e ∈ X.log) :
    Y.Letter k c d payload m s flying where
  below := Nat.lt_of_lt_of_le h.below ht
  text j x p hp ht ha := h.text j x p (hw j x p hp ht ha) ht ha
  logged e he ht ha := h.logged e (hlog e he ht ha) ht ha
  pending j x := (hp j x).trans (h.pending j x)
  count j e := (hc j e).trans (h.count j e)

/-- A handler that runs for another request. -/
theorem Letter.perform_other (h : X.Letter k c d payload m s flying) {n : N} {tag : Nat}
    {w : World} (ht : tag ≠ k) (tags : Nat) (hle : X.tags ≤ tags) (home : Uuid → Option N) :
    Letter { X.perform n tag w with home := home, tags := tags } k c d payload m s flying := by
  refine h.congr hle (fun i x => ?_) (fun i e => ?_) (fun i x p hp hk _ => ?_)
    (fun e he hk _ => ?_)
  · exact (pending_perform (n := n)).trans (by rw [posted_other ht, Nat.add_zero])
  · exact (count_perform (n := n)).trans (by rw [logged_other (Or.inl ht), Nat.add_zero])
  · rcases List.mem_append.mp hp with hp | hp
    · exact hp
    · exact absurd ((mem_posted hp).1.symm.trans hk) ht
  · rcases List.mem_append.mp he with he | he
    · exact he
    · obtain ⟨x, -, rfl⟩ := List.mem_map.mp he
      exact absurd hk ht

/-- Taking a text off the wire that does not count. -/
theorem Letter.take (h : X.Letter k c d payload m s flying) {n : N} {x : Uuid} {i : Nat}
    {p : Packet} (hp : (X.wire n x)[i]? = some p) (hn : isPending k p = false) :
    (X.take n x i).Letter k c d payload m s flying := by
  refine h.congr (Nat.le_refl _) (fun j y => ?_) (fun _ _ => rfl)
    (fun j y p' hp' _ _ => mem_take hp') (fun _ he _ _ => he)
  have ht := pending_take (k := k) (m := j) (x := y) hp
  rw [if_neg (by simp [hn]), Nat.add_zero] at ht
  exact ht

/-- Acknowledgements on the wire do not count. -/
theorem posted_replies {n j : N} {x y : Uuid} {es : List Effect} {replies : List Text}
    (he : ∀ z, textsTo z es = textsTo z (replies.map (Effect.session y)))
    (hack : ∀ reply ∈ replies, acknowledges reply = true) :
    ∀ p ∈ posted X.links n k es j x, acknowledges p.text = true := by
  intro p hp
  obtain ⟨-, x', -, ht⟩ := mem_posted hp
  rw [he, mem_textsTo, List.mem_map] at ht
  obtain ⟨reply, hr, heq⟩ := ht
  cases heq
  exact hack _ hr

/-- The node of the recipient reads the text. -/
theorem Letter.deliver (h : X.Letter k c d payload m s flying) {n : N} {x : Uuid} {i : Nat}
    {p : Packet} (hp : (X.wire n x)[i]? = some p) (hk : isPending k p = true)
    (hlocal : X.Local m d) {env : Env} {w : World}
    (hw : Session.onRead x (.object p.text) (.start env (X.node n)) = (.ok (), w)) :
    ((X.take n x i).perform n k w).Letter k c d payload m s false := by
  obtain ⟨hpk, hpa⟩ : p.tag = k ∧ acknowledges p.text = false := by simpa [isPending] using hk
  have hmem : p ∈ X.wire n x := List.mem_of_getElem? hp
  obtain ⟨t, htext⟩ := h.text n x p hmem hpk hpa
  obtain ⟨rfl, rfl, rfl⟩ : flying = true ∧ n = m ∧ x = s := by
    by_contra hno
    have hpos : 0 < X.pending k n x := List.countP_pos_iff.mpr ⟨p, hmem, hk⟩
    rw [h.pending, if_neg hno] at hpos
    exact Nat.lt_irrefl 0 hpos
  rw [htext] at hw
  obtain ⟨hstate, t', replies, heff, hack⟩ := onRead_letter hlocal hw
  have hposted : ∀ j y, ∀ p' ∈ posted X.links n k w.effects j y,
      acknowledges p'.text = true := fun j y => posted_replies (fun z => by rw [heff]; rfl) hack
  refine ⟨h.below, fun j y p' hp' ht ha => ?_, fun e he ht ha => ?_, fun j y => ?_,
    fun j e => ?_⟩
  · rcases List.mem_append.mp hp' with hp' | hp'
    · exact h.text j y p' (mem_take hp') ht ha
    · rw [hposted j y p' hp'] at ha
      cases ha
  · rcases List.mem_append.mp he with he | he
    · exact h.logged e he ht ha
    · obtain ⟨y, hy, rfl⟩ := List.mem_map.mp he
      rw [heff] at hy
      simp only [clientTexts, List.filterMap_cons, List.mem_cons] at hy
      rcases hy with rfl | hy
      · exact ⟨t', rfl⟩
      · change y ∈ clientTexts (replies.map (Effect.session x)) at hy
        rw [clientTexts_session] at hy
        cases hy
  · have htake := pending_take (k := k) (m := j) (x := y) hp
    have hzero : (posted X.links n k w.effects j y).countP (isPending k) = 0 := by
      rw [List.countP_eq_zero]
      intro p' hp'
      simp [isPending, hposted j y p' hp']
    rw [pending_perform]
    change (X.take n x i).pending k j y + (posted X.links n k w.effects j y).countP _ = _
    rw [hzero, Nat.add_zero, if_neg (by simp)]
    rw [h.pending] at htake
    simp only [hk, and_true, true_and] at htake
    split at htake <;> omega
  · rw [count_perform, heff]
    have hlog : clientTexts (.client d (letter t' c d payload) ::
        replies.map (Effect.session x)) = [(d, letter t' c d payload)] := by
      change (d, letter t' c d payload) :: clientTexts (replies.map (Effect.session x)) = _
      rw [clientTexts_session]
    have hold : (X.take n x i).count k j e = 0 := by
      change X.count k j e = 0
      rw [h.count, if_neg (by simp)]
    have hone : isCount k j e ⟨n, d, k, letter t' c d payload⟩ = true ↔ j = n ∧ e = d := by
      simp only [isCount, not_acknowledges_letter, and_true, decide_eq_true_eq]
      exact ⟨fun heq => ⟨heq.1.symm, heq.2.symm⟩, fun heq => ⟨heq.1.symm, heq.2.symm⟩⟩
    rw [hlog, hold, List.map_singleton, List.countP_singleton]
    simp only [hone, true_and, Nat.zero_add]

/-- **A step in a state where the recipient is connected** keeps the text on its way, or hands it
over. -/
theorem Letter.of_step (h : X.Letter k c d payload m s flying) (hlocal : X.Local m d)
    {a : Action N} (hs : X.step a = some Y) :
    ∃ flying', (flying' = true → flying = true) ∧ Y.Letter k c d payload m s flying' := by
  have htag : X.tags ≠ k := Nat.ne_of_gt h.below
  cases a with
  | connect n e env =>
    obtain ⟨-, w, -, rfl⟩ := step_connect.mp hs
    exact ⟨flying, id, h.perform_other htag _ (Nat.le_succ _) _⟩
  | request n e frame env =>
    obtain ⟨-, w, -, rfl⟩ := step_request.mp hs
    exact ⟨flying, id, h.perform_other htag _ (Nat.le_succ _) X.home⟩
  | disconnect n e env =>
    obtain ⟨-, w, -, rfl⟩ := step_disconnect.mp hs
    exact ⟨flying, id, h.perform_other htag _ (Nat.le_succ _) X.home⟩
  | deliver n x i env =>
    obtain ⟨p, hp, w, hw, rfl⟩ := step_deliver.mp hs
    by_cases hk : p.tag = k
    · cases ha : acknowledges p.text with
      | true =>
        obtain ⟨hst, heff⟩ := onRead_acknowledges ha hw
        have hidle : (X.take n x i).perform n p.tag w = X.take n x i := perform_idle hst heff
        rw [hidle]
        exact ⟨flying, id, h.take hp (by simp [isPending, ha])⟩
      | false =>
        rw [hk]
        exact ⟨false, by simp, h.deliver hp (by simp [isPending, hk, ha]) hlocal hw⟩
    · have hn : isPending k p = false := by simp [isPending, hk]
      exact ⟨flying, id, (h.take hp hn).perform_other hk _ (Nat.le_refl _) X.home⟩

/-- The recipient is connected in every state of the run but perhaps the last. -/
def Stays (m : N) (d : Uuid) (X : Cluster N) (as : List (Action N)) : Prop :=
  Run.Along step (fun X _ => X.Local m d) X as

theorem Letter.of_run (h : X.Letter k c d payload m s flying) {as : List (Action N)}
    (hst : Stays m d X as) (hr : Run.exec step X as = some Y) :
    ∃ flying, Y.Letter k c d payload m s flying :=
  Run.exec_invariant_along (I := fun Z => ∃ flying, Z.Letter k c d payload m s flying)
    (fun ⟨_, hI⟩ hC hs => (hI.of_step hC hs).imp fun _ h => h.2) ⟨flying, h⟩ hst hr

/-! ## The request -/

/-- What the sender's handler sends: the text, to the client or on the session `s'` to its node,
and the answer. -/
theorem Letter.start (t s' : Uuid) {n : N} {w : World} {reply : Text} (hl : Paired X.links)
    (hf : X.Fresh) (hnode : flying = false → m = n)
    (hlink : flying = true → X.links n s' = some (m, s))
    (hclients : clientTexts w.effects =
      (if flying = true then [] else [(d, letter t c d payload)]) ++ [(c, reply)])
    (htexts : ∀ z, textsTo z w.effects =
      if flying = true ∧ z = s' then [letter t c d payload] else [])
    (hack : acknowledges reply = true) :
    Letter { X.perform n X.tags w with tags := X.tags + 1 } X.tags c d payload m s flying := by
  have hposted : ∀ j x, posted X.links n X.tags w.effects j x =
      if flying = true ∧ j = m ∧ x = s then [⟨X.tags, letter t c d payload⟩] else [] := by
    intro j x
    split
    · rename_i h
      obtain ⟨hfl, rfl, rfl⟩ := h
      rw [posted_eq (hl.symm (hlink hfl)), htexts, if_pos ⟨hfl, rfl⟩]
      rfl
    · rename_i h
      rw [List.eq_nil_iff_forall_not_mem]
      intro p hp
      obtain ⟨-, z, hz, ht⟩ := mem_posted hp
      rw [htexts] at ht
      split at ht
      · rename_i hfl
        obtain ⟨hfl, rfl⟩ := hfl
        have hend := (hl.symm hz).symm.trans (hlink hfl)
        simp only [Option.some.injEq, Prod.mk.injEq] at hend
        exact h ⟨hfl, hend⟩
      · cases ht
  have hpend0 : ∀ j x, X.pending X.tags j x = 0 := by
    intro j x
    rw [Cluster.pending, List.countP_eq_zero]
    intro p hp
    simp [isPending, Nat.ne_of_lt (hf.wire j x p hp)]
  have hcount0 : ∀ j e, X.count X.tags j e = 0 := by
    intro j e
    rw [Cluster.count, List.countP_eq_zero]
    intro x hx
    simp [isCount, Nat.ne_of_lt (hf.log x hx)]
  refine ⟨Nat.lt_succ_self _, fun j x p hp ht ha => ?_, fun e he ht ha => ?_, fun j x => ?_,
    fun j e => ?_⟩
  · rcases List.mem_append.mp hp with hp | hp
    · exact absurd ht (Nat.ne_of_lt (hf.wire j x p hp))
    · rw [hposted] at hp
      split at hp
      · rw [List.mem_singleton.mp hp]
        exact ⟨t, rfl⟩
      · cases hp
  · rcases List.mem_append.mp he with he | he
    · exact absurd ht (Nat.ne_of_lt (hf.log e he))
    · obtain ⟨y, hy, rfl⟩ := List.mem_map.mp he
      rw [hclients] at hy
      rcases List.mem_append.mp hy with hy | hy
      · split at hy
        · cases hy
        · rw [List.mem_singleton.mp hy]
          exact ⟨t, rfl⟩
      · rw [List.mem_singleton.mp hy, hack] at ha
        cases ha
  · change (X.perform n X.tags w).pending X.tags j x = _
    rw [pending_perform, hpend0, hposted, Nat.zero_add]
    split <;> simp [isPending, not_acknowledges_letter]
  · change (X.perform n X.tags w).count X.tags j e = _
    have hone : ∀ T, isCount X.tags j e ⟨n, d, X.tags, T⟩ = true ↔
        (n = j ∧ d = e) ∧ acknowledges T = false := by
      intro T
      simp [isCount, and_assoc]
    rw [count_perform, hcount0, hclients, Nat.zero_add, List.map_append, List.countP_append]
    have hreply : ([(c, reply)].map fun x => (⟨n, x.1, X.tags, x.2⟩ : Sent N)).countP
        (isCount X.tags j e) = 0 := by simp [isCount, hack]
    rw [hreply, Nat.add_zero]
    cases flying with
    | true => simp
    | false =>
      rw [hnode rfl, if_neg Bool.false_ne_true, List.map_singleton, List.countP_singleton]
      simp only [hone, not_acknowledges_letter, and_true, true_and]
      simp only [eq_comm]

end

/-- What a client's handler does with a message to `d`. -/
theorem step_send (env : Env) {n : N} {c d t : Uuid} {data payload : Object} (hc : X.Local n c)
    (hdec : decode data .onClient c = .ok (.accepted t (.send c d payload))) :
    ∃ w request reply, X.step (.request n c (.object data) env) =
        some { X.perform n X.tags w with tags := X.tags + 1 } ∧
      request.context = .onClient ∧
      w.effects = (sendOutcome (.start env (X.node n)) request c d payload).effects ++
        [.client c reply] ∧ acknowledges reply = true := by
  cases clientRead c data (.start env (X.node n)) with
  | raised e w' eq =>
    obtain ⟨v, runtime, hk, -⟩ := kernel_accepted (World.ticked (.start env (X.node n))) data
      .onClient c hdec (by simp)
    rw [Client.onRead_of_kernel hk] at eq
    cases eq
  | rejected t' field message reply w' decoded eq state effects =>
    rw [hdec] at decoded
    cases decoded
  | accepted t' command request reply w decoded transactionId entityId context eq state
      effects answers =>
    rw [hdec] at decoded
    cases decoded
    refine ⟨w, request, reply, step_request.mpr ⟨hc, w, eq, rfl⟩, context, effects, ?_⟩
    obtain ⟨status, info, hreply⟩ : ∃ status info,
        (outcome (.start env (X.node n)) request (.send c d payload)).reply =
          some (status, info) := by
      simp only [outcome, sendOutcome]
      split
      · split
        · exact ⟨_, _, rfl⟩
        · split <;> exact ⟨_, _, rfl⟩
      · exact ⟨_, _, rfl⟩
    obtain ⟨ts, rt, rfl⟩ := answers _ _ hreply
    exact acknowledges_success _ _ _ _ _

/-- A client's handler sends a message to `d`, which the node finds at the node `m`. -/
theorem step_letter (env : Env) {n m : N} {c d t : Uuid} {data payload : Object} (hm : X.Mesh)
    (hf : X.Fresh) (hc : X.Local n c) (hd : X.Local m d)
    (hrow : ∀ s' s, X.links n s' = some (m, s) → (X.node n).Holds s' (.client d))
    (hdec : decode data .onClient c = .ok (.accepted t (.send c d payload))) :
    ∃ Y, X.step (.request n c (.object data) env) = some Y ∧ ∃ s flying,
      Y.Letter X.tags c d payload m s flying ∧
        (flying = true → ∃ s', X.links m s = some (n, s')) := by
  have hl := hm.toPaired
  obtain ⟨w, request, reply, hY, hctx, heff, hack⟩ := step_send env hc hdec
  refine ⟨_, hY, ?_⟩
  by_cases hmn : m = n
  · subst hmn
    refine ⟨Uuid.nil, false, Letter.start (env.random 0) Uuid.nil hl hf
      (fun _ => rfl) (by simp) ?_ (fun z => ?_) hack, by simp⟩ <;>
    · rw [heff]
      simp only [sendOutcome, World.start, getClient_of_local hd, if_true]
      rfl
  · obtain ⟨s', s, hlink⟩ := hl.total (Ne.symm hmn)
    have hget : (X.node n).getClient d = some ⟨d, s'⟩ :=
      Table.find?_eq_some.mpr ⟨hrow s' s hlink, rfl⟩
    have hne : s' ≠ (X.node n).id := hm.fresh hlink
    have hes : (sendOutcome (.start env (X.node n)) request c d payload).effects =
        toSession (X.node n) (sendObject (env.random 0) c d payload) s' := by
      simp [sendOutcome, World.start, hget, hne, hctx]
    refine ⟨s, true, Letter.start (env.random 0) s' hl hf (by simp)
      (fun _ => hlink) ?_ (fun z => ?_) hack, fun _ => ⟨s', hl.symm hlink⟩⟩
    · rw [heff, hes, clientTexts_append]
      simp [clientTexts, toSession]
    · rw [heff, hes, textsTo_append, textsTo_client, List.append_nil, toSession,
        textsTo_sessions]
      by_cases hz : z = s'
      · subst hz
        obtain ⟨x, hx, hid⟩ := Table.hasKey_iff.mp (hm.known hlink)
        have hfind : (X.node n).sessions.find? z = some x :=
          Table.find?_eq_some.mpr ⟨hx, hid⟩
        simp [State.getSessions, Table.filter_key, hfind, letter, hid]
      · have hnone : (X.node n).getSessions.filter
            (fun x => decide (x.id = z) && decide (x.id = s')) = [] := by
          rw [List.filter_eq_nil_iff]
          intro x _ hx
          simp only [Bool.and_eq_true, decide_eq_true_eq] at hx
          exact hz (hx.1.symm.trans hx.2)
        rw [List.filter_filter, hnone]
        simp [hz]

/-- A message that is not on its way to any session has arrived. -/
theorem Letter.arrived {k : Nat} {c d s : Uuid} {payload : Object} {m : N} {flying : Bool}
    (h : X.Letter k c d payload m s flying) (hq : ∀ j x, X.pending k j x = 0) :
    (∀ j e, X.count k j e = if j = m ∧ e = d then 1 else 0) ∧
      ∀ e ∈ X.log, e.tag = k → acknowledges e.text = false →
        ∃ t', e.text = serialize (sendObject t' c d payload) := by
  cases flying with
  | true =>
    have hflying := h.pending m s
    rw [hq, if_pos ⟨rfl, rfl, rfl⟩] at hflying
    cases hflying
  | false => exact ⟨fun j e => by rw [h.count]; simp, h.logged⟩

/-- **A message to one client is sent to it exactly once, and to nobody else.**  The recipient
is connected to some node, and the sender's node has been told; whatever the order of the
deliveries and whoever else comes and goes meanwhile. -/
theorem send_exactly_once {X₀ : Cluster N} {history : List (Action N)} {n m : N}
    {c d t : Uuid} {data payload : Object} {env : Env} (h₀ : X₀.Initial)
    (ho : ∀ a ∈ history, InOrder a) (hX : Run.exec step X₀ history = some X)
    (hc : X.Local n c) (hd : X.Local m d)
    (hdel : ∀ s, ∀ p ∈ X.wire n s, ∀ b, updateOf s p.text ≠ some (.client d, b))
    (hdec : decode data .onClient c = .ok (.accepted t (.send c d payload))) :
    ∃ Y, X.step (.request n c (.object data) env) = some Y ∧
      ∀ as Z, Stays m d Y as → Run.exec step Y as = some Z →
        (∀ j x, Z.pending X.tags j x = 0) →
          (∀ j e, Z.count X.tags j e = if j = m ∧ e = d then 1 else 0) ∧
          ∀ e ∈ Z.log, e.tag = X.tags → acknowledges e.text = false →
            ∃ t', e.text = serialize (sendObject t' c d payload) := by
  have hinv : X.Inv := h₀.inv.of_run ho hX
  -- the sender's node mirrors the recipient's row, under the session to its node
  obtain ⟨Y, hY, s, flying, hstart, -⟩ := step_letter env hinv.mesh (h₀.fresh.of_run hX) hc hd
    (fun s' s hlink => (hinv.mirror hlink fun p hp b => hdel s' p hp b).mpr hd) hdec
  refine ⟨Y, hY, fun as Z hst hr hq => ?_⟩
  obtain ⟨flying', hend⟩ := hstart.of_run hst hr
  exact hend.arrived hq

/-! ## Two nodes -/

/-- What a client says of a message. -/
def letterParams (d : Uuid) (payload : Object) : Object :=
  [("to_client_id", .string d.toString), ("payload", .object payload)]

/-- A message that a client asks for. -/
def sendRequest (d : Uuid) (payload : Object) : Object :=
  requestObject Uuid.nil "send" (letterParams d payload)

theorem decode_sendRequest (c d : Uuid) (payload : Object) :
    decode (sendRequest d payload) .onClient c =
      .ok (.accepted Uuid.nil (.send c d payload)) := by
  rw [sendRequest, decode_requestObject, decodeAction_send]
  have hto : (letterParams d payload).find? "to_client_id" = some (.string d.toString) := by
    simp [letterParams]
  have hp : (letterParams d payload).find? "payload" = some (.object payload) := by
    simp [letterParams]
  have hobject : paramsObject ⟨Uuid.nil, c, .onClient,
      requestObject Uuid.nil "send" (letterParams d payload), 0⟩ =
      .ok (letterParams d payload) := rfl
  have hparams : getParams ⟨Uuid.nil, c, .onClient,
      requestObject Uuid.nil "send" (letterParams d payload), 0⟩ =
      .ok (letterParams d payload) := rfl
  have hcheck : sendCheck ⟨Uuid.nil, c, .onClient,
      requestObject Uuid.nil "send" (letterParams d payload), 0⟩ = .ok none := by
    simp only [sendCheck, hobject, bind, Except.bind]
    exact member_eq_none.mpr ⟨_, hp, rfl, idCheck_toString hto⟩
  simp only [decodeSend, decodeWith, hcheck, hparams, bind, Except.bind, actor,
    getParamAsId_toString hto, getParamAsObject_of hp]
  rfl

/-- The first client writes to the second one, whose join has been delivered. -/
theorem send_reaches_secondClient : ∃ X Z,
    Run.exec step duo [.connect true secondClient still, .deliver false (duoSession false) 0 still,
      .connect false firstClient still] = some X ∧
    Run.exec step X [.request false firstClient (.object (sendRequest secondClient [])) still,
      .deliver true (duoSession true) 0 still, .deliver true (duoSession true) 0 still,
      .deliver true (duoSession true) 0 still] = some Z ∧
    ∀ m d, Z.count X.tags m d = if m = true ∧ d = secondClient then 1 else 0 := by
  have heval : ((Run.exec step duo [.connect true secondClient still,
        .deliver false (duoSession false) 0 still, .connect false firstClient still]).any fun X =>
      (X.step (.request false firstClient (.object (sendRequest secondClient [])) still)).any
        fun Y =>
      (Run.exec step Y [.deliver true (duoSession true) 0 still,
        .deliver true (duoSession true) 0 still, .deliver true (duoSession true) 0 still]).any
        fun Z =>
      decide ((∀ m, Z.pending X.tags m (duoSession m) = 0) ∧ X.Local false firstClient ∧
        X.Local true secondClient ∧ (X.wire false (duoSession false)).isEmpty = true ∧
        Run.Along step (fun X _ => X.Local true secondClient) Y
          [.deliver true (duoSession true) 0 still, .deliver true (duoSession true) 0 still,
            .deliver true (duoSession true) 0 still])) = true := by
    decide +kernel
  simp only [Option.any_eq_true, decide_eq_true_eq, List.isEmpty_iff] at heval
  obtain ⟨X, hX, Y, hY, Z, hZ, hq, hfirst, hsecond, hempty, hst⟩ := heval
  have hXZ := Run.exec_cons.mpr ⟨Y, hY, hZ⟩
  obtain ⟨V, hV, hrun⟩ := send_exactly_once initial_duo (by simp [InOrder]) hX hfirst hsecond
    (fun s p hp => by
      have hs := duo_wire (by simp [InOrder]) hX hp
      subst hs
      rw [hempty] at hp
      cases hp)
    (decode_sendRequest firstClient secondClient [])
  cases hY.symm.trans hV
  exact ⟨X, Z, hX, hXZ, (hrun _ Z hst hZ
    (duo_pending (by simp [InOrder]) (Run.exec_append.mpr ⟨X, hX, hXZ⟩) hq)).1⟩

end Cluster

end Aewt
