import AewtState.OneHop
import AewtState.Cluster

/-!
# Per-sender order

What a client causes reaches another client in the order of its requests, when every two nodes
share one session.

The requests of client `e` that are on their way to client `R` are the contents of a pipeline.

* `atHome` — `R` is connected to the node of `e`: the mail of `e`, what its handler has still to
  send to `R`, and what was sent to `R`.
* `away` — `R` is connected to another node, over the socket with the ends `p` and `q`: the mail
  of `e`, what its handler has still to send on `p`, the forwarded texts on their way to `q`, what
  the handler of `q` has still to send to `R`, and what was sent to `R`.

Answers travel on the same sockets.  They are not counted, since reading them sends nothing to a
client.

Principal result: `per_sender_order`.
-/

set_option autoImplicit false

namespace Aewt

/-- Sent by the first handler. -/
def Traced.isFirst {N α : Type} (x : Traced N α) : Bool := x.origin.any fun o => o.hops = 1

namespace View

variable {N : Type} [DecidableEq N] {G : Topology N}

/-- The requests of `e` that were forwarded and are on their way to `q`. -/
def relaying (V : View N) (e q : Strand N) : List Nat :=
  indices e ((V.mail q).filter Traced.isFirst)

def atHome (V : View N) (e R : Strand N) : List Nat :=
  indices e (V.sent R) ++ V.onward e R

def away (V : View N) (e p q R : Strand N) : List Nat :=
  indices e (V.sent R) ++ (V.toSend e q R ++ V.relaying e q) ++ V.onward e p

/-! ## What is sent -/

/-- What an effect adds to the texts for `R`. -/
theorem sent_send (V : View N) (e R : Strand N) (n : N) (x : Traced N Effect) :
    indices e ((V.send G (x.value.destination n) x.origin).sent R) =
      indices e (V.sent R) ++ if x.value.goesTo n R then indices e [x] else [] := by
  cases hd : (x.value.destination n : Option (Strand N × Text)) with
  | none => simp [View.send, Effect.goesTo, hd]
  | some y =>
    obtain ⟨t, text⟩ := y
    by_cases ht : t = R
    · subst ht
      simp [View.send, Effect.goesTo, hd, indices, Traced.index?, List.filterMap_cons]
    · simp [View.send, Effect.goesTo, hd, ht, push_of_ne _ _ _ (Ne.symm ht)]

/-- What it adds to the forwarded texts on the socket from `p` to `q`. -/
theorem relaying_send (V : View N) (e : Strand N) {p q : Strand N} (hp : G.peer p = some q)
    (n : N) (x : Traced N Effect) :
    (V.send G (x.value.destination n) x.origin).relaying e q = V.relaying e q ++
      if x.value.goesTo n p then indices e ([x].filter Traced.isFirst) else [] := by
  cases hd : (x.value.destination n : Option (Strand N × Text)) with
  | none => simp [View.send, Effect.goesTo, hd]
  | some y =>
    obtain ⟨t, text⟩ := y
    by_cases ht : t = p
    · subst ht
      have hmail : (V.send G (some (t, text)) x.origin).mail q =
          V.mail q ++ [⟨x.origin, .object text⟩] := by simp [View.send, hp]
      have hfirst : Traced.isFirst (⟨x.origin, .object text⟩ : Traced N Frame) = x.isFirst := rfl
      have hindex : indices e [(⟨x.origin, .object text⟩ : Traced N Frame)] = indices e [x] := rfl
      cases hf : x.isFirst <;>
        simp [relaying, hmail, hfirst, hf, hindex, Effect.goesTo, hd]
    · have hmail : (V.send G (some (t, text)) x.origin).mail q = V.mail q := by
        cases hpt : G.peer t with
        | none => simp [View.send, hpt]
        | some u =>
          have hne : q ≠ u := by
            rintro rfl
            have h := (G.peer_symm hp).symm.trans (G.peer_symm hpt)
            cases h
            exact ht rfl
          simp [View.send, hpt, push_of_ne _ _ _ hne]
      simp [relaying, hmail, Effect.goesTo, hd, ht]

/-! ## The way of a request -/

omit [DecidableEq N] in
/-- The two ends of a socket, as the topology names them. -/
theorem links_of_peer {p q : Strand N} (h : G.peer p = some q) :
    G.links p.node p.id = some (q.node, q.id) ∧ p.context = .onSession ∧
      q.context = .onSession := by
  refine ⟨?_, G.context_of_peer h, G.context_of_peer (G.peer_symm h)⟩
  simp only [Topology.peer, G.context_of_peer h] at h
  obtain ⟨⟨m, s'⟩, hl, rfl⟩ := Option.map_eq_some_iff.mp h
  exact hl

omit [DecidableEq N] in
theorem peer_irrefl (hl : Cluster.Paired G.links) {p q : Strand N} (h : G.peer p = some q) :
    p.node ≠ q.node :=
  hl.irrefl (links_of_peer h).1

omit [DecidableEq N] in
/-- Two nodes share one socket. -/
theorem peer_unique (hl : Cluster.Paired G.links) {p q p' q' : Strand N} (h : G.peer p = some q)
    (h' : G.peer p' = some q') (hn : p.node = p'.node) (hm : q.node = q'.node) : p = p' := by
  obtain ⟨hp, hctx, -⟩ := links_of_peer h
  obtain ⟨hp', hctx', -⟩ := links_of_peer h'
  rw [← hn, ← hm] at hp'
  obtain ⟨n, c, s⟩ := p
  obtain ⟨n', c', s'⟩ := p'
  cases hctx
  cases hctx'
  cases hn
  cases hl.unique hp hp'
  rfl

omit [DecidableEq N] in
theorem peer_total (hl : Cluster.Paired G.links) {n m : N} (h : n ≠ m) :
    ∃ p q, G.peer p = some q ∧ p.node = n ∧ q.node = m := by
  obtain ⟨s, s', hs⟩ := hl.total h
  exact ⟨⟨n, .onSession, s⟩, ⟨m, .onSession, s'⟩, by simp [Topology.peer, hs], rfl, rfl⟩

section

variable {V W : View N} {e R t : Strand N} {x : Traced N Effect}

/-- A text goes to a strand of the node that sends it. -/
theorem node_of_goesTo {n : N} {u : Strand N} {a : Effect} (h : a.goesTo n u = true) :
    u.node = n := by
  cases a with
  | session s text =>
    simp only [Effect.goesTo, Effect.destination, Option.any_some, decide_eq_true_eq] at h
    rw [← h]
  | client c text =>
    simp only [Effect.goesTo, Effect.destination, Option.any_some, decide_eq_true_eq] at h
    rw [← h]
  | dial id host port => cases h

/-- Who sends to a client what `e` caused: its own handler, or the handler of a socket to its
node. -/
theorem sends_to_client {k : Nat} (hR : R.context = .onClient)
    (hgoes : x.value.goesTo t.node R = true) (hk : x.index? e = some k)
    (hs : ∀ o, x.origin = some o → Sends G t o x.value) :
    t = e ∨ ∃ p, G.peer p = some t ∧ p.node = e.node := by
  obtain ⟨o, ho, rfl, -⟩ := index?_eq_some.mp hk
  have hsends := hs o ho
  obtain ⟨n, context, id⟩ := t
  cases context with
  | onClient => exact .inl hsends.1.symm
  | onSession =>
    rcases hsends with ⟨text, he, -⟩ | ⟨c, text, p, -, -, hp, hn⟩
    · rw [he] at hgoes
      simp only [Effect.goesTo, Effect.destination, Option.any_some, decide_eq_true_eq] at hgoes
      rw [← hgoes] at hR
      cases hR
    · exact .inr ⟨p, hp, hn⟩

/-- To a client of its node only the handler of `e` sends what `e` caused. -/
theorem sends_at_home (hl : Cluster.Paired G.links) {k : Nat} (hR : R.context = .onClient)
    (hnode : R.node = e.node) (hgoes : x.value.goesTo t.node R = true)
    (hk : x.index? e = some k) (hs : ∀ o, x.origin = some o → Sends G t o x.value) : t = e := by
  rcases sends_to_client hR hgoes hk hs with h | ⟨p, hp, hn⟩
  · exact h
  · have hirr := peer_irrefl hl hp
    rw [hn, ← hnode, node_of_goesTo hgoes] at hirr
    exact absurd rfl hirr

/-- To a client of another node only the handler of the socket between the nodes does. -/
theorem sends_away (hl : Cluster.Paired G.links) {k : Nat} {p q : Strand N}
    (hp : G.peer p = some q) (hpe : p.node = e.node) (hqR : q.node = R.node)
    (hR : R.context = .onClient) (hgoes : x.value.goesTo t.node R = true)
    (hk : x.index? e = some k) (hs : ∀ o, x.origin = some o → Sends G t o x.value) : t = q := by
  have hnode := node_of_goesTo hgoes
  rcases sends_to_client hR hgoes hk hs with rfl | ⟨p', hp', hn⟩
  · have hirr := peer_irrefl hl hp
    rw [hpe, hqR, hnode] at hirr
    exact absurd rfl hirr
  · have hpp := peer_unique hl hp' hp (hn.trans hpe.symm) (hnode.symm.trans hqR.symm)
    subst hpp
    exact Option.some.inj (hp'.symm.trans hp)

/-- What `e` caused goes out on a session of its node either from its own handler, as the first
hop, or as an answer. -/
theorem sends_on_socket {k : Nat} {p : Strand N} (hp : p.context = .onSession)
    (hgoes : x.value.goesTo t.node p = true) (hk : x.index? e = some k)
    (hs : ∀ o, x.origin = some o → Sends G t o x.value) :
    t = e ∧ x.isFirst = true ∨ t = p ∧ x.isFirst = false := by
  obtain ⟨o, ho, rfl, -⟩ := index?_eq_some.mp hk
  have hsends := hs o ho
  obtain ⟨n, context, id⟩ := t
  cases context with
  | onClient =>
    refine .inl ⟨hsends.1.symm, ?_⟩
    simp [Traced.isFirst, ho, hsends.2.1]
  | onSession =>
    rcases hsends with ⟨text, he, hh, -⟩ | ⟨c, text, p', he, -⟩
    · rw [he] at hgoes
      simp only [Effect.goesTo, Effect.destination, Option.any_some, decide_eq_true_eq] at hgoes
      refine .inr ⟨hgoes, ?_⟩
      have hne : o.hops ≠ 1 := by omega
      simp [Traced.isFirst, ho, hne]
    · rw [he] at hgoes
      simp only [Effect.goesTo, Effect.destination, Option.any_some, decide_eq_true_eq] at hgoes
      rw [← hgoes] at hp
      cases hp

end

/-! ## The steps of the pipelines -/

theorem indices_singleton_none {e : Strand N} {x : Traced N Effect} (h : x.index? e = none) :
    indices e [x] = [] := indices_cons_none h []

/-- What `e` caused and another handler sends adds nothing, when it cannot go there. -/
theorem ite_indices {e : Strand N} {x : Traced N Effect} {b : Bool}
    (h : ∀ k, b = true → x.index? e ≠ some k) : (if b then indices e [x] else []) = [] := by
  cases b with
  | false => rfl
  | true =>
    have hnone : x.index? e = none := Option.eq_none_iff_forall_ne_some.mpr fun k => h k rfl
    rw [if_pos rfl, indices_singleton_none hnone]

section

variable {V W : View N} {e R : Strand N}

/-- A text without origin adds nothing. -/
theorem sent_announce (V : View N) (t : Strand N) (text : Text) :
    indices e ((V.send G (some (t, text)) none).sent R) = indices e (V.sent R) := by
  by_cases ht : R = t
  · subst ht
    simp [View.send, indices, Traced.index?]
  · simp [View.send, push_of_ne _ _ _ ht]

theorem relaying_announce (V : View N) (t q : Strand N) (text : Text) :
    (V.send G (some (t, text)) none).relaying e q = V.relaying e q := by
  cases hp : G.peer t with
  | none => simp [relaying, View.send, hp]
  | some u =>
    by_cases hu : q = u
    · subst hu
      simp [relaying, View.send, hp, indices, Traced.isFirst]
    · simp [relaying, View.send, hp, push_of_ne _ _ _ hu]

theorem sent_post (V : View N) (t : Strand N) (x : Traced N Effect) (xs : List (Traced N Effect)) :
    indices e ((V.post G t x xs).sent R) = indices e (V.sent R) ++
      if x.value.goesTo t.node R then indices e [x] else [] := sent_send _ e R t.node x

theorem relaying_post (V : View N) {p q : Strand N} (hp : G.peer p = some q) (t : Strand N)
    (x : Traced N Effect) (xs : List (Traced N Effect)) :
    (V.post G t x xs).relaying e q = V.relaying e q ++
      if x.value.goesTo t.node p then indices e ([x].filter Traced.isFirst) else [] :=
  relaying_send _ e hp t.node x

/-- Reading an answer sends nothing to a client. -/
theorem no_clients_of_answer {t : Strand N} {f : Traced N Frame} {env : Env} {st : State}
    {w : World} {k : Nat} (harr : ∀ o, f.origin = some o → Arrives G t o f.value)
    (ht : t.context = .onSession) (hk : f.index? e = some k) (hf : f.isFirst = false)
    (hr : t.onRead f.value (.start env st) = (.ok (), w)) (hR : R.context = .onClient) :
    w.effects.filter (Effect.goesTo t.node R) = [] := by
  obtain ⟨o, ho, -, -⟩ := index?_eq_some.mp hk
  have ha := harr o ho
  obtain ⟨n, context, id⟩ := t
  cases ht
  obtain ⟨p, text, -, hv, ⟨hh, -⟩ | ⟨-, hreply⟩⟩ := ha
  · simp [Traced.isFirst, ho, hh] at hf
  · rw [hv] at hr
    obtain ⟨replies, hes, -⟩ := effects_of_reply hreply hr
    rw [List.filter_eq_nil_iff]
    intro a hmem hgoes
    rw [hes] at hmem
    simp only [World.start, List.nil_append, List.mem_map] at hmem
    obtain ⟨reply, -, rfl⟩ := hmem
    simp only [Effect.goesTo, Effect.destination, Option.any_some, decide_eq_true_eq] at hgoes
    rw [← hgoes] at hR
    cases hR

/-- The pipeline to a client of the same node. -/
theorem atHome_flow (h : V.Traffic G) (hs : V.Step G W) (hl : Cluster.Paired G.links)
    (he : e.context = .onClient) (hR : R.context = .onClient) (hnode : R.node = e.node) :
    Pipeline.Flow (· ≤ ·) (V.issued e) (V.atHome e R) (W.issued e) (W.atHome e R) := by
  cases hs with
  | quiet => exact .same _ _
  | request t frame client => exact onward_request _ t _ frame rfl rfl rfl
  | announce t text =>
    rw [send_issued, atHome, atHome, sent_announce, onward_announce V t R text he]
    exact .same _ _
  | read t f fs env st w mail idle eq =>
    by_cases ht : t = e
    · subst ht
      exact onward_read _ _ _ mail idle fun k _ => .inr (Nat.le_refl k)
    · have hne : e ≠ t := fun h => ht h.symm
      rw [atHome, atHome, onward_start hne]
      exact .same _ _
  | post t x xs pending =>
    have hx := h.pending t x (by rw [pending]; exact List.mem_cons_self)
    have hsent : (if x.value.goesTo t.node R then indices e [x] else []) =
        if t = e ∧ x.value.goesTo e.node R then indices e [x] else [] := by
      by_cases ht : t = e
      · subst ht
        simp
      · have hno : ¬ (t = e ∧ x.value.goesTo e.node R = true) := fun h => ht h.1
        rw [if_neg hno]
        exact ite_indices fun k hgoes hk => ht (sends_at_home hl hR hnode hgoes hk hx)
    rw [post_issued, atHome, atHome, sent_post, hsent, onward_post (G := G) pending he,
      List.append_assoc]
    exact .same _ _

/-- The pipeline to a client of another node. -/
theorem away_flow (h : V.Traffic G) (hs : V.Step G W) (hl : Cluster.Paired G.links)
    (he : e.context = .onClient) (hR : R.context = .onClient) {p q : Strand N}
    (hp : G.peer p = some q) (hpe : p.node = e.node) (hqR : q.node = R.node) :
    Pipeline.Flow (· ≤ ·) (V.issued e) (V.away e p q R) (W.issued e) (W.away e p q R) := by
  have hpctx := G.context_of_peer hp
  have hqctx := G.context_of_peer (G.peer_symm hp)
  have hirr := peer_irrefl hl hp
  have hqe : q ≠ e := by
    rintro rfl
    rw [he] at hqctx
    cases hqctx
  cases hs with
  | quiet => exact .same _ _
  | request t frame client =>
    have hqt : q ≠ t := by
      rintro rfl
      rw [client] at hqctx
      cases hqctx
    have hrelaying : relaying { V with
        mail := push V.mail t ⟨some ⟨t, V.issued t, 0⟩, frame⟩
        issued := Function.update V.issued t (V.issued t + 1) } e q = V.relaying e q := by
      simp only [relaying, push_of_ne _ _ _ hqt]
    rw [away, away, hrelaying]
    exact onward_request _ t _ frame rfl rfl rfl
  | announce t text =>
    rw [send_issued, away, away, sent_announce, relaying_announce, onward_announce V t p text he,
      toSend, toSend, send_pending]
    exact .same _ _
  | read t f fs env st w mail idle eq =>
    by_cases ht : t = e
    · subst ht
      have hsame : (V.start t fs (Network.caused f.origin w.effects)).toSend t q R =
          V.toSend t q R := by
        simp only [toSend, start, Function.update_of_ne hqe]
      have hrelaying : (V.start t fs (Network.caused f.origin w.effects)).relaying t q =
          V.relaying t q := by
        simp only [relaying, start, Function.update_of_ne hqe]
      rw [away, away, hsame, hrelaying]
      exact onward_read _ _ _ mail idle fun k _ => .inr (Nat.le_refl k)
    · have hne : e ≠ t := fun h => ht h.symm
      rw [away, away, onward_start hne]
      by_cases hq : t = q
      · subst hq
        rw [toSend_idle idle, List.nil_append]
        have hW : (V.start t fs (Network.caused f.origin w.effects)).toSend e t R =
            indices e (Network.caused f.origin (w.effects.filter (Effect.goesTo t.node R))) := by
          simp only [toSend, start, Function.update_self]
          rw [caused_filter]
        have hV : V.relaying e t = indices e ([f].filter Traced.isFirst) ++
            (V.start t fs (Network.caused f.origin w.effects)).relaying e t := by
          simp only [relaying, start, Function.update_self, mail]
          rw [← indices_append, ← List.filter_append]
          rfl
        rw [hW, hV]
        simp only [List.append_assoc]
        cases hf : f.isFirst with
        | true =>
          have hfilter : [f].filter Traced.isFirst = [f] := List.filter_cons_of_pos hf
          rw [hfilter]
          exact flow_read _ (indices e (V.sent R)) _ fun k _ => .inr (Nat.le_refl k)
        | false =>
          -- an answer: reading it sends nothing to a client
          have hfilter : [f].filter Traced.isFirst = [] := List.filter_cons_of_neg (by simp [hf])
          have hnone : indices e (Network.caused f.origin
              (w.effects.filter (Effect.goesTo t.node R))) = [] := by
            cases hk : f.index? e with
            | none => exact indices_caused_none hk _
            | some k =>
              have hclients := no_clients_of_answer (h.mail t f (by
                rw [mail]
                exact List.mem_cons_self)) hqctx hk hf eq hR
              rw [hclients]
              rfl
          rw [hfilter, hnone]
          exact .same _ _
      · have hne' : q ≠ t := fun h => hq h.symm
        simp only [toSend, relaying, start, Function.update_of_ne hne']
        exact .same _ _
  | post t x xs pending =>
    have hx := h.pending t x (by rw [pending]; exact List.mem_cons_self)
    have hsent : (if x.value.goesTo t.node R then indices e [x] else []) =
        if t = q ∧ x.value.goesTo q.node R then indices e [x] else [] := by
      by_cases ht : t = q
      · subst ht
        simp
      · have hno : ¬ (t = q ∧ x.value.goesTo q.node R = true) := fun h => ht h.1
        rw [if_neg hno]
        exact ite_indices fun k hgoes hk => ht (sends_away hl hp hpe hqR hR hgoes hk hx)
    have hforward : (if x.value.goesTo t.node p then indices e ([x].filter Traced.isFirst)
        else []) = if t = e ∧ x.value.goesTo e.node p then indices e [x] else [] := by
      cases hk : x.index? e with
      | none =>
        have hfilter : indices e ([x].filter Traced.isFirst) = [] := by
          by_cases hf : x.isFirst = true
          · rw [List.filter_cons_of_pos hf]
            exact indices_singleton_none hk
          · rw [List.filter_cons_of_neg hf]
            rfl
        rw [hfilter, indices_singleton_none hk, ite_self, ite_self]
      | some k =>
        by_cases hgoes : x.value.goesTo t.node p = true
        · rcases sends_on_socket hpctx hgoes hk hx with ⟨rfl, hf⟩ | ⟨rfl, hf⟩
          · rw [List.filter_cons_of_pos hf]
            simp
          · have hno : ¬ (t = e ∧ x.value.goesTo e.node t = true) := by
              rintro ⟨rfl, -⟩
              rw [he] at hpctx
              cases hpctx
            rw [if_neg hno, if_pos hgoes, List.filter_cons_of_neg (by simp [hf])]
            rfl
        · have hno : ¬ (t = e ∧ x.value.goesTo e.node p = true) := by
            rintro ⟨rfl, h⟩
            exact hgoes h
          rw [if_neg hno, if_neg hgoes]
    rw [post_issued, away, away, sent_post, hsent, relaying_post V hp, hforward,
      toSend_post (G := G) pending e q R, onward_post (G := G) pending he]
    simp only [List.append_assoc]
    exact .same _ _

end

end View

namespace Network

variable {N : Type} [DecidableEq N] {G : Topology N}

/-- What was sent on the strand, in the order in which it is written: the texts written, those in
the write queue and those posted. -/
def sent (X : Network N) (t : Strand N) : List (Traced N Text) :=
  X.written t ++ (X.queue t ++ X.posts t)

/-- What `e` caused stands in the order of its requests among the texts for a client. -/
theorem ordered_of_run (hl : Cluster.Paired G.links) {as : List (Action N)} {Y : Network N}
    (hY : Run.exec (step G) {} as = some Y) {e R : Strand N} (he : e.context = .onClient)
    (hR : R.context = .onClient) :
    Pipeline.Numbered (· ≤ ·) (Y.issued e) (indices e (Y.sent R)) := by
  by_cases hnode : R.node = e.node
  · have hrun : View.Traffic G (Y.view G) ∧
        Pipeline.Numbered (· ≤ ·) (Y.issued e) ((Y.view G).atHome e R) := by
      refine view_invariant G (I := fun V => View.Traffic G V ∧
        Pipeline.Numbered (· ≤ ·) (V.issued e) (V.atHome e R)) (fun hI hs => ?_) ?_ hY
      · exact ⟨hI.1.of_step hs, hI.2.of_flow Nat.le_of_lt
          (View.atHome_flow hI.1 hs hl he hR hnode)⟩
      · refine ⟨traffic_empty G, ?_⟩
        rw [view_empty]
        exact Pipeline.Numbered.nil 0
    exact hrun.2.of_append
  · obtain ⟨p, q, hp, hpe, hqR⟩ := View.peer_total hl (Ne.symm hnode)
    have hrun : View.Traffic G (Y.view G) ∧
        Pipeline.Numbered (· ≤ ·) (Y.issued e) ((Y.view G).away e p q R) := by
      refine view_invariant G (I := fun V => View.Traffic G V ∧
        Pipeline.Numbered (· ≤ ·) (V.issued e) (V.away e p q R)) (fun hI hs => ?_) ?_ hY
      · exact ⟨hI.1.of_step hs, hI.2.of_flow Nat.le_of_lt
          (View.away_flow hI.1 hs hl he hR hp hpe hqR)⟩
      · refine ⟨traffic_empty G, ?_⟩
        rw [view_empty]
        exact Pipeline.Numbered.nil 0
    exact hrun.2.of_append.of_append

/-- **Per-sender order.**  In a cluster where every two nodes share one session, whatever the
interleaving: of two texts that requests of one client caused and that one client is sent, that of
the earlier request is written first. -/
theorem per_sender_order (hl : Cluster.Paired G.links) {as : List (Action N)} {Y : Network N}
    (hY : Run.exec (step G) {} as = some Y) {e R : Strand N} (he : e.context = .onClient)
    (hR : R.context = .onClient) {i j : Nat} {a b : Traced N Text} (ha : (Y.sent R)[i]? = some a)
    (hb : (Y.sent R)[j]? = some b) {k l : Nat} (hk : a.index? e = some k)
    (hl' : b.index? e = some l) (hkl : k < l) : i < j := by
  have hord := (ordered_of_run hl hY he hR).ordered
  unfold indices at hord
  rw [List.pairwise_filterMap] at hord
  by_contra hij
  obtain ⟨hi, rfl⟩ := List.getElem?_eq_some_iff.mp ha
  obtain ⟨hj, rfl⟩ := List.getElem?_eq_some_iff.mp hb
  rcases Nat.lt_or_eq_of_le (Nat.le_of_not_lt hij) with hlt | rfl
  · have hle := List.pairwise_iff_getElem.mp hord j i hj hi hlt l hl' k hk
    omega
  · rw [hk] at hl'
    cases hl'
    exact Nat.lt_irrefl k hkl

/-! ## Two broadcasts -/

theorem paired_twoNodes : Cluster.Paired (twoNodes [socketId 8]).links where
  symm := (twoNodes [socketId 8]).symm
  irrefl := by
    intro b s b' s' h
    simp only [twoNodes, List.mem_singleton] at h
    split at h
    · cases h
      simp
    · cases h
  total := by
    intro b b' hne
    refine ⟨socketId 8, socketId 8, ?_⟩
    have hb : (!b) = b' := by
      revert hne
      revert b b'
      decide
    simp [twoNodes, hb]
  unique := by
    intro b b' s t s' t' h h'
    simp only [twoNodes, List.mem_singleton] at h h'
    split at h
    · split at h'
      · rename_i hs ht
        rw [hs, ht]
      · cases h'
    · cases h

def receiver : Strand Bool := ⟨false, .onClient, secondClient⟩

/-- A broadcast from the request to the socket of the other node's client. -/
def broadcastOver : List (Action Bool) :=
  [.read sender World.pair.env (nodeState [socketId 8] true), .post sender, .post sender,
    .onSend (socketEnd true 8), .onWrite (socketEnd true 8),
    .read (socketEnd false 8) World.pair.env (nodeState [socketId 8] false),
    .post (socketEnd false 8), .post (socketEnd false 8), .onSend receiver, .onWrite receiver]

theorem exec_broadcasts : (Run.exec (step (twoNodes [socketId 8])) {}
    ([.request true firstClient (.object broadcastData),
      .request true firstClient (.object broadcastData)] ++ broadcastOver ++
      broadcastOver)).any (fun Y =>
        decide ((Y.sent receiver).map (Traced.index? sender) = [some 0, some 1])) = true := by
  decide +kernel

/-- Both broadcasts reach the other client, the first one first. -/
theorem per_sender_order_broadcasts : ∃ Y a b, Run.exec (step (twoNodes [socketId 8])) {}
    ([.request true firstClient (.object broadcastData),
      .request true firstClient (.object broadcastData)] ++ broadcastOver ++
      broadcastOver) = some Y ∧
    (Y.sent receiver)[0]? = some a ∧ (Y.sent receiver)[1]? = some b ∧
    a.index? sender = some 0 ∧ b.index? sender = some 1 ∧ 0 < 1 := by
  have heval := exec_broadcasts
  simp only [Option.any_eq_true, decide_eq_true_eq] at heval
  obtain ⟨Y, hY, hsent⟩ := heval
  obtain ⟨a, as, hsent₁, ha, hrest⟩ := List.map_eq_cons_iff.mp hsent
  obtain ⟨b, bs, hsent₂, hb, -⟩ := List.map_eq_cons_iff.mp hrest
  have h₀ : (Y.sent receiver)[0]? = some a := by rw [hsent₁]; rfl
  have h₁ : (Y.sent receiver)[1]? = some b := by rw [hsent₁, hsent₂]; rfl
  exact ⟨Y, a, b, hY, h₀, h₁, ha, hb,
    per_sender_order paired_twoNodes hY rfl rfl h₀ h₁ ha hb (by decide)⟩

end Network

end Aewt
