import AewtState.Passing

/-!
# Broadcasts, publishes and messages arrive

What a client's broadcast, publish or message to one client comes to on the strands, through every
queue, while other handlers run: proved for clusters, and carried over by the refinement.

* `LooksUp` — the state in which the subscribed sessions are looked up.

Principal results: `broadcast_arrives`, `publish_arrives`, `send_arrives` — when a request has
passed, each client it is for was written it once if its handshake was done when the request was
read, and at most once else; and the nodes alone always get there.
-/

set_option autoImplicit false

namespace Aewt

namespace Fleet

variable {N : Type} [DecidableEq N] {G : Topology N} {X X' Z : Fleet N} {Y : Parted N}
  {key : Nat → Option (Strand N × Nat)} {x : Strand N × Nat} {k : Nat} {as : List (Action N)}
  {n : N} {c : Uuid} {T : Text} {R : Uuid → Prop}

/-! ## Broadcasts and publishes -/

variable {X₀ : Fleet N} {history : List (Action N)} {env : Env} {f : Traced N Frame}
  {fs : List (Traced N Frame)} {data payload : Object} {t : Uuid}

/-- The handler of a client fans out to the sessions `xs`. -/
theorem Simulates.spread_read (h : Simulates G key X Y) (hG : Cluster.Paired G.links) (n : N)
    (hdata : f.value = .object data) (xs : List Session) {command : Command}
    (hne : ∀ host sp cp, command ≠ .session host sp cp)
    (hdec : decode data .onClient c = .ok (.accepted t command)) (hfan : Fanout T c)
    (hxs : (xs.map Session.id).Nodup) (env : Env)
    (hout : ∀ request : Request, request.context = .onClient → request.transactionId = t →
      outcome (.start env (Y.cluster.node n)) request command =
        ⟨Y.cluster.node n, toClients (Y.cluster.node n) c T ++ xs.map fun x => .session x.id T,
          some (countReply (othersCount (Y.cluster.node n)))⟩) :
    ∀ W, Y.cluster.step (.request n c f.value env) = some W →
      W.Spread Y.cluster.tags T n c (· ∈ xs.map Session.id) := by
  intro W hW
  have hlinks : Cluster.Paired Y.cluster.links := by
    rw [h.refines.links]
    exact hG
  obtain ⟨V, hV, hspread, -⟩ := Cluster.spread_request env xs hlinks h.fresh.cluster
    (Cluster.step_request.mp hW).1 hne hdec hfan hxs hout
  rw [hdata] at hW
  cases hW.symm.trans hV
  exact hspread

omit [DecidableEq N] in
theorem publish?_of_publish {e : Uuid} {channel : String} (hdata : f.value = .object data)
    (hdec : decode data .onClient c = .ok (.accepted t (.publish e channel payload))) :
    (Strand.client n c).publish? f.value = some ⟨t, e, channel, payload, []⟩ := by
  simp [Strand.publish?, hdata, hdec]

omit [DecidableEq N] in
theorem publish?_of_other {command : Command} (hdata : f.value = .object data)
    (hdec : decode data .onClient c = .ok (.accepted t command))
    (hne : ∀ e channel payload, command ≠ .publish e channel payload) :
    (Strand.client n c).publish? f.value = none := by
  cases command with
  | publish e channel payload => exact absurd rfl (hne e channel payload)
  | _ => simp [Strand.publish?, hdata, hdec]

/-- **A broadcast arrives once.**  The handler of a client reads a broadcast, in any reachable
state.  Then, as long as no client comes or goes: the nodes alone can always make it pass; when
it has passed, no client was written it twice, nor the sender at all, and every other client whose
connection was open when the handler started was written it once; and what was written is the
broadcast. -/
theorem broadcast_arrives (hG : Cluster.Paired G.links) (h₀ : X₀.Initial G)
    (hrun : Run.exec (step G) X₀ history = some X) (hf : X.net.inbox (.client n c) = f :: fs)
    (hdata : f.value = .object data)
    (hdec : decode data .onClient c = .ok (.accepted t (.broadcast c payload)))
    (hX : X.step G (.read (.client n c) env) = some X') :
    ∃ i, f.origin = some ⟨.client n c, i, 0⟩ ∧
      ∀ as Z, (∀ a ∈ as, Calm a) → Run.exec (step G) X' as = some Z →
        (∃ bs Z', Run.Along (step G) Alone Z bs ∧ Run.exec (step G) Z bs = some Z' ∧
          Z'.Passed (.client n c, i)) ∧
        (∀ m d, ∀ y ∈ Z.net.written (.client m d), IsCopy (.client n c, i) (parcel y) →
          y.value = serialize (requestObject t "broadcast" (broadcastParams c payload))) ∧
        (Z.Passed (.client n c, i) → ∀ m d,
          Z.copies (.client n c, i) m d ≤ (if X.Local m d ∧ d ≠ c then 1 else 0) ∧
          (X.IsOpen (.client m d) → d ≠ c → Z.copies (.client n c, i) m d = 1)) := by
  have hsingle : G.Single := ⟨hG.irrefl, hG.unique⟩
  have hfan := fanout_broadcast t c payload
  obtain ⟨bs, Y, -, key, h⟩ := simulates_of_run hsingle h₀ hrun
  obtain ⟨i, W, key', horigin, hstep, hW, hx, hlost⟩ := h.read hsingle hf hX
  rw [publish?_of_other hdata hdec (by simp)] at hstep
  obtain ⟨V, hV, rfl⟩ := Parted.step_handler.mp hstep
  have hspread := h.spread_read hG n hdata (Y.cluster.node n).getSessions (by simp) hdec hfan
    (Cluster.nodup_sessions (Y.cluster.node n)) env (by
      intro request hctx ht
      simp only [outcome, relayed, hctx, ht, World.start, toOthersClients, toSessions, toClients,
        makeBroadcastRequestObject]) V hV
  refine ⟨i, horigin, fun as Z has hZ => ?_⟩
  obtain ⟨U, key'', hU, ⟨hspread', -⟩, hx'⟩ := hW.spread_of_run hG hfan hspread hx
    (fun a ha => ⟨has a ha, .inl h.due_tags⟩) hZ
  refine ⟨hU.passes hsingle _, fun m d y hy hcopy => hU.text_of_copy hspread' hx' hy hcopy,
    fun hpassed m d => ?_⟩
  obtain ⟨hreached, hle⟩ := hU.copies_of_passed hG hspread' hx' hpassed m d
  have hlocal : Z.Local m d ↔ X.Local m d :=
    (same_locals hsingle hW.inv has hZ m d).trans (local_of_calm h.inv hsingle hX trivial m d)
  simp only [hlocal] at hreached hle
  refine ⟨le_trans (Nat.le_add_right _ _) hle, fun ho hdc => ?_⟩
  have hopen := isOpen_step hX trivial ho
  have hone := hreached ?_ (isOpen_of_run hopen has hZ)
  · rwa [lost_of_open (hlost m d) hopen has hZ, Nat.add_zero,
      if_pos ⟨h.local_of_open ho, hdc⟩] at hone
  · by_cases hm : m = n
    · exact .inl hm
    · obtain ⟨s, s', hl⟩ := hG.total hm
      refine .inr ⟨s, s', hl, List.mem_map.mpr (Table.hasKey_iff.mp ?_)⟩
      rw [congrFun h.refines.node n]
      exact h.inv.known (G.symm hl)

variable {ch : String} {q : Publishing}

/-- What is due on a strand stays due until its lookup. -/
theorem due_keeps {s : Strand N} {p : Traced N Publishing} {a : Action N}
    (hs : X.step G a = some X') (hp : X.due s = some p) (ha : a ≠ .lookup s) :
    X'.due s = some p := by
  have hscene := scene_step (G := G) hs
  have hX : (X.scene G).due s = some p := hp
  have hX' : (X'.scene G).due = X'.due := rfl
  rw [← hX']
  generalize X'.scene G = S at hscene
  cases hscene with
  | announce | post =>
    rw [Scene.sends_due]
    exact hX
  | connect | accept | fail | request | onSend | onWrite => exact hX
  | read opened idle free mail eq =>
    rename_i u env f fs w
    have hu : s ≠ u := by
      rintro rfl
      rw [free] at hX
      cases hX
    exact (Function.update_of_ne hu _ _).trans hX
  | lookup =>
    rename_i u p' _ _
    have hu : s ≠ u := by
      rintro rfl
      exact ha rfl
    exact (Function.update_of_ne hu _ _).trans hX

/-- What is due after the handler of a client has read a publish. -/
theorem due_read {p : Publishing} (hf : X.net.inbox (.client n c) = f :: fs)
    (hp : (Strand.client n c).publish? f.value = some p)
    (hX : X.step G (.read (.client n c) env) = some X') : ∃ q reply,
      X'.due (.client n c) = some ⟨f.origin, q⟩ ∧ q = { p with reply := [.client c reply] } ∧
      acknowledges reply = true := by
  have hs := scene_step (G := G) hX
  have hmail : (X.scene G).mail (.client n c) = f :: fs :=
    (Network.view_mail_of_none G X.net (G.peer_onClient rfl)).trans hf
  have hdue : (X'.scene G).due = X'.due := rfl
  rw [← hdue]
  generalize X'.scene G = S at hs
  cases hs with
  | read opened idle free mail eq =>
    cases hmail.symm.trans mail
    obtain ⟨q, ⟨message, timestamp, runtime, data, rfl⟩, hcut, -⟩ :=
      cut_of_some (t := .client n c) hp eq
    refine ⟨_, serialize (successData p.transactionId message timestamp runtime data), ?_, rfl,
      acknowledges_success _ _ _ _ _⟩
    rw [hcut]
    exact Function.update_self ..

/-- The handler of a publish looks up the subscribed sessions: the fan-out goes on to them. -/
theorem Simulates.spread_lookup (h : Simulates G key X Y) (hG : G.Single) {i : Nat} {reply : Text}
    (hspread : Y.cluster.Spread k (serialize q.message) n c fun _ => False)
    (hfan : Fanout (serialize q.message) c) (hx : key k = some (.client n c, i))
    (hdue : X.due (.client n c) = some ⟨some ⟨.client n c, i, 0⟩, q⟩)
    (hreply : q.reply = [.client c reply]) (hack : acknowledges reply = true)
    (hX : X.step G (.lookup (.client n c)) = some X') : ∃ W, Simulates G key X' W ∧
      W.cluster.Spread k (serialize q.message) n c
        (· ∈ ((X.node n).getSessions.filter fun s =>
          s.id ∈ receivers (X.node n) q.channel).map Session.id) ∧ W.due k = none := by
  have hs := scene_step (G := G) hX
  have hnext : ∀ {Z key'}, (Z = Y ∨ ∃ b, Y.step b = some Z) → Mimics G key' (X'.scene G) Z →
      Simulates G key' X' Z := fun hZ hm => h.next hG hX hZ hm
  have hdue' : (X.scene G).due (.client n c) = some ⟨some ⟨.client n c, i, 0⟩, q⟩ := hdue
  generalize X'.scene G = S at hs hnext
  cases hs with
  | lookup due idle =>
    cases hdue'.symm.trans due
    obtain ⟨k', i', W, hk', horigin, hY, hstep, hm, -⟩ := h.toMimics.lookup
      h.sparse.finite_waiting due idle
    cases horigin
    obtain rfl : k' = k := h.keyed.once k' (h.fresh.due _ _ hY) k hspread.below _ hk' hx
    have hnode : Y.cluster.node n = X.node n := congrFun h.refines.node n
    refine ⟨W, hnext (.inr ⟨_, hstep⟩) hm, ?_, ?_⟩
    · rw [← hnode]
      exact Parted.spread_lookup hspread hfan hY hreply hack hstep
    · obtain ⟨_, _, -, rfl⟩ := Parted.step_lookup.mp hstep
      exact Function.update_self ..

variable (G) in
/-- In the run from `X`, the handler on `s` looks up the subscribed sessions in the state `V`. -/
def LooksUp (X : Fleet N) (as : List (Action N)) (s : Strand N) (V : Fleet N) : Prop :=
  ∃ before after, as = before ++ .lookup s :: after ∧ .lookup s ∉ before ∧
    Run.exec (step G) X before = some V

/-- Up to the lookup, the publish is on its way to the clients of its node. -/
theorem Simulates.spread_before (h : Simulates G key X Y) (hG : Cluster.Paired G.links) {i : Nat}
    {p : Traced N Publishing} (hfan : Fanout T c)
    (hspread : Y.cluster.Spread k T n c fun _ => False) (hx : key k = some (.client n c, i))
    (hdue : X.due (.client n c) = some p) (has : ∀ a ∈ as, Calm a)
    (hnot : .lookup (.client n c) ∉ as) (hZ : Run.exec (step G) X as = some Z) :
    ∃ W key', Simulates G key' Z W ∧ W.cluster.Spread k T n c (fun _ => False) ∧
      key' k = some (.client n c, i) ∧ Z.due (.client n c) = some p := by
  have hne : ∀ a ∈ as, a ≠ .lookup (.client n c) := fun a ha heq => hnot (heq ▸ ha)
  obtain ⟨W, key', hW, ⟨hW', -⟩, hx'⟩ := h.spread_of_run hG hfan hspread hx
    (fun a ha => ⟨has a ha, .inr (hne a ha)⟩) hZ
  exact ⟨W, key', hW, hW', hx', Run.exec_invariant_along
    (C := fun _ a => a ≠ .lookup (.client n c)) (I := fun Z => Z.due (.client n c) = some p)
    (fun hI ha hs => due_keeps hs hI ha) hdue (Run.along_of_forall X hne) hZ⟩

/-- After the lookup, it is on its way to the sessions that were subscribed then. -/
theorem Simulates.spread_after (h : Simulates G key X Y) (hG : Cluster.Paired G.links) {i : Nat}
    {reply : Text} (hfan : Fanout (serialize q.message) c)
    (hspread : Y.cluster.Spread k (serialize q.message) n c fun _ => False)
    (hx : key k = some (.client n c, i))
    (hdue : X.due (.client n c) = some ⟨some ⟨.client n c, i, 0⟩, q⟩)
    (hreply : q.reply = [.client c reply]) (hack : acknowledges reply = true)
    (has : ∀ a ∈ as, Calm a) {V : Fleet N} (hV : LooksUp G X as (.client n c) V)
    (hZ : Run.exec (step G) X as = some Z) : (V.picture G).Inv G ∧
    ∃ W key', Simulates G key' Z W ∧ W.cluster.Spread k (serialize q.message) n c
        (· ∈ ((V.node n).getSessions.filter fun s =>
          s.id ∈ receivers (V.node n) q.channel).map Session.id) ∧
      key' k = some (.client n c, i) := by
  have hsingle : G.Single := ⟨hG.irrefl, hG.unique⟩
  obtain ⟨before, after, rfl, hnot, hbefore⟩ := hV
  obtain ⟨V', hV', hrest⟩ := Run.exec_append.mp hZ
  cases hbefore.symm.trans hV'
  obtain ⟨U, hU, hafter⟩ := Run.exec_cons.mp hrest
  obtain ⟨W, key', hW, hW', hx', hdue'⟩ := h.spread_before hG hfan hspread hx hdue
    (fun a ha => has a (List.mem_append_left _ ha)) hnot hbefore
  obtain ⟨W₁, hW₁, hspread₁, hnone⟩ := hW.spread_lookup hsingle hW' hfan hx' hdue' hreply hack hU
  obtain ⟨W₂, key₂, hW₂, ⟨hspread₂, -⟩, hx₂⟩ := hW₁.spread_of_run hG hfan hspread₁ hx'
    (fun a ha => ⟨has a (List.mem_append_right _ (List.mem_cons_of_mem _ ha)), .inl hnone⟩) hafter
  exact ⟨hW.inv, W₂, key₂, hW₂, hspread₂, hx₂⟩

/-- **A publish arrives once.**  The handler of a client reads a publish, in any reachable state.
Then, as long as no client comes or goes: the nodes alone can always make it pass; when it has
passed, no client was written it twice, nor the publisher at all; a client whose connection was open
when the handler started was written it once if it is at the publisher's node, or if it was
subscribed when the handler looked up the sessions and nothing about its subscription was to be
read then; and what was written is the publish. -/
theorem publish_arrives (hG : Cluster.Paired G.links) (h₀ : X₀.Initial G)
    (hrun : Run.exec (step G) X₀ history = some X) (hf : X.net.inbox (.client n c) = f :: fs)
    (hdata : f.value = .object data)
    (hdec : decode data .onClient c = .ok (.accepted t (.publish c ch payload)))
    (hX : X.step G (.read (.client n c) env) = some X') :
    ∃ i, f.origin = some ⟨.client n c, i, 0⟩ ∧
      ∀ as Z, (∀ a ∈ as, Calm a) → Run.exec (step G) X' as = some Z →
        (∃ bs Z', Run.Along (step G) Alone Z bs ∧ Run.exec (step G) Z bs = some Z' ∧
          Z'.Passed (.client n c, i)) ∧
        (∀ m d, ∀ y ∈ Z.net.written (.client m d), IsCopy (.client n c, i) (parcel y) →
          y.value = serialize (requestObject t "publish" (publishParams c ch payload))) ∧
        (Z.Passed (.client n c, i) → ∀ m d,
          Z.copies (.client n c, i) m d ≤ (if X.Local m d ∧ d ≠ c then 1 else 0) ∧
          (X.IsOpen (.client m d) → d ≠ c →
            (m = n ∨ ∃ V, LooksUp G X' as (.client n c) V ∧
              (V.node m).Holds (V.node m).id (.subscription d ch) ∧
              ∀ s s', G.links n s = some (m, s') → ∀ text ∈ (V.picture G).toRead n s m s' d, ∀ b,
                updateOf s text ≠ some (.subscription d ch, b)) →
            Z.copies (.client n c, i) m d = 1)) := by
  have hsingle : G.Single := ⟨hG.irrefl, hG.unique⟩
  have hfan := fanout_publish t c ch payload
  obtain ⟨bs, Y, -, key, h⟩ := simulates_of_run hsingle h₀ hrun
  obtain ⟨i, W, key', horigin, hstep, hW, hx, hlost⟩ := h.read hsingle hf hX
  have hp : (Strand.client n c).publish? f.value = some ⟨t, c, ch, payload, []⟩ :=
    publish?_of_publish hdata hdec
  rw [hp] at hstep
  have hspread := Parted.spread_publish (by rw [h.refines.links]; exact hG) h.fresh hp rfl hstep
  obtain ⟨q, reply, hdue, rfl, hack⟩ := due_read hf hp hX
  rw [horigin] at hdue
  have hfan' : Fanout (serialize
      (Publishing.message ⟨t, c, ch, payload, [.client c reply]⟩)) c := hfan
  refine ⟨i, horigin, fun as Z has hZ => ?_⟩
  have hlocal : ∀ m d, Z.Local m d ↔ X.Local m d := fun m d =>
    (same_locals hsingle hW.inv has hZ m d).trans (local_of_calm h.inv hsingle hX trivial m d)
  -- whether the sessions were looked up or not, there is a fan-out
  obtain ⟨R, U, key'', hU, hspread', hx'⟩ : ∃ R U key'', Simulates G key'' Z U ∧
      U.cluster.Spread Y.cluster.tags
        (serialize (requestObject t "publish" (publishParams c ch payload))) n c R ∧
      key'' Y.cluster.tags = some (.client n c, i) := by
    by_cases hin : .lookup (.client n c) ∈ as
    · obtain ⟨before, after, rfl, hnot⟩ := List.eq_append_cons_of_mem hin
      obtain ⟨V, hV, -⟩ := Run.exec_append.mp hZ
      obtain ⟨-, U, key'', hU, hspread', hx'⟩ := hW.spread_after hG hfan' hspread hx hdue rfl hack
        has ⟨before, after, rfl, hnot, hV⟩ hZ
      exact ⟨_, U, key'', hU, hspread', hx'⟩
    · obtain ⟨U, key'', hU, hspread', hx', -⟩ := hW.spread_before hG hfan hspread hx hdue has hin hZ
      exact ⟨_, U, key'', hU, hspread', hx'⟩
  refine ⟨hU.passes hsingle _, fun m d y hy hcopy => hU.text_of_copy hspread' hx' hy hcopy,
    fun hpassed m d => ?_⟩
  obtain ⟨hreached, hle⟩ := hU.copies_of_passed hG hspread' hx' hpassed m d
  simp only [hlocal] at hreached hle
  refine ⟨le_trans (Nat.le_add_right _ _) hle, fun ho hdc hm => ?_⟩
  have hopen := isOpen_step hX trivial ho
  have hzero := lost_of_open (hlost m d) hopen has hZ
  by_cases hmn : m = n
  · have hone := hreached (.inl hmn) (isOpen_of_run hopen has hZ)
    rwa [hzero, Nat.add_zero, if_pos ⟨h.local_of_open ho, hdc⟩] at hone
  obtain ⟨V, hV, hsub, htold⟩ := hm.resolve_left hmn
  obtain ⟨hinv, U', key₂, hU', hspread₂, hx₂⟩ := hW.spread_after hG hfan' hspread hx hdue rfl hack
    has hV hZ
  obtain ⟨s, s', hl⟩ := hG.total hmn
  -- the publisher's node mirrors the subscription, so the session is a receiver
  have hrow : (V.node n).Holds s' (.subscription d ch) :=
    (hinv.mirror (G.symm hl) (k := .subscription d ch) (htold s' s (G.symm hl))).mpr hsub
  have hrec : s' ∈ receivers (V.node n) ch := mem_receivers.mpr ⟨_, hrow, rfl, rfl⟩
  obtain ⟨y, hy, hid⟩ := Table.hasKey_iff.mp (hinv.known (G.symm hl))
  have hone := (hU'.copies_of_passed hG hspread₂ hx₂ hpassed m d).1 (.inr ⟨s, s', hl,
    List.mem_map.mpr ⟨y, List.mem_filter.mpr ⟨hy, by simpa [hid] using hrec⟩, hid⟩⟩)
    (isOpen_of_run hopen has hZ)
  simp only [hlocal] at hone
  rwa [hzero, Nat.add_zero, if_pos ⟨h.local_of_open ho, hdc⟩] at hone

/-- **A message arrives once.**  The handler of a client reads a message to a client whose
connection is open, in any reachable state, when the sender's node has been told of it.  Then, as
long as that connection stays open, whoever else comes and goes: the nodes alone can always make
the message pass; and when it has passed, the recipient was written it once, and nobody else. -/
theorem send_arrives {m : N} {d : Uuid} (hG : Cluster.Paired G.links) (h₀ : X₀.Initial G)
    (hrun : Run.exec (step G) X₀ history = some X) (hf : X.net.inbox (.client n c) = f :: fs)
    (hdata : f.value = .object data)
    (hdec : decode data .onClient c = .ok (.accepted t (.send c d payload)))
    (hd : X.IsOpen (.client m d)) (htold : ∀ s s', G.links n s = some (m, s') →
      ∀ text ∈ (X.picture G).toRead n s m s' d, ∀ b, updateOf s text ≠ some (.client d, b))
    (hX : X.step G (.read (.client n c) env) = some X') :
    ∃ i, f.origin = some ⟨.client n c, i, 0⟩ ∧
      ∀ as Z, Run.Along (step G) (fun V _ => V.IsOpen (.client m d)) X' as →
        Run.exec (step G) X' as = some Z → Z.IsOpen (.client m d) →
        (∃ bs Z', Run.Along (step G) Alone Z bs ∧ Run.exec (step G) Z bs = some Z' ∧
          Z'.Passed (.client n c, i)) ∧
        (∀ j e, ∀ y ∈ Z.net.written (.client j e), IsCopy (.client n c, i) (parcel y) →
          ∃ t', y.value = serialize (sendObject t' c d payload)) ∧
        (Z.Passed (.client n c, i) → ∀ j e,
          Z.copies (.client n c, i) j e = if j = m ∧ e = d then 1 else 0) := by
  have hsingle : G.Single := ⟨hG.irrefl, hG.unique⟩
  obtain ⟨bs, Y, -, key, h⟩ := simulates_of_run hsingle h₀ hrun
  obtain ⟨i, V, key', horigin, hstep, hV, hx, hlost⟩ := h.read hsingle hf hX
  rw [publish?_of_other hdata hdec (by simp)] at hstep
  obtain ⟨V₁, hV₁, rfl⟩ := Parted.step_handler.mp hstep
  have hnode : ∀ j, Y.cluster.node j = X.node j := congrFun h.refines.node
  have hmesh : Y.cluster.Mesh := by
    refine ⟨by rw [h.refines.links]; exact hG, fun {j s e} hl => ?_, fun {j s e} hl => ?_⟩
    · rw [h.refines.links] at hl
      rw [hnode]
      exact h.inv.known hl
    · rw [h.refines.links] at hl
      rw [hnode]
      exact h.inv.fresh hl
  have hdlocal := h.local_of_open hd
  -- the sender's node mirrors the recipient's row, under the session to its node
  have hrow : ∀ s' s, Y.cluster.links n s' = some (m, s) →
      (Y.cluster.node n).Holds s' (.client d) := by
    intro s' s hl
    rw [h.refines.links] at hl
    rw [hnode]
    exact (h.inv.mirror hl (k := .client d) (htold s' s hl)).mpr hdlocal
  obtain ⟨V', hV', s, flying, hletter, hlink⟩ := Cluster.step_letter env hmesh h.fresh.cluster
    (Cluster.step_request.mp hV₁).1 ((h.local_iff m d).mpr hdlocal) hrow hdec
  rw [hdata] at hV₁
  cases hV₁.symm.trans hV'
  refine ⟨i, horigin, fun as Z has hZ hopen => ?_⟩
  obtain ⟨W, key'', hW, ⟨⟨flying', hfly, hend⟩, -⟩, hx'⟩ := hV.along hsingle hx
    (C := fun V _ => V.IsOpen (.client m d))
    (I := fun W => (∃ flying', (flying' = true → flying = true) ∧
      W.cluster.Letter Y.cluster.tags c d payload m s flying') ∧ W.due Y.cluster.tags = none)
    (fun ⟨⟨_, _, hI⟩, _⟩ => hI.below)
    (fun hW _ ho _ hb _ ⟨⟨_, hfly, hI⟩, hnone⟩ => by
      have hnone' := Parted.due_step hb hI.below hnone
      obtain ⟨flying'', hfly', hI'⟩ := Parted.letter_step hI
        ((hW.local_iff m d).mpr (hW.local_of_open ho)) hb (hnone'.trans hnone.symm)
      exact ⟨⟨flying'', fun h => hfly (hfly' h), hI'⟩, hnone'⟩)
    ⟨⟨flying, id, hletter⟩, h.due_tags⟩ has hZ
  refine ⟨hW.passes hsingle _, fun j e y hy hcopy => ?_, fun hpassed j e => ?_⟩
  · obtain ⟨e', he', htag, hvalue⟩ := hW.exists_logged hend.below hx' hy hcopy
    rw [← hvalue]
    exact hend.logged e' he' htag (by rw [hvalue]; exact hcopy.2)
  · have hpending : ∀ j x, W.cluster.pending Y.cluster.tags j x = 0 := by
      intro j x
      rw [hend.pending]
      refine if_neg ?_
      rintro ⟨hflying, rfl, rfl⟩
      obtain ⟨s', hl⟩ := hlink (hfly hflying)
      rw [h.refines.links] at hl
      have hzero := hW.pending_eq_zero hend.below hx' hpassed hl
      rw [hend.pending, if_pos ⟨hflying, rfl, rfl⟩] at hzero
      cases hzero
    have hcount := (hend.arrived hpending).1 j e
    by_cases hj : j = m ∧ e = d
    · obtain ⟨rfl, rfl⟩ := hj
      rw [hW.count_of_passed hend.below hx' hpassed hopen] at hcount
      have hzero : Z.lost (.client n c, i) j e = 0 := by
        rw [lost, dropped_of_run has hZ]
        exact hlost j e
      rwa [hzero] at hcount
    · rw [if_neg hj] at hcount ⊢
      have hle := hW.copies_le hend.below hx' j e
      rw [hcount] at hle
      exact (Nat.add_eq_zero_iff.mp (Nat.le_zero.mp hle)).1

/-! ## Two nodes -/

theorem paired_duo : Cluster.Paired duoTopology.links := Cluster.initial_duo.mesh.toPaired

/-- Two clients are connected. -/
def meeting : List (Action Bool) :=
  [.connect false firstClient still, .announce (.client false firstClient),
    .accept false firstClient 0 still, .announce (.client false firstClient),
    .connect true secondClient still, .announce (.client true secondClient),
    .accept true secondClient 0 still, .announce (.client true secondClient)]

/-- The client sends a frame to an empty inbox. -/
theorem inbox_of_request {V X : Fleet Bool} {n : Bool} {c : Uuid} {frame : Frame}
    (hV : V.net.inbox (.client n c) = [])
    (hX : V.step duoTopology (.request n c frame) = some X) :
    ∃ f, f.value = frame ∧ X.net.inbox (.client n c) = [f] := by
  simp only [step] at hX
  split at hX
  · obtain ⟨net, hnet, rfl⟩ := Option.map_eq_some_iff.mp hX
    cases hnet
    exact ⟨⟨some ⟨.client n c, V.net.issued (.client n c), 0⟩, frame⟩, rfl, by simp [hV]⟩
  · cases hX

/-- The broadcast of the first client comes to the second one. -/
theorem broadcast_arrives_secondClient : ∃ V X X' i bs Z,
    Run.exec (step duoTopology) duo meeting = some V ∧
    V.step duoTopology (.request false firstClient (.object (Cluster.broadcastRequest []))) =
      some X ∧
    X.step duoTopology (.read (.client false firstClient) still) = some X' ∧
    Run.Along (step duoTopology) Alone X' bs ∧ Run.exec (step duoTopology) X' bs = some Z ∧
    Z.copies (.client false firstClient, i) true secondClient = 1 := by
  have heval : ((Run.exec (step duoTopology) duo meeting).any fun V =>
      (V.step duoTopology (.request false firstClient
        (.object (Cluster.broadcastRequest [])))).any fun X =>
      (X.step duoTopology (.read (.client false firstClient) still)).any fun _ =>
      decide ((V.net.inbox (.client false firstClient)).length = 0 ∧
        X.IsOpen (.client true secondClient))) = true := by
    decide +kernel
  simp only [Option.any_eq_true, decide_eq_true_eq] at heval
  obtain ⟨V, hV, X, hX, X', hX', hempty, hsecond⟩ := heval
  obtain ⟨f, hf, hinbox⟩ := inbox_of_request (List.length_eq_zero_iff.mp hempty) hX
  have hrun : Run.exec (step duoTopology) duo (meeting ++ [.request false firstClient
      (.object (Cluster.broadcastRequest []))]) = some X :=
    Run.exec_append.mpr ⟨V, hV, Run.exec_cons.mpr ⟨X, hX, rfl⟩⟩
  obtain ⟨i, -, harrive⟩ := broadcast_arrives paired_duo initial_duo hrun hinbox hf
    (Cluster.decode_broadcastRequest firstClient []) hX'
  obtain ⟨⟨bs, Z, hbs, hZ, hpassed⟩, -⟩ := harrive [] X' (fun _ h => by cases h) rfl
  obtain ⟨-, -, hcopies⟩ := harrive bs Z (calm_of_alone hbs hZ) hZ
  exact ⟨V, X, X', i, bs, Z, hV, hX, hX', hbs, hZ,
    (hcopies hpassed true secondClient).2 hsecond (by decide)⟩

/-- The second client subscribes, the other node is told, and then the first client connects. -/
def subscribing : List (Action Bool) :=
  [.connect true secondClient still, .announce (.client true secondClient),
    .accept true secondClient 0 still, .announce (.client true secondClient),
    .request true secondClient
      (.object (requestObject Uuid.nil "subscribe" [("channel", .string "x")])),
    .read (.client true secondClient) still, .post (.client true secondClient),
    .onSend (.session true (Cluster.duoSession true)),
    .onSend (.session true (Cluster.duoSession true)),
    .onWrite (.session true (Cluster.duoSession true)),
    .onWrite (.session true (Cluster.duoSession true)),
    .read (.session false (Cluster.duoSession false)) still,
    .post (.session false (Cluster.duoSession false)),
    .read (.session false (Cluster.duoSession false)) still,
    .connect false firstClient still, .announce (.client false firstClient),
    .accept false firstClient 0 still, .announce (.client false firstClient)]

/-- The one session between the nodes has nothing to read about the client. -/
theorem nothing_to_read {X : Fleet Bool} {s s' d : Uuid}
    (hl : duoTopology.links false s = some (true, s'))
    (h : ((X.picture duoTopology).toRead false (Cluster.duoSession false) true
      (Cluster.duoSession true) d).length = 0) :
    (X.picture duoTopology).toRead false s true s' d = [] := by
  obtain rfl : s = Cluster.duoSession false := (Cluster.duoLinks_eq_some.mp hl).1
  obtain rfl : s' = Cluster.duoSession true :=
    (Cluster.duoLinks_eq_some.mp (duoTopology.symm hl)).1
  exact List.length_eq_zero_iff.mp h

/-- What the first client publishes comes to the second one. -/
theorem publish_arrives_secondClient : ∃ V X X' U i bs Z,
    Run.exec (step duoTopology) duo subscribing = some V ∧
    V.step duoTopology (.request false firstClient (.object (Cluster.publishRequest "x" []))) =
      some X ∧
    X.step duoTopology (.read (.client false firstClient) still) = some X' ∧
    X'.step duoTopology (.lookup (.client false firstClient)) = some U ∧
    Run.Along (step duoTopology) Alone U bs ∧ Run.exec (step duoTopology) U bs = some Z ∧
    Z.copies (.client false firstClient, i) true secondClient = 1 := by
  have heval : ((Run.exec (step duoTopology) duo subscribing).any fun V =>
      (V.step duoTopology (.request false firstClient
        (.object (Cluster.publishRequest "x" [])))).any fun X =>
      (X.step duoTopology (.read (.client false firstClient) still)).any fun X' =>
      (X'.step duoTopology (.lookup (.client false firstClient))).any fun _ =>
      decide ((V.net.inbox (.client false firstClient)).length = 0 ∧
        X.IsOpen (.client true secondClient) ∧
        ((X'.node true).id = Cluster.duoId true ∧
          ⟨Cluster.duoId true, secondClient, "x"⟩ ∈ (X'.node true).subscriptions.rows) ∧
        ((X'.picture duoTopology).toRead false (Cluster.duoSession false) true
          (Cluster.duoSession true) secondClient).length = 0)) = true := by
    decide +kernel
  simp only [Option.any_eq_true, decide_eq_true_eq] at heval
  obtain ⟨V, hV, X, hX, X', hX', U, hU, hempty, hsecond, ⟨hid, hrow⟩, htold⟩ := heval
  obtain ⟨f, hf, hinbox⟩ := inbox_of_request (List.length_eq_zero_iff.mp hempty) hX
  have hrun : Run.exec (step duoTopology) duo (subscribing ++ [.request false firstClient
      (.object (Cluster.publishRequest "x" []))]) = some X :=
    Run.exec_append.mpr ⟨V, hV, Run.exec_cons.mpr ⟨X, hX, rfl⟩⟩
  obtain ⟨i, -, harrive⟩ := publish_arrives paired_duo initial_duo hrun hinbox hf
    (Cluster.decode_publishRequest firstClient "x" []) hX'
  obtain ⟨⟨bs, Z, hbs, hZ, hpassed⟩, -⟩ := harrive [.lookup (.client false firstClient)] U
    (fun a ha => by rw [List.mem_singleton.mp ha]; trivial) (Run.exec_cons.mpr ⟨U, hU, rfl⟩)
  have hcalm : ∀ a ∈ Action.lookup (.client false firstClient) :: bs, Calm a := by
    intro a ha
    rcases List.mem_cons.mp ha with rfl | ha
    · trivial
    · exact calm_of_alone hbs hZ a ha
  obtain ⟨-, -, hcopies⟩ := harrive _ Z hcalm (Run.exec_cons.mpr ⟨U, hU, hZ⟩)
  refine ⟨V, X, X', U, i, bs, Z, hV, hX, hX', hU, hbs, hZ, ?_⟩
  refine (hcopies hpassed true secondClient).2 hsecond (by decide)
    (.inr ⟨X', ⟨[], bs, rfl, by simp, rfl⟩, ?_, fun s s' hl text ht => ?_⟩)
  · rw [hid]
    exact hrow
  · rw [nothing_to_read hl htold] at ht
    cases ht

/-- The message of the first client comes to the second one. -/
theorem send_arrives_secondClient : ∃ V X X' i bs Z,
    Run.exec (step duoTopology) duo subscribing = some V ∧
    V.step duoTopology (.request false firstClient
      (.object (Cluster.sendRequest secondClient []))) = some X ∧
    X.step duoTopology (.read (.client false firstClient) still) = some X' ∧
    Run.Along (step duoTopology) Alone X' bs ∧ Run.exec (step duoTopology) X' bs = some Z ∧
    ∀ m d, Z.copies (.client false firstClient, i) m d =
      if m = true ∧ d = secondClient then 1 else 0 := by
  have heval : ((Run.exec (step duoTopology) duo subscribing).any fun V =>
      (V.step duoTopology (.request false firstClient
        (.object (Cluster.sendRequest secondClient [])))).any fun X =>
      (X.step duoTopology (.read (.client false firstClient) still)).any fun _ =>
      decide ((V.net.inbox (.client false firstClient)).length = 0 ∧
        X.IsOpen (.client true secondClient) ∧
        ((X.picture duoTopology).toRead false (Cluster.duoSession false) true
          (Cluster.duoSession true) secondClient).length = 0)) = true := by
    decide +kernel
  simp only [Option.any_eq_true, decide_eq_true_eq] at heval
  obtain ⟨V, hV, X, hX, X', hX', hempty, hsecond, htold⟩ := heval
  obtain ⟨f, hf, hinbox⟩ := inbox_of_request (List.length_eq_zero_iff.mp hempty) hX
  have hrun : Run.exec (step duoTopology) duo (subscribing ++ [.request false firstClient
      (.object (Cluster.sendRequest secondClient []))]) = some X :=
    Run.exec_append.mpr ⟨V, hV, Run.exec_cons.mpr ⟨X, hX, rfl⟩⟩
  have hsecond' := isOpen_step hX' trivial hsecond
  obtain ⟨i, -, harrive⟩ := send_arrives paired_duo initial_duo hrun hinbox hf
    (Cluster.decode_sendRequest firstClient secondClient []) hsecond
    (fun s s' hl text ht => by
      rw [nothing_to_read hl htold] at ht
      cases ht) hX'
  obtain ⟨⟨bs, Z, hbs, hZ, hpassed⟩, -⟩ := harrive [] X' trivial rfl hsecond'
  have hcalm := calm_of_alone hbs hZ
  obtain ⟨-, -, hcopies⟩ := harrive bs Z (along_isOpen hsecond' hcalm) hZ
    (isOpen_of_run hsecond' hcalm hZ)
  exact ⟨V, X, X', i, bs, Z, hV, hX, hX', hbs, hZ, hcopies hpassed⟩

end Fleet

end Aewt
