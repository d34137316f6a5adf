import AewtState.Delivery

/-!
# What is left of a client that disconnected

* `Forgotten` — no node stores a row about the client.
* `Left` — a client left a node: its client row is gone, its subscription rows stay, and on
  every wire nothing about it follows its leave message.

`client::on_accept` and `client::on_read` remove the client row and tell the sessions, which
remove theirs; no path removes a subscription.

Principal results: `Left.of_run` — this holds from the disconnect on; `forgotten_iff` — so a
client is forgotten exactly when it disconnects without a subscription.
-/

set_option autoImplicit false

namespace Aewt

namespace Cluster

variable {N : Type} {X Y Z : Cluster N} {c : Uuid}

/-- No node stores anything about the client. -/
structure Forgotten (X : Cluster N) (c : Uuid) : Prop where
  clients : ∀ m, ∀ row ∈ (X.node m).clients, row.id ≠ c
  subscriptions : ∀ m, ∀ row ∈ (X.node m).subscriptions, row.clientId ≠ c
  unsubscribed : ∀ m ch, (X.node m).isSubscribed c ch = false
  forwards : ∀ m ch s, s ∈ receivers (X.node m) ch →
    ∃ row ∈ (X.node m).subscriptions, row.channel = ch ∧ row.sessionId = s ∧ row.clientId ≠ c

theorem forgotten_iff_holds :
    X.Forgotten c ↔ ∀ m s k, k.about = c → ¬ (X.node m).Holds s k := by
  constructor
  · intro h m s k hk hh
    cases k with
    | client d => exact h.clients m _ hh hk
    | subscription d ch => exact h.subscriptions m _ hh hk
  · intro h
    have hsubs : ∀ m, ∀ row ∈ (X.node m).subscriptions, row.clientId ≠ c :=
      fun m row hrow hid => h m row.sessionId (.subscription row.clientId row.channel) hid hrow
    refine ⟨fun m row hrow hid => h m row.sessionId (.client row.id) hid hrow, hsubs,
      fun m ch => ?_, fun m ch s hs => ?_⟩
    · rw [State.isSubscribed, List.any_eq_false]
      intro row hrow
      simp [hsubs m row hrow]
    · obtain ⟨row, hrow, hch, hid⟩ := mem_receivers.mp hs
      exact ⟨row, hrow, hch, hid, hsubs m row hrow⟩

/-- No text is about the client. -/
def Silent (s c : Uuid) (ps : List Packet) : Prop :=
  ∀ p ∈ ps, ∀ k b, updateOf s p.text = some (k, b) → k.about ≠ c

/-- Client `c` left node `n` by the request `tag`, with subscriptions to the channels `P`. -/
structure Left (X : Cluster N) (n : N) (c : Uuid) (tag : Nat) (P : String → Prop) : Prop where
  home : X.home c = some n
  away : ¬ X.Local n c
  rows : ∀ ch, (X.node n).Holds (X.node n).id (.subscription c ch) ↔ P ch
  order : (∀ ch, ¬ P ch) → ∀ {m s s'}, X.links m s = some (n, s') →
    ∃ before after, X.wire m s = before ++ after ∧ Silent s c after ∧
      ∀ p, before.getLast? = some p → isPending tag p = true

variable {n : N} {k : Nat} {P : String → Prop}

/-- The node stores nothing of its own about a client that left without subscriptions. -/
theorem Left.gone (h : X.Left n c k P) (hP : ∀ ch, ¬ P ch) {key : Key} (hk : key.about = c) :
    ¬ (X.node n).Holds (X.node n).id key := by
  subst hk
  cases key with
  | client d => exact h.away
  | subscription d ch => exact fun hh => hP ch ((h.rows ch).mp hh)

theorem Silent.append {s : Uuid} {ps qs : List Packet} (hp : Silent s c ps)
    (hq : Silent s c qs) : Silent s c (ps ++ qs) := by
  intro p hmem
  rcases List.mem_append.mp hmem with hmem | hmem
  · exact hp p hmem
  · exact hq p hmem

/-- When the leave message has been handled, a client without subscriptions is forgotten. -/
theorem Left.forgotten (h : X.Left n c k P) (hI : X.Inv)
    (hq : ∀ m s, X.pending k m s = 0) : X.Forgotten c ↔ ∀ ch, ¬ P ch := by
  rw [forgotten_iff_holds]
  constructor
  · intro hf ch hP
    exact hf n _ (.subscription c ch) rfl ((h.rows ch).mpr hP)
  · intro hP m s key hkey hh
    rcases hI.rows hh with ⟨rfl, hm⟩ | ⟨j, s', hl, hj⟩
    · rw [hkey, h.home] at hm
      cases hm
      exact h.gone hP hkey hh
    · rw [hkey, h.home] at hj
      cases hj
      obtain ⟨before, rest, hw, hs, hb⟩ := h.order hP hl
      have hnil : before = [] := by
        rw [← List.getLast?_eq_none_iff, Option.eq_none_iff_forall_ne_some]
        intro p hp
        refine List.countP_eq_zero.mp (hq m s) p ?_ (hb p hp)
        rw [hw]
        exact List.mem_append_left _ (List.mem_of_getLast? hp)
      refine h.gone hP hkey ((hI.mirror hl fun p hp b hu => hs p ?_ key b hu hkey).mp hh)
      rwa [hw, hnil, List.nil_append] at hp

variable [DecidableEq N]

/-- The handlers of a client, other than this one at its home, keep it. -/
theorem Left.of_clientEvent (h : X.Left n c k P) {j : N} {d : Uuid} {w : World}
    {u : Option (Key × Bool)} (he : ClientEvent (X.node j) w d u) (hd : j = n → d ≠ c)
    {home : Uuid → Option N} (hhome : home c = some n) (tag tags : Nat) :
    Left { X.perform j tag w with home := home, tags := tags } n c k P := by
  have hkeep : ∀ key, key.about = c → (((X.perform j tag w).node n).Holds
      ((X.perform j tag w).node n).id key ↔ (X.node n).Holds (X.node n).id key) := by
    intro key hkey
    rw [perform_node]
    split
    · rename_i hj
      subst hj
      rw [he.id, he.holds, if_pos rfl]
      cases u with
      | none => rfl
      | some v =>
        rw [Replica.update_ne]
        rintro hv
        exact hd rfl ((he.about v.1 v.2 rfl).symm.trans (hv ▸ hkey))
    · rfl
  refine ⟨hhome, fun hl => h.away ((hkeep (.client c) rfl).mp hl),
    fun ch => (hkeep (.subscription c ch) rfl).trans (h.rows ch), fun hP {m s s'} hl => ?_⟩
  obtain ⟨before, rest, hw, hs, hb⟩ := h.order hP hl
  refine ⟨before, rest ++ posted X.links j tag w.effects m s, ?_, hs.append ?_, hb⟩
  · change X.wire m s ++ _ = _
    rw [hw, List.append_assoc]
  · intro p hp key b hu
    obtain ⟨-, x, hx, ht⟩ := mem_posted hp
    cases hx.symm.trans hl
    rw [he.texts _ s _ ht] at hu
    rw [he.about key b hu]
    exact hd rfl

/-- The handlers of a session keep it when they read the first text. -/
theorem Left.of_sessionEvent (h : X.Left n c k P) (hm : X.Mesh) {j : N} {x y : Uuid} {i : N}
    {p : Packet} {w : World} (hp : (X.wire j x)[0]? = some p) (hx : X.links j x = some (i, y))
    (he : SessionEvent (X.node j) w x p.text) (tag : Nat) :
    Left ((X.take j x 0).perform j tag w) n c k P := by
  have hkeep : ∀ key, ((((X.take j x 0).perform j tag w).node n).Holds
      (((X.take j x 0).perform j tag w).node n).id key ↔
        (X.node n).Holds (X.node n).id key) := by
    intro key
    rw [perform_node]
    split
    · rename_i hj
      subst hj
      rw [he.id]
      exact he.others _ (hm.fresh hx).symm key
    · rfl
  refine ⟨h.home, fun hl => h.away ((hkeep _).mp hl), fun ch => (hkeep _).trans (h.rows ch),
    fun hP {m s s'} hl => ?_⟩
  have hl : X.links m s = some (n, s') := hl
  obtain ⟨before, rest, hw, hs, hb⟩ := h.order hP hl
  have hposted : Silent s c (posted X.links j tag w.effects m s) := by
    intro q hq key b hu hkey
    obtain ⟨-, z, hz, ht⟩ := mem_posted hq
    cases hz.symm.trans hl
    exact h.gone hP hkey (he.texts _ s _ ht key b hu).2
  change ∃ before after, (X.take j x 0).wire m s ++ posted X.links j tag w.effects m s = _ ∧ _
  by_cases hmj : m = j ∧ s = x
  · obtain ⟨rfl, rfl⟩ := hmj
    have htail : (X.take m s 0).wire m s = (before ++ rest).tail := by
      simp [take, hw]
    rw [htail]
    cases before with
    | nil =>
      refine ⟨[], _, (List.nil_append _).symm, Silent.append (fun q hq => hs q ?_) hposted, ?_⟩
      · exact List.mem_of_mem_tail hq
      · simp
    | cons q before =>
      refine ⟨before, _, List.append_assoc _ _ _, hs.append hposted, fun q' hq' => hb q' ?_⟩
      cases before with
      | nil => cases hq'
      | cons r before => exact hq'
  · rw [take_wire_ne hmj, hw]
    exact ⟨before, _, List.append_assoc _ _ _, hs.append hposted, hb⟩

theorem Left.of_step (h : X.Left n c k P) (hI : X.Inv) {a : Action N} (ho : InOrder a)
    (hs : X.step a = some Y) : Y.Left n c k P := by
  cases a with
  | connect j d env =>
    obtain ⟨hnew, w, hw, rfl⟩ := step_connect.mp hs
    have hdc : c ≠ d := by
      rintro rfl
      rw [h.home] at hnew
      cases hnew
    refine h.of_clientEvent (clientEvent_connect (hI.rows_of_new hnew j) hw) (fun _ => hdc.symm)
      ?_ _ _
    rw [Function.update_of_ne hdc]
    exact h.home
  | request j d frame env =>
    obtain ⟨hlocal, w, hw, rfl⟩ := step_request.mp hs
    obtain ⟨u, he⟩ := clientEvent_request hw
    refine h.of_clientEvent he ?_ h.home _ _
    rintro rfl rfl
    exact h.away hlocal
  | disconnect j d env =>
    obtain ⟨hlocal, w, hw, rfl⟩ := step_disconnect.mp hs
    refine h.of_clientEvent (clientEvent_disconnect (hI.rows_of_local hlocal) hw) ?_ h.home _ _
    rintro rfl rfl
    exact h.away hlocal
  | deliver j x i env =>
    obtain ⟨p, hp, w, hw, rfl⟩ := step_deliver.mp hs
    cases ho
    have hmem : p ∈ X.wire j x := List.mem_of_getElem? hp
    obtain ⟨i, y, hx, -⟩ := hI.wires hmem
    exact h.of_sessionEvent hI.mesh hp hx (sessionEvent (hI.text_owner hmem) hw) p.tag

/-- **From the disconnect on, nothing about the client follows its leave message.** -/
theorem Left.of_run (h : X.Left n c k P) (hI : X.Inv) {as : List (Action N)}
    (ho : ∀ a ∈ as, InOrder a) (hr : Run.exec step X as = some Y) : Y.Left n c k P ∧ Y.Inv :=
  Run.exec_invariant_along (I := fun Z => Z.Left n c k P ∧ Z.Inv)
    (fun hI hC hs => ⟨hI.1.of_step hI.2 hC hs, hI.2.of_step hC hs⟩) ⟨h, hI⟩
    (Run.along_of_forall X ho) hr

/-- The disconnect itself. -/
theorem Left.start (hI : X.Inv) {env : Env} (hs : X.step (.disconnect n c env) = some Y) :
    Y.Left n c X.tags fun ch => (X.node n).Holds (X.node n).id (.subscription c ch) := by
  obtain ⟨hlocal, w, hw, rfl⟩ := step_disconnect.mp hs
  have he := clientEvent_disconnect (hI.rows_of_local hlocal) hw
  have hnode : (X.perform n X.tags w).node n = w.state := by
    rw [perform_node, if_pos rfl]
  have hholds : ∀ key, ((X.perform n X.tags w).node n).Holds ((X.perform n X.tags w).node n).id
      key = Replica.update (some (.client c, false)) key ((X.node n).Holds (X.node n).id key) := by
    intro key
    rw [hnode, he.id, propext (he.holds _ key), if_pos rfl]
  refine ⟨hI.home_of_local hlocal, fun hl => ?_, fun ch => ?_, fun _ {m s s'} hl => ?_⟩
  · have hl : ((X.perform n X.tags w).node n).Holds ((X.perform n X.tags w).node n).id
      (.client c) := hl
    rw [hholds, Replica.update_self] at hl
    cases hl
  · change ((X.perform n X.tags w).node n).Holds ((X.perform n X.tags w).node n).id _ ↔ _
    rw [hholds, Replica.update_ne _ (by simp)]
  · have hl : X.links m s = some (n, s') := hl
    obtain ⟨text, ht⟩ := he.posted (by simp) s' (hI.mesh.known (hI.mesh.symm hl))
    refine ⟨_, [], (List.append_nil _).symm, fun p hp => absurd hp List.not_mem_nil,
      fun p hp => ?_⟩
    change (X.wire m s ++ posted X.links n X.tags w.effects m s).getLast? = some p at hp
    rw [posted_eq hl, ht, List.map_singleton, List.getLast?_concat] at hp
    cases hp
    have hu := he.texts s' s text (by simp [ht])
    simp [isPending, acknowledges_of_update hu]

/-- **A client is forgotten, once its leave message has been handled, exactly when it left
without a subscription.** -/
theorem forgotten_iff {X₀ : Cluster N} {history rest : List (Action N)} {env : Env}
    (h₀ : X₀.Initial) (ho : ∀ a ∈ history, InOrder a) (hX : Run.exec step X₀ history = some X)
    (hY : X.step (.disconnect n c env) = some Y) (ho' : ∀ a ∈ rest, InOrder a)
    (hZ : Run.exec step Y rest = some Z) (hq : ∀ m s, Z.pending X.tags m s = 0) :
    Z.Forgotten c ↔ ∀ ch, ¬ (X.node n).Holds (X.node n).id (.subscription c ch) := by
  have hI : X.Inv := h₀.inv.of_run ho hX
  obtain ⟨hleft, hI'⟩ := (Left.start hI hY).of_run
    (hI.of_step (a := .disconnect n c env) trivial hY) ho' hZ
  exact hleft.forgotten hI' hq

/-! ## A client with and one without a subscription -/

/-- A client that connects and leaves is forgotten. -/
theorem forgotten_connect_leave : ∃ Z, Run.exec step duo
      [.connect false firstClient still, .disconnect false firstClient still,
        .deliver true (duoSession true) 0 still, .deliver true (duoSession true) 0 still] =
      some Z ∧ Z.Forgotten firstClient := by
  have heval : ((Run.exec step duo [.connect false firstClient still]).any fun X =>
      (X.step (.disconnect false firstClient still)).any fun Y =>
      (Run.exec step Y [.deliver true (duoSession true) 0 still,
        .deliver true (duoSession true) 0 still]).any fun Z =>
      decide ((∀ m, Z.pending X.tags m (duoSession m) = 0) ∧
        (X.node false).subscriptions.rows = [])) = true := by
    decide +kernel
  simp only [Option.any_eq_true, decide_eq_true_eq] at heval
  obtain ⟨X, hX, Y, hY, Z, hZ, hq, hrows⟩ := heval
  have hrun := Run.exec_append.mpr ⟨X, hX, Run.exec_cons.mpr ⟨Y, hY, hZ⟩⟩
  refine ⟨Z, hrun, (forgotten_iff initial_duo (by simp [InOrder]) hX hY (by simp [InOrder]) hZ
    (duo_pending (by simp [InOrder]) hrun hq)).mpr fun ch hh => ?_⟩
  have hmem : _ ∈ (X.node false).subscriptions.rows := hh
  rw [hrows] at hmem
  cases hmem

/-- The subscription of a client outlives it. -/
theorem subscription_outlives_client : ∃ X Y Z,
    Run.exec step duo [.connect false firstClient still, .request false firstClient
      (.object (requestObject Uuid.nil "subscribe" [("channel", .string "x")])) still] =
      some X ∧
    X.step (.disconnect false firstClient still) = some Y ∧
    Run.exec step Y [.deliver true (duoSession true) 0 still,
      .deliver true (duoSession true) 0 still, .deliver true (duoSession true) 0 still] =
      some Z ∧
    (∀ m s, Z.pending X.tags m s = 0) ∧ ¬ Z.Forgotten firstClient := by
  have heval : ((Run.exec step duo [.connect false firstClient still, .request false firstClient
        (.object (requestObject Uuid.nil "subscribe" [("channel", .string "x")])) still]).any
      fun X => (X.step (.disconnect false firstClient still)).any fun Y =>
      (Run.exec step Y [.deliver true (duoSession true) 0 still,
        .deliver true (duoSession true) 0 still, .deliver true (duoSession true) 0 still]).any
      fun Z => decide ((∀ m, Z.pending X.tags m (duoSession m) = 0) ∧
        ⟨duoId false, firstClient, "x"⟩ ∈ (Z.node false).subscriptions.rows)) = true := by
    decide +kernel
  simp only [Option.any_eq_true, decide_eq_true_eq] at heval
  obtain ⟨X, hX, Y, hY, Z, hZ, hq, hrow⟩ := heval
  have hrun := Run.exec_append.mpr ⟨X, hX, Run.exec_cons.mpr ⟨Y, hY, hZ⟩⟩
  exact ⟨X, Y, Z, hX, hY, hZ, duo_pending (by simp [InOrder]) hrun hq,
    fun hf => hf.subscriptions false _ hrow rfl⟩

end Cluster

end Aewt
