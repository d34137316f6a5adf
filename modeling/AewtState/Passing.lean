import AewtState.Atomic

/-!
# What becomes of a request on the strands

* `Calm` — the steps in which no client comes or goes.
* `Passed` — nothing is to be looked up for the request, and no queue holds a text it caused, but
  that of a connection that is not open.
* `copies`, `lost` — how often a client was written what the request fanned out, and how often it
  would have been if its connection had been open.

Principal results: `Simulates.count_of_passed` — when a request has passed, a client was written
what the cluster sent it, or lost it; `Simulates.copies_of_passed` — so a fan-out that has passed
came to each client at most once; `Simulates.passes` — the nodes alone can make every request pass.
-/

set_option autoImplicit false

namespace Aewt

namespace Fleet

variable {N : Type}

/-- No client comes or goes. -/
def Calm : Action N → Prop
  | .connect .. | .fail .. => False
  | .accept .. | .request .. | .read .. | .lookup .. | .announce .. | .post .. | .onSend ..
  | .onWrite .. => True

theorem Internal.calm {a : Action N} (h : Internal a) : Calm a := by
  cases a with
  | connect | fail => cases h
  | accept | request | read | lookup | announce | post | onSend | onWrite => trivial

/-- No client comes or goes as long as the nodes are left alone. -/
theorem calm_of_alone [DecidableEq N] {G : Topology N} {X Z : Fleet N} {as : List (Action N)}
    (h : Run.Along (step G) Alone X as) (hZ : Run.exec (step G) X as = some Z) :
    ∀ a ∈ as, Calm a :=
  Run.forall_of_along (C := Alone) (fun ha => ha.1.calm) h hZ

/-- A local client of the node. -/
def Local (X : Fleet N) (n : N) (c : Uuid) : Prop :=
  (X.node n).Holds (X.node n).id (.client c)

instance (X : Fleet N) (n : N) (c : Uuid) : Decidable (X.Local n c) :=
  inferInstanceAs (Decidable (_ ∈ (X.node n).clients.rows))

/-- The text was caused by the request `x`, and it is no acknowledgement. -/
def IsCopy (x : Strand N × Nat) (p : Parcel N) : Prop :=
  p.1 = some x ∧ acknowledges p.2 = false

instance [DecidableEq N] (x : Strand N × Nat) : DecidablePred (IsCopy x) := fun _ =>
  inferInstanceAs (Decidable (_ ∧ _))

/-- How often client `c` of node `n` was written what the request `x` fanned out. -/
def copies [DecidableEq N] (X : Fleet N) (x : Strand N × Nat) (n : N) (c : Uuid) : Nat :=
  ((X.net.written (.client n c)).map parcel).countP (IsCopy x ·)

/-- How often the connection of client `c` of node `n` was not open for what `x` fanned out. -/
def lost [DecidableEq N] (X : Fleet N) (x : Strand N × Nat) (n : N) (c : Uuid) : Nat :=
  ((X.dropped (.client n c)).map parcel).countP (IsCopy x ·)

/-- Nothing is due for the request `x`, and no queue holds a text that it caused and that can still
be written. -/
structure Passed [DecidableEq N] (X : Fleet N) (x : Strand N × Nat) : Prop where
  due : ∀ t, ∀ p, X.due t = some p → p.origin.map Origin.request ≠ some x
  pending : ∀ t, ∀ e ∈ X.net.pending t, e.origin.map Origin.request ≠ some x
  posts : ∀ t, ∀ y ∈ X.net.posts t, y.origin.map Origin.request ≠ some x
  queue : ∀ t, X.IsOpen t → ∀ y ∈ X.net.queue t, y.origin.map Origin.request ≠ some x
  inbox : ∀ n s, ∀ f ∈ X.net.inbox (.session n s), f.origin.map Origin.request ≠ some x

theorem AtRest.passed [DecidableEq N] {X : Fleet N} (h : X.AtRest) (x : Strand N × Nat) :
    X.Passed x where
  due t p hp := by
    rw [h.due] at hp
    cases hp
  pending t e he := by
    rw [h.pending] at he
    cases he
  posts t y hy := by
    rw [h.posts] at hy
    cases hy
  queue t ho y hy := by
    rw [h.queue t ho] at hy
    cases hy
  inbox n s f hf := by
    rw [h.inbox] at hf
    cases hf

variable [DecidableEq N] {G : Topology N} {X X' Z : Fleet N} {Y : Parted N}
  {key : Nat → Option (Strand N × Nat)} {x : Strand N × Nat} {k : Nat}

/-! ## A request that has passed -/

/-- What is to be sent was caused by what waiting handlers were caused by. -/
theorem not_mem_coming {S : Scene N} (h : ∀ t, ∀ e ∈ S.waiting t,
    e.origin.map Origin.request ≠ some x) (u : Strand N) :
    ∀ p ∈ S.coming u, ¬ IsCopy x p := by
  have htoward : ∀ t, ∀ p ∈ (toward t u (S.waiting t) : Multiset (Parcel N)), ¬ IsCopy x p := by
    intro t p hp hx
    obtain ⟨e, he, hsome⟩ := List.mem_filterMap.mp (Multiset.mem_coe.mp hp)
    obtain ⟨d, -, hd⟩ := Option.bind_eq_some_iff.mp hsome
    split at hd
    · cases hd
      exact h t e he hx.1
    · cases hd
  refine finsum_induction (fun m : Multiset (Parcel N) => ∀ p ∈ m, ¬ IsCopy x p) ?_ ?_ htoward
  · exact fun p hp => absurd hp (Multiset.notMem_zero p)
  · intro m m' hm hm' p hp
    exact (Multiset.mem_add.mp hp).elim (hm p) (hm' p)

theorem Passed.waiting (h : X.Passed x) (t : Strand N) : ∀ e ∈ (X.scene G).waiting t,
    e.origin.map Origin.request ≠ some x := by
  intro e he
  rcases List.mem_append.mp he with he | he
  · obtain ⟨e', -, rfl⟩ := List.mem_map.mp he
    simp
  · exact h.pending t e he

theorem Passed.outgoing (h : X.Passed x) {t : Strand N} (ho : X.IsOpen t) :
    ∀ y ∈ X.net.outgoing t, y.origin.map Origin.request ≠ some x := by
  intro y hy
  rcases List.mem_append.mp hy with hy | hy
  · exact h.queue t ho y hy
  · exact h.posts t y hy

theorem Passed.mail (h : X.Passed x) (n : N) (s : Uuid) :
    ∀ f ∈ (X.scene G).mail (.session n s), f.origin.map Origin.request ≠ some x := by
  intro f hf
  rcases List.mem_append.mp hf with hf | hf
  · exact h.inbox n s f hf
  · obtain ⟨y, hy, rfl⟩ := List.mem_map.mp hf
    obtain ⟨t, ht, hy⟩ := List.mem_flatMap.mp hy
    have hsession := G.context_of_peer (G.peer_symm (Option.mem_toList.mp ht))
    refine h.outgoing (fun hclient => ?_) y hy
    cases hsession.symm.trans hclient

/-- The tag that stands for the request is the only one. -/
theorem Simulates.key_iff (h : Simulates G key X Y) (hk : k < Y.cluster.tags) (hx : key k = some x)
    {j : Nat} (hj : j < Y.cluster.tags) : key j = some x ↔ j = k := by
  refine ⟨fun hjx => h.keyed.once j hj k hk x hjx hx, ?_⟩
  rintro rfl
  exact hx

/-- **What the request put on the wires of the cluster has been delivered.** -/
theorem Simulates.pending_eq_zero (h : Simulates G key X Y) (hk : k < Y.cluster.tags)
    (hx : key k = some x) (hpassed : X.Passed x) {n m : N} {s s' : Uuid}
    (hl : G.links n s = some (m, s')) : Y.cluster.pending k n s = 0 := by
  have hcount : ((Y.cluster.wire n s).map fun p => (key p.tag, p.text)).countP (IsCopy x ·) =
      Y.cluster.pending k n s := by
    rw [Cluster.pending, List.countP_map]
    refine List.countP_congr fun p hp => ?_
    simp [IsCopy, Cluster.isPending, h.key_iff hk hx (h.fresh.cluster.wire n s p hp)]
  have hwire := h.refines.wire hl
  rw [← hcount, ← Multiset.coe_countP, hwire, Multiset.countP_eq_zero]
  intro p hp
  rcases Multiset.mem_add.mp hp with hp | hp
  · rintro ⟨hpx, -⟩
    obtain ⟨f, hf, hfp⟩ := List.mem_filterMap.mp (Multiset.mem_coe.mp hp)
    obtain ⟨text, -, rfl⟩ := Option.map_eq_some_iff.mp hfp
    exact hpassed.mail n s f hf hpx
  · exact not_mem_coming hpassed.waiting _ p hp

/-- What the cluster sent a client for the request was written to it or dropped, or is in its queues
or still to be sent. -/
theorem Simulates.count_eq (h : Simulates G key X Y) (hk : k < Y.cluster.tags)
    (hx : key k = some x) (n : N) (c : Uuid) :
    Y.cluster.count k n c = X.copies x n c + X.lost x n c +
      (((X.net.outgoing (.client n c)).map parcel).countP (IsCopy x ·) +
        ((X.scene G).coming (.client n c)).countP (IsCopy x ·)) := by
  have htold : (told key Y.cluster n c).countP (IsCopy x ·) = Y.cluster.count k n c := by
    rw [told, List.countP_filterMap, Cluster.count]
    refine List.countP_congr fun e he => ?_
    by_cases hc : e.node = n ∧ e.client = c
    · simp [hc, IsCopy, Cluster.isCount, h.key_iff hk hx (h.fresh.cluster.log e he)]
    · have hcount : Cluster.isCount k n c e = false :=
        decide_eq_false fun h => hc ⟨h.1, h.2.1⟩
      simp [hc, hcount]
  have hsent : (((X.scene G).sent (.client n c)).map parcel).countP (IsCopy x ·) =
      X.copies x n c + ((X.net.outgoing (.client n c)).map parcel).countP (IsCopy x ·) := by
    have hview : (X.scene G).sent (.client n c) =
        X.net.written (.client n c) ++ X.net.outgoing (.client n c) := rfl
    rw [hview, List.map_append, List.countP_append]
    rfl
  obtain ⟨W, hW, hlog⟩ := h.refines.log n c
  have hnone : W.countP (IsCopy x ·) = 0 := by
    rw [Multiset.countP_eq_zero]
    intro p hp hcopy
    have hfirst := (hW p hp).1
    rw [hcopy.1] at hfirst
    cases hfirst
  have hlost : (((X.scene G).dropped (.client n c)).map parcel).countP (IsCopy x ·) =
      X.lost x n c := rfl
  have heq := congrArg (Multiset.countP (IsCopy x ·)) hlog
  rw [Multiset.countP_add, Multiset.countP_add, Multiset.countP_add, hnone,
    Multiset.coe_countP, Multiset.coe_countP, Multiset.coe_countP, htold, hsent, hlost,
    Nat.add_zero] at heq
  omega

theorem Simulates.copies_le (h : Simulates G key X Y) (hk : k < Y.cluster.tags)
    (hx : key k = some x) (n : N) (c : Uuid) :
    X.copies x n c + X.lost x n c ≤ Y.cluster.count k n c := by
  rw [h.count_eq hk hx n c]
  exact Nat.le_add_right _ _

/-- **When the request has passed, what was sent to an open connection was written or dropped.** -/
theorem Simulates.count_of_passed (h : Simulates G key X Y) (hk : k < Y.cluster.tags)
    (hx : key k = some x) (hpassed : X.Passed x) {n : N} {c : Uuid}
    (ho : X.IsOpen (.client n c)) :
    Y.cluster.count k n c = X.copies x n c + X.lost x n c := by
  have hout : ((X.net.outgoing (.client n c)).map parcel).countP (IsCopy x ·) = 0 := by
    rw [List.countP_eq_zero]
    intro p hp
    obtain ⟨y, hy, rfl⟩ := List.mem_map.mp hp
    exact fun hcopy => hpassed.outgoing ho y hy (of_decide_eq_true hcopy).1
  have hcoming : ((X.scene G).coming (.client n c)).countP (IsCopy x ·) = 0 :=
    Multiset.countP_eq_zero.mpr (not_mem_coming hpassed.waiting _)
  rw [h.count_eq hk hx n c, hout, hcoming]
  rfl

/-- What was sent or dropped, the cluster sent. -/
theorem Simulates.exists_told (h : Simulates G key X Y) {n : N} {c : Uuid} {p : Parcel N}
    (hp : p ∈ ((X.scene G).sent (.client n c)).map parcel ++ (X.dropped (.client n c)).map parcel)
    (hcopy : IsCopy x p) : ∃ e ∈ Y.cluster.log, key e.tag = some x ∧ e.text = p.2 := by
  obtain ⟨W, hW, hlog⟩ := h.refines.log n c
  have hmem : p ∈ (told key Y.cluster n c : Multiset (Parcel N)) + W := by
    rw [hlog]
    exact Multiset.mem_add.mpr (.inl hp)
  rcases Multiset.mem_add.mp hmem with hmem | hmem
  · obtain ⟨e, he, hsome⟩ := List.mem_filterMap.mp (Multiset.mem_coe.mp hmem)
    split at hsome
    · cases hsome
      exact ⟨e, he, hcopy.1, rfl⟩
    · cases hsome
  · have hfirst := (hW _ hmem).1
    rw [hcopy.1] at hfirst
    cases hfirst

/-- **What a client was written for the request the cluster sent it.** -/
theorem Simulates.exists_logged (h : Simulates G key X Y) (hk : k < Y.cluster.tags)
    (hx : key k = some x) {n : N} {c : Uuid} {y : Traced N Text}
    (hy : y ∈ X.net.written (.client n c)) (hcopy : IsCopy x (parcel y)) :
    ∃ e ∈ Y.cluster.log, e.tag = k ∧ e.text = y.value := by
  obtain ⟨e, he, hkey, htext⟩ := h.exists_told (List.mem_append_left _
    (List.mem_map_of_mem (List.mem_append_left _ hy))) hcopy
  exact ⟨e, he, (h.key_iff hk hx (h.fresh.cluster.log e he)).mp hkey, htext⟩

/-- Nothing was dropped for a request that is not read yet. -/
theorem Simulates.lost_of_unread (h : Simulates G key X Y) {n m : N} {c d : Uuid} {i : Nat}
    {f : Traced N Frame} {fs : List (Traced N Frame)} (hf : X.net.inbox (.client n c) = f :: fs)
    (ho : f.origin = some ⟨.client n c, i, 0⟩) : X.lost (.client n c, i) m d = 0 := by
  rw [lost, List.countP_eq_zero]
  intro p hp hcopy
  obtain ⟨e, he, hkey, -⟩ := h.exists_told (List.mem_append_right _ hp)
    (of_decide_eq_true hcopy)
  have hmail : f ∈ (X.scene G).mail (.client n c) :=
    List.mem_append_left _ (by rw [hf]; exact List.mem_cons_self)
  have hlt := (h.keyed.read e.tag (h.fresh.cluster.log e he) _ _ hkey).2.2 f hmail _ ho
  exact Nat.lt_irrefl _ hlt

/-! ## Open connections -/

/-- `send` drops nothing on an open connection. -/
theorem dropped_step {t : Strand N} {a : Action N} (hs : X.step G a = some X') (ho : X.IsOpen t) :
    X'.dropped t = X.dropped t := by
  have hdeliver : ∀ (S : Scene N) (y : Option (Strand N × Text)) (o : Option (Origin N)),
      S.IsOpen t → (S.deliver G y o).dropped t = S.dropped t := by
    intro S y o hS
    unfold Scene.deliver
    split
    · split
      · rfl
      · rename_i u text _ hu
        refine push_of_ne _ _ _ ?_
        rintro rfl
        exact hu hS
    · rfl
  have hscene := scene_step hs
  have hX : (X.scene G).dropped t = X.dropped t := rfl
  have hX' : (X'.scene G).dropped t = X'.dropped t := rfl
  have hopen : (X.scene G).IsOpen t := ho
  rw [← hX, ← hX']
  generalize X'.scene G = T at hscene
  cases hscene with
  | announce | post => exact hdeliver _ _ _ hopen
  | connect | accept | fail | request | read | lookup | onSend | onWrite => rfl

/-- An open connection stays open as long as no client comes or goes. -/
theorem isOpen_step {t : Strand N} {a : Action N} (hs : X.step G a = some X') (ha : Calm a)
    (ho : X.IsOpen t) : X'.IsOpen t := by
  have hscene := scene_step hs
  have hopen : (X.scene G).IsOpen t := ho
  have hgoal : (X'.scene G).IsOpen t → X'.IsOpen t := id
  refine hgoal ?_
  generalize X'.scene G = T at hscene
  cases hscene with
  | connect | fail => cases ha
  | request | read | lookup | onSend | onWrite => exact hopen
  | announce | post =>
    intro hc
    rw [Scene.sends_home, Scene.sends_op]
    exact hopen hc
  | accept home op idle eq =>
    rename_i n c runAt env w
    intro hc
    refine ⟨(hopen hc).1, ?_⟩
    by_cases hd : t.id = c
    · rw [hd]
      exact Function.update_self ..
    · exact (Function.update_of_ne hd _ _).trans (hopen hc).2

/-- What is dropped for a connection that is open all the time. -/
theorem dropped_of_run {t : Strand N} {as : List (Action N)}
    (has : Run.Along (step G) (fun V _ => V.IsOpen t) X as) (hZ : Run.exec (step G) X as = some Z) :
    Z.dropped t = X.dropped t :=
  Run.exec_invariant_along (I := fun Z => Z.dropped t = X.dropped t)
    (fun hI ho hs => (dropped_step hs ho).trans hI) rfl has hZ

theorem along_isOpen {t : Strand N} : ∀ {as : List (Action N)} {X : Fleet N}, X.IsOpen t →
    (∀ a ∈ as, Calm a) → Run.Along (step G) (fun V _ => V.IsOpen t) X as
  | [], _, _, _ => trivial
  | a :: _, _, ho, has => ⟨ho, fun _ hs => along_isOpen
      (isOpen_step hs (has a List.mem_cons_self) ho) fun b hb => has b (List.mem_cons_of_mem _ hb)⟩

theorem isOpen_of_run {t : Strand N} {as : List (Action N)} (ho : X.IsOpen t)
    (has : ∀ a ∈ as, Calm a) (hZ : Run.exec (step G) X as = some Z) : Z.IsOpen t :=
  Run.exec_invariant_along (C := fun _ a => Calm a) (I := fun Z => Z.IsOpen t)
    (fun hI ha hs => isOpen_step hs ha hI) ho (Run.along_of_forall X has) hZ

/-! ## What a handler fans out -/

/-- The clients of a node stay in every step in which none comes or goes. -/
theorem own_clients_step {P Q : Picture N} (h : P.Inv G) (hG : G.Single) {a : Action N}
    (hs : P.Step G a Q) (ha : Calm a) (m : N) (d : Uuid) :
    (Q.node m).Holds (G.id m) (.client d) ↔ (P.node m).Holds (G.id m) (.client d) := by
  have hstate : ∀ {n : N} {st : State}, st.clients = (P.node n).clients →
      ((Function.update P.node n st m).Holds (G.id m) (.client d) ↔
        (P.node m).Holds (G.id m) (.client d)) := by
    intro n st hst
    by_cases hm : m = n
    · subst hm
      rw [Function.update_self]
      exact iff_of_eq (congrArg (fun cs : Table Client.id => (⟨d, G.id m⟩ : Client) ∈ cs) hst)
    · rw [Function.update_of_ne hm]
  cases hs with
  | connect | fail => cases ha
  | request => exact Iff.rfl
  | announce | post => rw [Picture.sends_node]
  | lookup | onSend | onWrite => exact Iff.rfl
  | accept home op idle eq =>
    refine hstate ?_
    cases eq
    rfl
  | read opened idle mail eq =>
    rename_i t env f fs w
    obtain ⟨n, context, s⟩ := t
    cases context with
    | onClient =>
      refine hstate ?_
      rw [(cut_alone eq).1]
      exact keeps_clients eq
    | onSession => exact own_rows_step h hG (.read opened idle mail eq) rfl m (.client d)

theorem local_of_calm (h : (X.picture G).Inv G) (hG : G.Single) {a : Action N}
    (hs : X.step G a = some X') (ha : Calm a) (m : N) (d : Uuid) :
    X'.Local m d ↔ X.Local m d := by
  have hid : (X.node m).id = G.id m := h.id m
  have hid' : (X'.node m).id = G.id m := (h.of_step hG (picture_step hs)).id m
  rw [Local, Local, hid, hid']
  exact own_clients_step h hG (picture_step hs) ha m d

variable {as : List (Action N)} {n : N} {c : Uuid} {T : Text} {R : Uuid → Prop}

theorem same_locals (hG : G.Single) (h : (X.picture G).Inv G) (has : ∀ a ∈ as, Calm a)
    (hZ : Run.exec (step G) X as = some Z) (m : N) (d : Uuid) : Z.Local m d ↔ X.Local m d :=
  (Run.exec_invariant_along (C := fun _ a => Calm a)
    (I := fun Z => (Z.picture G).Inv G ∧ (Z.Local m d ↔ X.Local m d))
    (fun hI ha hs => ⟨hI.1.of_step hG (picture_step hs),
      (local_of_calm hI.1 hG hs ha m d).trans hI.2⟩)
    ⟨h, Iff.rfl⟩ (Run.along_of_forall X has) hZ).2

/-- **What every step of the cluster keeps, a run of the strands keeps**, and the tag `k` goes on
standing for the request. -/
theorem Simulates.along (h : Simulates G key X Y) (hG : G.Single) (hx : key k = some x)
    {C : Fleet N → Action N → Prop} {I : Parted N → Prop}
    (hbelow : ∀ {W}, I W → k < W.cluster.tags)
    (hstep : ∀ {V a V' key₁ W key₂ W' b}, Simulates G key₁ V W → Simulates G key₂ V' W' → C V a →
      V.step G a = some V' → W.step b = some W' →
      ((∀ t, a = .lookup t → x.1 ≠ t) → W'.due k = W.due k) → I W → I W')
    (hY : I Y) (has : Run.Along (step G) C X as) (hZ : Run.exec (step G) X as = some Z) :
    ∃ W key', Simulates G key' Z W ∧ I W ∧ key' k = some x := by
  refine Run.exec_invariant_along (C := C) (I := fun Z => ∃ W key',
    Simulates G key' Z W ∧ I W ∧ key' k = some x) (fun {V a V'} hI ha hs => ?_)
    ⟨Y, key, h, hY, hx⟩ has hZ
  obtain ⟨W, key', hW, hI, hx'⟩ := hI
  obtain ⟨W', key'', hW', hsim, hkey, hdue⟩ := hW.of_step hG hs
  refine ⟨W', key'', hsim, ?_, (hkey k (hbelow hI)).trans hx'⟩
  rcases hW' with rfl | ⟨b, hb⟩
  · exact hI
  · refine hstep hW hsim ha hs hb (fun hne => hdue k (hbelow hI) fun t i ht hk => ?_) hI
    have hxt := Option.some.inj (hx'.symm.trans hk)
    exact hne t ht (by rw [hxt])

/-- The clients of the cluster's nodes are those of the fleet's. -/
theorem Simulates.local_iff (h : Simulates G key X Y) (m : N) (d : Uuid) :
    Y.cluster.Local m d ↔ X.Local m d := by
  rw [Cluster.Local, congrFun h.refines.node m]
  exact Iff.rfl

/-- A tag that is not given out is not due. -/
theorem Simulates.due_tags (h : Simulates G key X Y) : Y.due Y.cluster.tags = none := by
  by_contra hne
  obtain ⟨p, hp⟩ := Option.ne_none_iff_exists'.mp hne
  exact Nat.lt_irrefl _ (h.fresh.due _ p hp)

/-- **Whatever the strands do meanwhile, the fan-out stays exact**, until its own lookup. -/
theorem Simulates.spread_of_run (h : Simulates G key X Y) (hG : Cluster.Paired G.links)
    (hfan : Fanout T c) (hY : Y.cluster.Spread k T n c R) (hx : key k = some x)
    (has : ∀ a ∈ as, Calm a ∧ (Y.due k = none ∨ a ≠ .lookup x.1))
    (hZ : Run.exec (step G) X as = some Z) : ∃ W key', Simulates G key' Z W ∧
      (W.cluster.Spread k T n c R ∧ W.due k = Y.due k) ∧ key' k = some x := by
  have hsingle : G.Single := ⟨hG.irrefl, hG.unique⟩
  refine h.along hsingle hx
    (C := fun _ a => Calm a ∧ (Y.due k = none ∨ a ≠ .lookup x.1))
    (I := fun W => W.cluster.Spread k T n c R ∧ W.due k = Y.due k)
    (fun hI => hI.1.below) ?_ ⟨hY, rfl⟩ (Run.along_of_forall X has) hZ
  intro V a V' key₁ W key₂ W' b hW hW' ha hs hb hdue hI
  have hsame : W'.due k = W.due k := by
    rcases ha.2 with hnone | hne
    · rw [hI.2, hnone]
      exact Parted.due_step hb hI.1.below (hI.2.trans hnone)
    · refine hdue fun t ht htx => hne ?_
      rw [ht, htx]
  have hclients : Cluster.SameClients W.cluster W'.cluster := by
    intro m d
    rw [hW.local_iff, hW'.local_iff]
    exact local_of_calm hW.inv hsingle hs ha.1 m d
  exact ⟨Parted.spread_step hI.1 hfan (by rw [hW.refines.links]; exact hG) hb hsame hclients,
    hsame.trans hI.2⟩

/-- The handler of a client reads a frame: the cluster runs it, or its first part, under a tag that
stands for it, and nothing was dropped for it yet. -/
theorem Simulates.read (h : Simulates G key X Y) (hG : G.Single) {env : Env} {f : Traced N Frame}
    {fs : List (Traced N Frame)} (hf : X.net.inbox (.client n c) = f :: fs)
    (hX : X.step G (.read (.client n c) env) = some X') : ∃ i W key',
      f.origin = some ⟨.client n c, i, 0⟩ ∧
      Y.step (match (Strand.client n c).publish? f.value with
        | none => .handler (.request n c f.value env)
        | some _ => .publish n c f.value env) = some W ∧
      Simulates G key' X' W ∧ key' Y.cluster.tags = some (.client n c, i) ∧
      ∀ m d, X'.lost (.client n c, i) m d = 0 := by
  have hs := scene_step (G := G) hX
  have hmail : (X.scene G).mail (.client n c) = f :: fs :=
    (Network.view_mail_of_none G X.net (G.peer_onClient rfl)).trans hf
  have hdropped : (X'.scene G).dropped = X'.dropped := rfl
  have hnext : ∀ {Z key'}, (Z = Y ∨ ∃ b, Y.step b = some Z) → Mimics G key' (X'.scene G) Z →
      Simulates G key' X' Z := fun hZ hm => h.next hG hX hZ hm
  generalize X'.scene G = S at hs hdropped hnext
  cases hs with
  | read opened idle free mail eq =>
    cases hmail.symm.trans mail
    obtain ⟨i, W, key', horigin, hstep, hmimics, hkey, -⟩ := h.toMimics.read_client h.fresh h.opened
      h.sparse.finite_waiting opened idle hmail eq
    refine ⟨i, W, key', horigin, hstep, hnext (.inr ⟨_, hstep⟩) hmimics, hkey, fun m d => ?_⟩
    rw [lost, ← hdropped]
    exact h.lost_of_unread hf horigin

/-- When the strands are left to themselves, the request passes. -/
theorem Simulates.passes (h : Simulates G key X Y) (hG : G.Single) (x : Strand N × Nat) :
    ∃ bs Z, Run.Along (step G) Alone X bs ∧ Run.exec (step G) X bs = some Z ∧ Z.Passed x := by
  obtain ⟨bs, Z, hbs, hZ, hhalted⟩ := (ends_of_inv hG h.inv h.sparse).exists_along (C := Alone)
    And.left
  have hinv : (Z.picture G).Inv G := Run.exec_invariant (I := fun X => (X.picture G).Inv G)
    (fun hI hs => hI.of_step hG (picture_step hs)) h.inv hZ
  exact ⟨bs, Z, hbs, hZ, (atRest_of_halted hinv hhalted).passed x⟩

/-- **When a fan-out has passed**, each other client of a node that it reached was written it once,
or it was dropped, if the connection is open; and nobody else was. -/
theorem Simulates.copies_of_passed (h : Simulates G key X Y) (hG : Cluster.Paired G.links)
    (hspread : Y.cluster.Spread k T n c R) (hx : key k = some x) (hpassed : X.Passed x) (m : N)
    (d : Uuid) :
    ((m = n ∨ ∃ s s', G.links m s = some (n, s') ∧ R s') → X.IsOpen (.client m d) →
      X.copies x m d + X.lost x m d = if X.Local m d ∧ d ≠ c then 1 else 0) ∧
    X.copies x m d + X.lost x m d ≤ if X.Local m d ∧ d ≠ c then 1 else 0 := by
  have hpending : ∀ j s, Y.cluster.pending k j s = 0 := by
    intro j s
    by_contra hne
    obtain ⟨s', hl, -⟩ := hspread.wire j s hne
    rw [h.refines.links] at hl
    exact hne (h.pending_eq_zero hspread.below hx hpassed hl)
  obtain ⟨horigin, hreach⟩ := hspread.delivered hpending
  have hlinked : ∀ {s s'}, G.links m s = some (n, s') → Y.cluster.links m s = some (n, s') :=
    fun hl => by
      rw [h.refines.links]
      exact hl
  have hreached : (m = n ∨ ∃ s s', G.links m s = some (n, s') ∧ R s') →
      Y.cluster.count k m d = if X.Local m d ∧ d ≠ c then 1 else 0 := by
    intro hm
    have honce : Y.cluster.Once k c m := by
      rcases hm with rfl | ⟨s, s', hl, hR⟩
      · exact horigin
      · exact (hreach m s s' (hlinked hl)).1 hR
    rw [honce d]
    simp only [h.local_iff]
  refine ⟨fun hm ho => (h.count_of_passed hspread.below hx hpassed ho).symm.trans (hreached hm),
    le_trans (h.copies_le hspread.below hx m d) ?_⟩
  by_cases hm : m = n ∨ ∃ s s', G.links m s = some (n, s') ∧ R s'
  · exact Nat.le_of_eq (hreached hm)
  · rw [not_or] at hm
    obtain ⟨s, s', hl⟩ := hG.total hm.1
    rw [(hreach m s s' (hlinked hl)).2 (fun hR => hm.2 ⟨s, s', hl, hR⟩) d]
    exact Nat.zero_le _

/-- What was written for a fan-out is its text. -/
theorem Simulates.text_of_copy (h : Simulates G key X Y) (hspread : Y.cluster.Spread k T n c R)
    (hx : key k = some x) {m : N} {d : Uuid} {y : Traced N Text}
    (hy : y ∈ X.net.written (.client m d)) (hcopy : IsCopy x (parcel y)) : y.value = T := by
  obtain ⟨e, he, htag, htext⟩ := h.exists_logged hspread.below hx hy hcopy
  rw [← htext]
  exact hspread.logged e he htag (by rw [htext]; exact hcopy.2)

/-- The connection of a client that is open stays so, and loses nothing. -/
theorem lost_of_open {m : N} {d : Uuid} (hlost : X.lost x m d = 0) (ho : X.IsOpen (.client m d))
    (has : ∀ a ∈ as, Calm a) (hZ : Run.exec (step G) X as = some Z) : Z.lost x m d = 0 := by
  rw [lost, dropped_of_run (along_isOpen ho has) hZ]
  exact hlost

/-- A client with an open connection is stored. -/
theorem Simulates.local_of_open (h : Simulates G key X Y) {m : N} {d : Uuid}
    (ho : X.IsOpen (.client m d)) : X.Local m d :=
  h.opened m d (ho rfl).1 (by
    have hop : (X.picture G).op d = some .read := (ho rfl).2
    rw [hop]
    exact Option.some_ne_none _)

end Fleet

end Aewt
