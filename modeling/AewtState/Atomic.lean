import AewtState.Parcels

/-!
# Sending text by text is like sending at once

A handler of the strands sends one text after another while others run; a handler of a `Parted`
cluster stores and sends in one step, or in two if it publishes.  The first is a refinement of the
second, whose sessions then deliver in any order.

* `Mimics` — a `Parted` cluster is where a scene is.
* `Goes` — the steps of the cluster for a step of the strands.
* `Simulates` — a cluster and the fleet whose scene it mimics.

Principal result: `refines` — every run of the strands refines a run of the cluster in which each
handler runs at once when it starts, and a publish goes on when it looks up the sessions.
-/

set_option autoImplicit false

namespace Aewt

namespace Fleet

variable {N : Type} [DecidableEq N] {G : Topology N} {S T : Scene N} {Y : Cluster N}
  {t u : Strand N} {key : Nat → Option (Strand N × Nat)}

/-! ## Steps and runs -/

/-- Frames of clients are not texts in flight. -/
theorem Refines.of_mail (h : Refines G key S Y) {mail : Strand N → List (Traced N Frame)}
    (hmail : ∀ m s, mail (.session m s) = S.mail (.session m s)) (issued : Strand N → Nat) :
    Refines G key { S with mail := mail, issued := issued } Y where
  links := h.links
  node := h.node
  home := h.home
  wire hl := by
    rw [h.wire hl]
    simp only [hmail]
    rfl
  log := h.log

/-- A welcome is all that `client::on_accept` does. -/
theorem Refines.of_accept (h : Refines G key S Y) {n : N} {c : Uuid} {runAt : Int64} {env : Env}
    {w : World} (eq : Client.onAccept c runAt (.start env (S.node n)) = (.ok (), w))
    (hidle : S.waiting (.client n c) = []) (hfin : {t | S.waiting t ≠ []}.Finite)
    (op : Uuid → Option Op) :
    Refines G key { S.starts (.client n c) none w with op := op } Y := by
  obtain ⟨text, hstate, heffects⟩ : ∃ text, w.state = S.node n ∧ w.effects = [.client c text] := by
    cases eq
    exact ⟨_, rfl, rfl⟩
  refine ⟨h.links, ?_, h.home, fun {m s j s'} hl => ?_, fun m d => ?_⟩
  · rw [h.node, Scene.starts, hstate]
    exact (Function.update_eq_self n S.node).symm
  · have hcoming := coming_starts (u := .session j s') none hidle hfin (w := w)
    have hnone : texts (.client n c) (.session j s') w.effects = [] := by
      rw [texts_session, heffects]
      split <;> rfl
    rw [hnone, List.map_nil, Multiset.coe_nil, add_zero] at hcoming
    rw [h.wire hl, ← hcoming]
    rfl
  · obtain ⟨W, hW, hlog⟩ := h.log m d
    have hcoming := coming_starts (u := .client m d) none hidle hfin (w := w)
    refine ⟨W + ((texts (.client n c) (.client m d) w.effects).map (Prod.mk none) :
      List (Parcel N)), fun x hx => ?_, ?_⟩
    · rcases Multiset.mem_add.mp hx with hx | hx
      · exact hW x hx
      · obtain ⟨y, hy, rfl⟩ := List.mem_map.mp hx
        rw [heffects] at hy
        by_cases hd : Strand.client n c = .client m d
        · cases hd
          have hyt : y = text := by simpa [texts, Effect.destination] using hy
          exact ⟨rfl, env, S.node n, runAt, w, eq, by rw [hyt, heffects]⟩
        · simp [texts, Effect.destination, hd] at hy
    · rw [← add_assoc, hlog, add_assoc]
      exact congrArg _ hcoming.symm

/-- The open connection of a client: the cluster may run its handlers. -/
theorem Refines.local_of_open (h : Refines G key S Y) (ho : S.erase.Open) {n : N} {c : Uuid}
    (hc : S.home c = some n) (hop : S.op c ≠ none) : Y.Local n c := by
  rw [Cluster.Local, h.node]
  exact ho n c hc hop

theorem Refines.start_node (h : Refines G key S Y) (env : Env) (n : N) :
    World.start env (Y.node n) = .start env (S.node n) := by
  rw [h.node]

/-- The handler of a client reads a frame, under a tag that stands for it. -/
theorem Refines.read (h : Refines G key S Y) (hk : Keyed S Y.tags key) (hf : Y.Fresh)
    (hfin : {t | S.waiting t ≠ []}.Finite) {n : N} {c : Uuid} {f : Traced N Frame}
    {fs : List (Traced N Frame)} (hidle : S.waiting (.client n c) = [])
    (hmail : S.mail (.client n c) = f :: fs) (w : World)
    (due : Strand N → Option (Traced N Publishing)) :
    ∃ i, f.origin = some ⟨.client n c, i, 0⟩ ∧
      Refines G (Function.update key Y.tags (some (.client n c, i)))
        { S.starts (.client n c) f.origin w with
          mail := Function.update S.mail (.client n c) fs, due := due }
        { Y.perform n Y.tags w with tags := Y.tags + 1 } ∧
      Keyed { S.starts (.client n c) f.origin w with
          mail := Function.update S.mail (.client n c) fs, due := due } (Y.tags + 1)
        (Function.update key Y.tags (some (.client n c, i))) := by
  obtain ⟨i, horigin, hkeyed⟩ := hk.take hmail
  refine ⟨i, horigin, ?_, hkeyed.congr (fun _ _ => rfl) rfl⟩
  have hmailed : Refines G key { S with mail := Function.update S.mail (.client n c) fs } Y :=
    h.of_mail (fun m s => Function.update_of_ne (by simp) _ _) S.issued
  have hrekeyed := hmailed.rekey hf (Function.update key Y.tags (some (.client n c, i)))
    fun k hk => Function.update_of_ne (Nat.ne_of_lt hk) _ _
  have htag : Function.update key Y.tags (some (Strand.client n c, i)) Y.tags =
      f.origin.map Origin.request := by
    rw [Function.update_self, horigin]
    rfl
  have hread := hrekeyed.perform hidle hfin htag (Y.tags + 1) w S.op h.home
  exact ⟨hread.links, hread.node, hread.home, hread.wire, hread.log⟩

/-- A handler that reads no frame runs under a tag that stands for no request. -/
theorem Refines.announce (h : Refines G key S Y) (hk : Keyed S Y.tags key) (hf : Y.Fresh)
    (hfin : {t | S.waiting t ≠ []}.Finite) (hidle : S.waiting t = []) (w : World)
    (op : Uuid → Option Op) {home home' : Uuid → Option N} (hhome : home' = home) :
    Refines G (Function.update key Y.tags none)
        { S.starts t none w with op := op, home := home }
        { Y.perform t.node Y.tags w with home := home', tags := Y.tags + 1 } ∧
      Keyed { S.starts t none w with op := op, home := home } (Y.tags + 1)
        (Function.update key Y.tags none) := by
  have hrekeyed := h.rekey hf (Function.update key Y.tags none)
    fun k hk => Function.update_of_ne (Nat.ne_of_lt hk) _ _
  refine ⟨hrekeyed.perform hidle hfin (by rw [Function.update_self]; rfl) _ w _ hhome, ?_⟩
  exact (hk.tag none fun _ _ hx => by cases hx).congr (fun _ _ => rfl) rfl

/-- A handler that is under way has more to send. -/
theorem Refines.awaits (h : Refines G key S Y) (hidle : S.waiting t = [])
    (hfin : {t | S.waiting t ≠ []}.Finite) {o : Option (Origin N)} {tag : Nat}
    (htag : key tag = o.map Origin.request) (env : Env) (es : List Effect) :
    Refines G key (S.awaits t o es)
      (Y.perform t.node tag (World.emit (.start env (Y.node t.node)) es)) := by
  have hw := h.perform hidle hfin htag Y.tags (World.emit (.start env (Y.node t.node)) es) S.op
    h.home
  have hnode : Function.update S.node t.node (Y.node t.node) = S.node := by
    rw [h.node, Function.update_eq_self]
  exact ⟨hw.links, hw.node.trans hnode, hw.home, hw.wire, hw.log⟩

section

variable {V : Parted N}

omit [DecidableEq N] in
/-- Nothing new is due, and what was due still is. -/
theorem Owed.mono {key' : Nat → Option (Strand N × Nat)} {Z : Parted N} (h : Owed key S V)
    (hf : V.Fresh) (hdue : ∀ t p, T.due t = some p → S.due t = some p)
    (hkey : ∀ k < V.cluster.tags, key' k = key k)
    (hZ : ∀ k < V.cluster.tags, Z.due k = V.due k) : Owed key' T Z := by
  intro t p hp
  obtain ⟨k, i, hk, ho, hV⟩ := h t p (hdue t p hp)
  have hlt := hf.due k _ hV
  exact ⟨k, i, (hkey k hlt).trans hk, ho, (hZ k hlt).trans hV⟩

theorem due_of_update {due : Strand N → Option (Traced N Publishing)} {t : Strand N} (u : Strand N)
    (p : Traced N Publishing) (h : Function.update due t none u = some p) : due u = some p := by
  by_cases hu : u = t
  · subst hu
    rw [Function.update_self] at h
    cases h
  · rwa [Function.update_of_ne hu] at h

variable (G) in
/-- The cluster is where the scene is. -/
structure Mimics (key : Nat → Option (Strand N × Nat)) (S : Scene N) (V : Parted N) : Prop where
  keyed : Keyed S V.cluster.tags key
  refines : Refines G key S V.cluster
  owed : Owed key S V

/-- The cluster goes along with an action of the scene: it takes a step or none.  Only the lookup
for a request does what is due for it. -/
def Goes (G : Topology N) (key : Nat → Option (Strand N × Nat)) (V : Parted N) (a : Action N)
    (T : Scene N) : Prop :=
  ∃ Z key', (Z = V ∨ ∃ b, V.step b = some Z) ∧ Mimics G key' T Z ∧
    (∀ k < V.cluster.tags, key' k = key k) ∧
    ∀ k < V.cluster.tags, (∀ t i, a = .lookup t → key k ≠ some (t, i)) → Z.due k = V.due k

/-- The cluster stays. -/
theorem Mimics.stays {a : Action N} (h : Mimics G key T V) : Goes G key V a T :=
  ⟨V, key, .inl rfl, h, fun _ _ => rfl, fun _ _ _ => rfl⟩

/-- The handler of a client reads a frame. -/
theorem Mimics.read_client (h : Mimics G key S V) (hf : V.Fresh) (ho : S.erase.Open)
    (hfin : {t | S.waiting t ≠ []}.Finite) {n : N} {c : Uuid} {env : Env} {f : Traced N Frame}
    {fs : List (Traced N Frame)} {w : World} (hopen : S.IsOpen (.client n c))
    (hidle : S.waiting (.client n c) = [])
    (hmail : S.mail (.client n c) = f :: fs)
    (eq : Client.onRead c f.value (.start env (S.node n)) = (.ok (), w)) :
    ∃ i Z key', f.origin = some ⟨.client n c, i, 0⟩ ∧
      V.step (match (Strand.client n c).publish? f.value with
        | none => .handler (.request n c f.value env)
        | some _ => .publish n c f.value env) = some Z ∧
      Mimics G key' { S.starts (.client n c) f.origin
          ((Strand.client n c).cut f.value (S.node n) w).1 with
        mail := Function.update S.mail (.client n c) fs
        due := Function.update S.due (.client n c)
          (((Strand.client n c).cut f.value (S.node n) w).2.map (Traced.mk f.origin)) } Z ∧
      key' V.cluster.tags = some (.client n c, i) ∧
      (∀ k < V.cluster.tags, key' k = key k) ∧ ∀ k < V.cluster.tags, Z.due k = V.due k := by
  have hlocal := h.refines.local_of_open ho (hopen rfl).1
    (by rw [(hopen rfl).2]; exact Option.some_ne_none _)
  have heq := eq
  rw [← h.refines.start_node] at heq
  have hkey : ∀ i, ∀ k < V.cluster.tags, Function.update key V.cluster.tags
      (some (Strand.client n c, i)) k = key k := fun i k hlt =>
    Function.update_of_ne (Nat.ne_of_lt hlt) _ _
  cases hp : (Strand.client n c).publish? f.value with
  | none =>
    rw [cut_of_none hp]
    obtain ⟨i, horigin, href, hkeyed⟩ := h.refines.read h.keyed hf.cluster hfin hidle hmail w
      (Function.update S.due (.client n c) none)
    exact ⟨i, _, _, horigin, Parted.step_handler.mpr
      ⟨_, Cluster.step_request.mpr ⟨hlocal, w, heq, rfl⟩, rfl⟩,
      ⟨hkeyed, href, h.owed.mono hf due_of_update (hkey i) fun _ _ => rfl⟩,
      Function.update_self .., hkey i, fun _ _ => rfl⟩
  | some p =>
    obtain ⟨q, -, hcut, -⟩ := cut_of_some (t := .client n c) hp eq
    rw [hcut]
    obtain ⟨i, horigin, href, hkeyed⟩ := h.refines.read h.keyed hf.cluster hfin hidle hmail
      { w with effects := q.toClients (S.node n) }
      (Function.update S.due (.client n c) (some ⟨f.origin, q⟩))
    have hnode : V.cluster.node n = S.node n := congrFun h.refines.node n
    refine ⟨i, _, _, horigin, Parted.step_publish.mpr ⟨hlocal, w, _, q, heq, ?_, rfl⟩,
      ⟨hkeyed, href, ?_⟩, Function.update_self .., hkey i,
      fun k hlt => Function.update_of_ne (Nat.ne_of_lt hlt) _ _⟩
    · rw [hnode]
      exact hcut
    · intro u x hx
      by_cases hu : u = .client n c
      · subst hu
        obtain rfl : ⟨f.origin, q⟩ = x := by simpa using hx
        exact ⟨V.cluster.tags, i, Function.update_self .., by rw [horigin]; rfl,
          Function.update_self ..⟩
      · have hold : S.due u = some x := (Function.update_of_ne hu _ _).symm.trans hx
        obtain ⟨k, j, hk, hj, hV⟩ := h.owed u x hold
        have hlt := hf.due k _ hV
        exact ⟨k, j, (hkey i k hlt).trans hk, hj,
          (Function.update_of_ne (Nat.ne_of_lt hlt) _ _).trans hV⟩

/-- The handler of a publish looks up the subscribed sessions. -/
theorem Mimics.lookup (h : Mimics G key S V)
    (hfin : {t | S.waiting t ≠ []}.Finite) {p : Traced N Publishing} (hdue : S.due t = some p)
    (hidle : S.waiting t = []) : ∃ k i Z, key k = some (t, i) ∧
      p.origin.map Origin.request = some (t, i) ∧
      V.due k = some (t.node, p.value) ∧ V.step (.lookup k still) = some Z ∧
      Mimics G key { S.awaits t p.origin (p.value.effects (S.node t.node)) with
        due := Function.update S.due t none } Z ∧
      ∀ j, j ≠ k → Z.due j = V.due j := by
  obtain ⟨k, i, hk, horigin, hV⟩ := h.owed t p hdue
  have hnode : V.cluster.node t.node = S.node t.node := congrFun h.refines.node t.node
  have href := h.refines.awaits hidle hfin (hk.trans horigin.symm) still
    (p.value.effects (S.node t.node))
  rw [← hnode] at href
  refine ⟨k, i, _, hk, horigin, hV, Parted.step_lookup.mpr ⟨t.node, p.value, hV, rfl⟩,
    ⟨h.keyed.congr (fun _ _ => rfl) rfl, ?_, fun u x hx => ?_⟩,
    fun j hj => Function.update_of_ne hj _ _⟩
  · rw [← hnode]
    exact ⟨href.links, href.node, href.home, href.wire, href.log⟩
  · obtain ⟨k', j, hk', hj, hV'⟩ := h.owed u x (due_of_update u x hx)
    have hne : k' ≠ k := by
      rintro rfl
      rw [hk] at hk'
      cases hk'
      simp at hx
    exact ⟨k', j, hk', hj, (Function.update_of_ne hne _ _).trans hV'⟩

/-- **A step of the strands is a step of the cluster, or none.** -/
theorem Mimics.of_step (h : Mimics G key S V) (hf : V.Fresh) (hp : S.erase.Inv G)
    (ho : S.erase.Open) (hfin : {t | S.waiting t ≠ []}.Finite) {a : Action N}
    (hs : S.Step G a T) : Goes G key V a T := by
  have hupdate : ∀ x, ∀ k < V.cluster.tags, Function.update key V.cluster.tags x k = key k :=
    fun x k hlt => Function.update_of_ne (Nat.ne_of_lt hlt) _ _
  cases hs with
  | connect fresh idle eq =>
    rename_i n c env w
    rw [← h.refines.start_node] at eq
    have hhome : Function.update V.cluster.home c (some n) = Function.update S.home c (some n) := by
      rw [h.refines.home]
    obtain ⟨href, hkeyed⟩ := h.refines.announce h.keyed hf.cluster hfin idle w
      (Function.update S.op c (some .handshake)) hhome
    exact ⟨_, _, .inr ⟨.handler (.connect n c env), Parted.step_handler.mpr
      ⟨_, Cluster.step_connect.mpr ⟨by rw [h.refines.home]; exact fresh, w, eq, rfl⟩, rfl⟩⟩,
      ⟨hkeyed, href, h.owed.mono hf (fun _ _ => id) (hupdate none) fun _ _ => rfl⟩,
      hupdate none, fun _ _ _ => rfl⟩
  | accept home op idle eq =>
    exact Mimics.stays ⟨h.keyed.congr (fun _ _ => rfl) rfl, h.refines.of_accept eq idle hfin _,
      h.owed⟩
  | fail home op idle eq =>
    rename_i n c env w
    have hlocal := h.refines.local_of_open ho home op
    rw [← h.refines.start_node] at eq
    obtain ⟨href, hkeyed⟩ := h.refines.announce h.keyed hf.cluster hfin idle w
      (Function.update S.op c none) h.refines.home
    exact ⟨_, _, .inr ⟨.handler (.disconnect n c env), Parted.step_handler.mpr
      ⟨_, Cluster.step_disconnect.mpr ⟨hlocal, w, eq, rfl⟩, rfl⟩⟩,
      ⟨hkeyed, href, h.owed.mono hf (fun _ _ => id) (hupdate none) fun _ _ => rfl⟩,
      hupdate none, fun _ _ _ => rfl⟩
  | request home =>
    rename_i n c frame
    exact Mimics.stays ⟨h.keyed.request n c frame,
      h.refines.of_mail (fun m s => push_of_ne _ _ _ (by simp)) _, h.owed⟩
  | read opened idle free mail eq =>
    rename_i t env f fs w
    obtain ⟨n, context, id⟩ := t
    cases context with
    | onClient =>
      obtain ⟨i, Z, key', -, hstep, hmimics, -, hkey, hdue⟩ := h.read_client hf ho hfin opened idle
        mail eq
      exact ⟨Z, key', .inr ⟨_, hstep⟩, hmimics, hkey, fun k hk _ => hdue k hk⟩
    | onSession =>
      obtain ⟨i, p, hvalue, htag, hi, htake⟩ := h.refines.take hp mail
      rw [cut_of_none (publish?_session ..)]
      rw [← h.refines.start_node, hvalue] at eq
      have href := htake.perform idle hfin htag V.cluster.tags w S.op h.refines.home
      refine ⟨_, key, .inr ⟨.handler (.deliver n id i env), Parted.step_handler.mpr
        ⟨_, Cluster.step_deliver.mpr ⟨p, hi, w, eq, rfl⟩, rfl⟩⟩,
        ⟨h.keyed.congr (fun t ht => ?_) rfl,
          ⟨href.links, href.node, href.home, href.wire, href.log⟩,
          h.owed.mono hf due_of_update (fun _ _ => rfl) fun _ _ => rfl⟩,
        fun _ _ => rfl, fun _ _ _ => rfl⟩
      exact Function.update_of_ne (by rintro rfl; cases ht) _ _
  | lookup due idle =>
    obtain ⟨k, i, Z, hk, -, -, hstep, hmimics, hdue⟩ := h.lookup hfin due idle
    refine ⟨Z, key, .inr ⟨_, hstep⟩, hmimics, fun _ _ => rfl, fun j _ hj => hdue j ?_⟩
    rintro rfl
    exact hj _ i rfl hk
  | announce waiting | post waiting =>
    refine Mimics.stays ⟨h.keyed.congr (fun t ht => sends_mail_client S _ _ _ ht)
      (Scene.sends_issued ..), h.refines.sends waiting hfin, ?_⟩
    intro u p hu
    rw [Scene.sends_due] at hu
    exact h.owed u p hu
  | onSend | onWrite => exact Mimics.stays h

end

variable (G) in
/-- The fleet, in a state that a run can reach, and the cluster that it refines. -/
structure Simulates (key : Nat → Option (Strand N × Nat)) (X : Fleet N) (Y : Parted N) : Prop
    extends Mimics G key (X.scene G) Y where
  inv : (X.picture G).Inv G
  opened : (X.picture G).Open
  sparse : X.Sparse
  fresh : Y.Fresh

section

variable {X X₀ X' : Fleet N} {as : List (Action N)} {Y : Parted N}

omit [DecidableEq N] in
theorem Sparse.finite_waiting (h : X.Sparse) : {t | (X.scene G).waiting t ≠ []}.Finite := by
  obtain ⟨E, hE⟩ := h
  refine E.finite_toSet.subset fun t ht => ?_
  by_contra hc
  obtain ⟨hn, hs⟩ := hE t hc
  exact ht (waiting_of_idle hn.1 hs.pending)

/-- The fleet goes on, and the cluster with it. -/
theorem Simulates.next (h : Simulates G key X Y) (hG : G.Single) {a : Action N}
    (hs : X.step G a = some X') {Z : Parted N} {key' : Nat → Option (Strand N × Nat)}
    (hZ : Z = Y ∨ ∃ b, Y.step b = some Z) (hm : Mimics G key' (X'.scene G) Z) :
    Simulates G key' X' Z := by
  refine ⟨hm, h.inv.of_step hG (picture_step hs), Open.of_step h.opened h.inv hG (picture_step hs),
    h.sparse.of_step hs, ?_⟩
  rcases hZ with rfl | ⟨b, hb⟩
  · exact h.fresh
  · exact h.fresh.of_step hb

/-- **A step of the fleet is a step of the cluster, or none.** -/
theorem Simulates.of_step (h : Simulates G key X Y) (hG : G.Single) {a : Action N}
    (hs : X.step G a = some X') : ∃ Z key', (Z = Y ∨ ∃ b, Y.step b = some Z) ∧
      Simulates G key' X' Z ∧ (∀ k < Y.cluster.tags, key' k = key k) ∧
      ∀ k < Y.cluster.tags, (∀ t i, a = .lookup t → key k ≠ some (t, i)) → Z.due k = Y.due k := by
  obtain ⟨Z, key', hZ, hm, hkey, hdue⟩ := h.toMimics.of_step h.fresh h.inv h.opened
    h.sparse.finite_waiting (scene_step hs)
  exact ⟨Z, key', hZ, h.next hG hs hZ hm, hkey, hdue⟩

/-- Before any handler ran nothing is coming and nothing was sent. -/
theorem Initial.simulates (h : X.Initial G) : Simulates G (fun _ => none) X (cluster G X) := by
  have hwaiting : ∀ t, (X.scene G).waiting t = [] := fun t =>
    waiting_of_idle (h.notices t) (by rw [h.net])
  have hcoming : ∀ u, (X.scene G).coming u = 0 := by
    intro u
    simp only [Scene.coming, hwaiting, toward_nil, Multiset.coe_nil, finsum_zero]
  have hmail : ∀ t, (X.scene G).mail t = [] := by
    intro t
    simp [scene, stage, Network.view, Network.outgoing, h.net]
  have hsent : ∀ t, (X.scene G).sent t = [] := by
    intro t
    simp [scene, stage, Network.view, Network.outgoing, h.net]
  have hdropped : ∀ t, (X.scene G).dropped t = [] := h.dropped
  refine ⟨⟨⟨fun n c f hf => ?_, fun n c => ?_, fun k hk => ?_, fun k hk => ?_⟩,
    ⟨rfl, rfl, rfl, fun hl => ?_, fun n c => ⟨0, fun _ hx => ?_, ?_⟩⟩, fun t p hp => ?_⟩,
    h.inv, fun n c hc => ?_, h.sparse,
    ⟨⟨fun m s p hp => (by cases hp), fun e he => (by cases he)⟩, fun k x hx => (by cases hx)⟩⟩
  · rw [hmail] at hf
    cases hf
  · rw [hmail]
    exact .nil
  · exact absurd hk (Nat.not_lt_zero k)
  · exact absurd hk (Nat.not_lt_zero k)
  · rw [hcoming, hmail]
    rfl
  · exact absurd hx (Multiset.notMem_zero _)
  · rw [hcoming, hsent, hdropped]
    rfl
  · have hnone : X.due t = some p := hp
    rw [h.due] at hnone
    cases hnone
  · have hnone : (X.picture G).home c = none := h.home c
    rw [hnone] at hc
    cases hc

/-- Every run of the fleet has a cluster that it refines. -/
theorem simulates_of_run (hG : G.Single) (h₀ : X₀.Initial G)
    (hX : Run.exec (step G) X₀ as = some X) : ∃ bs Y,
      Run.exec Parted.step (cluster G X₀) bs = some Y ∧ ∃ key, Simulates G key X Y := by
  refine Run.exec_simulates (R := fun X Y => ∃ key, Simulates G key X Y) ?_
    ⟨_, h₀.simulates⟩ hX
  rintro X a X' Y ⟨key, h⟩ hs
  obtain ⟨Z, key', rfl | ⟨b, hb⟩, hsim, -⟩ := h.of_step hG hs
  · exact ⟨[], Z, rfl, key', hsim⟩
  · exact ⟨[b], Z, Run.exec_cons.mpr ⟨Z, hb, rfl⟩, key', hsim⟩

/-- **Sending text by text is like sending at once.**  For every run of the strands there is a run
of the cluster, each handler of which runs at once when the strand starts it, and a publish goes on
when the strand looks up its sessions, to the same stores.  What the cluster has in flight on a
session, or has sent to a client, is what the strands have on its way, sent, or dropped as the
client's connection was not open, and what their handlers have still to send: the same texts, caused
by the same requests, but for the order, and for the welcomes, which a cluster does not send. -/
theorem refines (hG : G.Single) (h₀ : X₀.Initial G) (hX : Run.exec (step G) X₀ as = some X) :
    ∃ bs Y key, Run.exec Parted.step (cluster G X₀) bs = some Y ∧
      Refines G key (X.scene G) Y.cluster ∧ Owed key (X.scene G) Y ∧
      ∀ k < Y.cluster.tags, ∀ k' < Y.cluster.tags, ∀ x,
        key k = some x → key k' = some x → k = k' := by
  obtain ⟨bs, Y, hY, key, h⟩ := simulates_of_run hG h₀ hX
  exact ⟨bs, Y, key, hY, h.refines, h.owed, h.keyed.once⟩

end

/-- The join of a client is told to the other node. -/
theorem refines_joined : ∃ X bs Y key, Run.exec (step duoTopology) duo joined = some X ∧
    Run.exec Parted.step (cluster duoTopology duo) bs = some Y ∧
    Refines duoTopology key (X.scene duoTopology) Y.cluster ∧
    ⟨firstClient, Cluster.duoSession true⟩ ∈ (Y.cluster.node true).clients.rows := by
  have heval : ((Run.exec (step duoTopology) duo joined).any fun X =>
      decide (⟨firstClient, Cluster.duoSession true⟩ ∈ (X.node true).clients.rows)) = true := by
    decide +kernel
  simp only [Option.any_eq_true, decide_eq_true_eq] at heval
  obtain ⟨X, hX, hrow⟩ := heval
  obtain ⟨bs, Y, key, hY, href, -⟩ := refines single_duo initial_duo hX
  refine ⟨X, bs, Y, key, hX, hY, href, ?_⟩
  rw [href.node]
  exact hrow

end Fleet

end Aewt
