import AewtState.Cluster

/-!
# Every node mirrors the local rows of every other node

`Inv` holds of every cluster that grew from an empty mesh when sessions deliver in order:

* `rows`, `wires` — whatever a node stores for a session, or finds on its wire, is about a
  client of the node at the other end, and what it stores as its own about its own clients;
* `agree` — applying what is in flight on a session to the rows stored for it gives the local
  rows of the other end.

Principal results: `Inv.of_step`, `Inv.of_run` — the invariant; `Inv.mirror` — where nothing about a
row is in flight, the two ends agree on it.
-/

set_option autoImplicit false

namespace Aewt

namespace Cluster

variable {N : Type} {X Y : Cluster N}

/-- The rows that node `n` stores for `s` may be about client `c`. -/
def Owner (X : Cluster N) (n : N) (s c : Uuid) : Prop :=
  (s = (X.node n).id ∧ X.home c = some n) ∨
    ∃ m s', X.links n s = some (m, s') ∧ X.home c = some m

structure Inv (X : Cluster N) : Prop where
  mesh : X.Mesh
  rows : ∀ {n s k}, (X.node n).Holds s k → X.Owner n s k.about
  wires : ∀ {n s p}, p ∈ X.wire n s → ∃ m s', X.links n s = some (m, s') ∧
    ∀ k b, updateOf s p.text = some (k, b) → X.home k.about = some m
  agree : ∀ {n s m s'}, X.links n s = some (m, s') → ∀ k,
    Replica.after (updateOf s) k ((X.node n).Holds s k) ((X.wire n s).map Packet.text) ↔
      (X.node m).Holds (X.node m).id k

/-- Nodes without clients, subscriptions or messages. -/
structure Initial (X : Cluster N) : Prop where
  mesh : X.Mesh
  rows : ∀ n s k, ¬ (X.node n).Holds s k
  wire : ∀ n s, X.wire n s = []
  log : X.log = []
  home : ∀ c, X.home c = none

theorem Initial.inv (h : X.Initial) : X.Inv where
  mesh := h.mesh
  rows hr := absurd hr (h.rows _ _ _)
  wires hp := by
    rw [h.wire] at hp
    cases hp
  agree _ k := by
    rw [h.wire]
    exact iff_of_false (h.rows _ _ k) (h.rows _ _ k)

/-! ## Two nodes at start-up -/

/-- Nodes with their sessions, before any client connects. -/
def atStart (ids : N → Uuid) (sessions : N → Table Session.id)
    (links : N → Uuid → Option (N × Uuid)) : Cluster N where
  links := links
  node n := { id := ids n, sessions := sessions n }
  wire _ _ := []
  log := []
  tags := 0
  home _ := none

theorem initial_atStart {ids : N → Uuid} {sessions : N → Table Session.id}
    {links : N → Uuid → Option (N × Uuid)} (hl : Paired links)
    (hk : ∀ {n s e}, links n s = some e → (sessions n).hasKey s = true)
    (hf : ∀ {n s e}, links n s = some e → s ≠ ids n) : (atStart ids sessions links).Initial where
  mesh := { hl with known := hk, fresh := hf }
  rows n s k := by
    cases k with
    | client c => exact Table.not_mem_empty _
    | subscription c ch => exact Table.not_mem_empty _
  wire _ _ := rfl
  log := rfl
  home _ := rfl

def duoId (b : Bool) : Uuid := ⟨List.replicate 16 (if b then 3 else 4), by simp⟩

/-- The one session that a node of `duo` has. -/
def duoSession (b : Bool) : Uuid := ⟨List.replicate 16 (if b then 5 else 6), by simp⟩

def duoLinks (b : Bool) (s : Uuid) : Option (Bool × Uuid) :=
  if s = duoSession b then some (!b, duoSession !b) else none

/-- Two nodes that share a session. -/
def duo : Cluster Bool :=
  atStart duoId (fun b => ((Table.empty _).insert { id := duoSession b }).1) duoLinks

theorem duoLinks_eq_some {b m : Bool} {s s' : Uuid} :
    duoLinks b s = some (m, s') ↔ s = duoSession b ∧ m = !b ∧ s' = duoSession !b := by
  unfold duoLinks
  split
  · rename_i h
    simp [h, eq_comm]
  · rename_i h
    simp [h]

theorem initial_duo : duo.Initial := by
  refine initial_atStart ⟨fun {n s m s'} h => ?_, fun {n s m s'} h => ?_, fun {n m} h => ?_,
    fun {n m s t s' t'} h ht => ?_⟩ (fun {n s e} h => ?_) (fun {n s e} h => ?_)
  · obtain ⟨rfl, rfl, rfl⟩ := duoLinks_eq_some.mp h
    exact duoLinks_eq_some.mpr ⟨rfl, by simp, by simp⟩
  · obtain ⟨-, rfl, -⟩ := duoLinks_eq_some.mp h
    cases n <;> simp
  · exact ⟨_, _, duoLinks_eq_some.mpr ⟨rfl, by cases n <;> cases m <;> simp_all, rfl⟩⟩
  · rw [(duoLinks_eq_some.mp h).1, (duoLinks_eq_some.mp ht).1]
  · rw [(duoLinks_eq_some.mp h).1]
    cases n <;> decide
  · rw [(duoLinks_eq_some.mp h).1]
    cases n <;> decide

/-! ## Owners -/

/-- The rows about a client are stored for one owner only. -/
theorem Mesh.owner_unique (h : X.Mesh) {n : N} {s t c : Uuid} (hs : X.Owner n s c)
    (ht : X.Owner n t c) : s = t := by
  rcases hs with ⟨rfl, hs⟩ | ⟨m, s', hl, hs⟩
  · rcases ht with ⟨rfl, -⟩ | ⟨m, t', hl, ht⟩
    · rfl
    · rw [hs] at ht
      cases ht
      exact absurd rfl (h.irrefl hl)
  · rcases ht with ⟨rfl, ht⟩ | ⟨m', t', hl', ht⟩
    · rw [hs] at ht
      cases ht
      exact absurd rfl (h.irrefl hl)
    · rw [hs] at ht
      cases ht
      exact h.unique hl hl'

theorem Inv.row_owner (h : X.Inv) {n : N} {s : Uuid} {row : Client}
    (hr : row ∈ (X.node n).clients) (ho : X.Owner n s row.id) : row.sessionId = s :=
  h.mesh.owner_unique (h.rows (s := row.sessionId) (k := .client row.id) hr) ho

/-- Only the node and the wires change in a step; the mesh stays. -/
theorem Mesh.congr (h : X.Mesh) (hl : Y.links = X.links)
    (hid : ∀ n, (Y.node n).id = (X.node n).id)
    (hs : ∀ n s, (X.node n).sessions.hasKey s = true → (Y.node n).sessions.hasKey s = true) :
    Y.Mesh where
  toPaired := by
    rw [hl]
    exact h.toPaired
  known hk := hs _ _ (h.known (by rwa [hl] at hk))
  fresh hk := by
    rw [hid]
    exact h.fresh (by rwa [hl] at hk)

/-- A local client connected here. -/
theorem Inv.home_of_local (h : X.Inv) {n : N} {c : Uuid} (hc : X.Local n c) :
    X.home c = some n := by
  rcases h.rows hc with ⟨-, hd⟩ | ⟨m, s', hl, -⟩
  · exact hd
  · exact absurd rfl (h.mesh.fresh hl)

/-- Nobody stores a client that has not connected yet. -/
theorem Inv.rows_of_new (h : X.Inv) {c : Uuid} (hnew : X.home c = none) (n : N) :
    ∀ row ∈ (X.node n).clients, row.id ≠ c := by
  rintro row hrow rfl
  rcases h.rows (s := row.sessionId) (k := .client row.id) hrow with ⟨-, hd⟩ | ⟨m, s', -, hd⟩
  · simp [Key.about, hnew] at hd
  · simp [Key.about, hnew] at hd

/-- The row of a local client is the node's own. -/
theorem Inv.rows_of_local (h : X.Inv) {n : N} {c : Uuid} (hc : X.Local n c) :
    ∀ row ∈ (X.node n).clients, row.id = c → row.sessionId = (X.node n).id :=
  fun _ hrow hid => h.row_owner hrow (Or.inl ⟨rfl, by rw [hid]; exact h.home_of_local hc⟩)

/-- A text that is read is about a client whose row, if any, is stored for its session. -/
theorem Inv.text_owner (h : X.Inv) {n : N} {s : Uuid} {p : Packet} (hp : p ∈ X.wire n s)
    (k : Key) (b : Bool) (hu : updateOf s p.text = some (k, b)) :
    ∀ row ∈ (X.node n).clients, row.id = k.about → row.sessionId = s := by
  intro row hrow hid
  obtain ⟨m, s', hl, hd⟩ := h.wires hp
  exact h.row_owner hrow (Or.inr ⟨m, s', hl, by rw [hid]; exact hd k b hu⟩)

/-- Where nothing in flight is about a row, the node mirrors the other end. -/
theorem Inv.mirror (h : X.Inv) {n m : N} {s s' : Uuid} (hl : X.links n s = some (m, s'))
    {k : Key} (hq : ∀ p ∈ X.wire n s, ∀ b, updateOf s p.text ≠ some (k, b)) :
    (X.node n).Holds s k ↔ (X.node m).Holds (X.node m).id k := by
  have hidle : Replica.Idle (updateOf s) k ((X.wire n s).map Packet.text) := by
    intro t ht
    obtain ⟨p, hp, rfl⟩ := List.mem_map.mp ht
    exact hq p hp
  rw [← h.agree hl k, Replica.after_idle hidle]

/-! ## What is posted -/

variable [DecidableEq N]

section

variable {links : N → Uuid → Option (N × Uuid)} {n m j : N} {tag : Nat} {es : List Effect}
  {s s' : Uuid}

theorem posted_eq (h : links m s = some (n, s')) :
    posted links n tag es m s = (textsTo s' es).map (Packet.mk tag) := by
  simp [posted, h]

theorem posted_ne (h : links m s = some (j, s')) (hj : j ≠ n) :
    posted links n tag es m s = [] := by
  simp [posted, h, hj]

theorem mem_posted {p : Packet} (h : p ∈ posted links n tag es m s) :
    p.tag = tag ∧ ∃ s', links m s = some (n, s') ∧ p.text ∈ textsTo s' es := by
  unfold posted at h
  split at h
  · rename_i i t hl
    split at h
    · rename_i hi
      subst hi
      obtain ⟨text, ht, rfl⟩ := List.mem_map.mp h
      exact ⟨rfl, t, hl, ht⟩
    · cases h
  · cases h

theorem map_text_packets (ts : List Text) :
    (ts.map (Packet.mk tag)).map Packet.text = ts := by
  rw [List.map_map]
  exact List.map_id ts

end

/-! ## The events of a client -/

/-- A handler of a client of node `n` keeps the invariant. -/
theorem Inv.of_clientEvent (h : X.Inv) {n : N} {c : Uuid} {w : World} {u : Option (Key × Bool)}
    (he : ClientEvent (X.node n) w c u) {home : Uuid → Option N}
    (hmono : ∀ d m, X.home d = some m → home d = some m) (hc : home c = some n)
    (tag tags : Nat) : Inv { X.perform n tag w with home := home, tags := tags } := by
  have hnode := X.perform_node n tag w
  have hid := X.perform_id n tag he.id
  have hrow : ∀ m s k, ((X.perform n tag w).node m).Holds s k →
      (X.node m).Holds s k ∨ (m = n ∧ s = (X.node n).id ∧ u = some (k, true)) := by
    intro m s k hh
    rw [hnode] at hh
    split at hh
    · rename_i hm
      rw [he.holds] at hh
      split at hh
      · rename_i hs
        rcases Replica.of_update hh with hu | hh
        · exact Or.inr ⟨hm, hs, hu⟩
        · exact Or.inl (hm ▸ hh)
      · exact Or.inl (hm ▸ hh)
    · exact Or.inl hh
  refine ⟨h.mesh.congr rfl hid fun m s hk => ?_, fun {m s k} hh => ?_, fun {m s p} hp => ?_,
    fun {m s j s'} hl k => ?_⟩
  · simp only [hnode]
    split
    · rename_i hm
      rw [he.sessions, ← hm]
      exact hk
    · exact hk
  · have howner : ∀ d, X.Owner m s d →
        Owner { X.perform n tag w with home := home, tags := tags } m s d := by
      rintro d (⟨hs, hd⟩ | ⟨j, s', hl, hd⟩)
      · exact Or.inl ⟨hs.trans (hid m).symm, hmono _ _ hd⟩
      · exact Or.inr ⟨j, s', hl, hmono _ _ hd⟩
    rcases hrow m s k hh with hh | ⟨rfl, hs, hu⟩
    · exact howner _ (h.rows hh)
    · exact Or.inl ⟨hs.trans (hid m).symm, by rw [he.about k true hu]; exact hc⟩
  · rcases List.mem_append.mp hp with hp | hp
    · obtain ⟨j, s', hl, hd⟩ := h.wires hp
      exact ⟨j, s', hl, fun k b hu => hmono _ _ (hd k b hu)⟩
    · obtain ⟨-, s', hl, ht⟩ := mem_posted hp
      refine ⟨n, s', hl, fun k b hu => ?_⟩
      rw [he.texts s' s _ ht] at hu
      rw [he.about k b hu]
      exact hc
  · change X.links m s = some (j, s') at hl
    have hleft : ((X.perform n tag w).node m).Holds s k ↔ (X.node m).Holds s k := by
      rw [hnode]
      split
      · rename_i hm
        subst hm
        rw [he.holds, if_neg (h.mesh.fresh hl)]
      · exact Iff.rfl
    have hagree := h.agree hl k
    simp only [perform, List.map_append, Replica.after_append]
    change (Replica.after _ k (Replica.after _ k (((X.perform n tag w).node m).Holds s k) _) _) ↔
      ((X.perform n tag w).node j).Holds ((X.perform n tag w).node j).id k
    rw [hid, propext hleft]
    by_cases hj : j = n
    · subst hj
      rw [posted_eq hl, map_text_packets, he.after (h.mesh.known (h.mesh.symm hl)), propext hagree,
        hnode, if_pos rfl, he.holds, if_pos rfl]
    · rw [posted_ne hl hj, hnode, if_neg hj]
      exact hagree

/-! ## The events of a session -/

theorem mem_take {n m : N} {s s' : Uuid} {i : Nat} {p : Packet}
    (h : p ∈ (X.take n s i).wire m s') : p ∈ X.wire m s' := by
  simp only [take] at h
  split at h
  · exact List.mem_of_mem_eraseIdx h
  · exact h

theorem take_wire_ne {n m : N} {s s' : Uuid} {i : Nat} (h : ¬ (m = n ∧ s' = s)) :
    (X.take n s i).wire m s' = X.wire m s' := by
  simp [take, h]

/-- A handler of a session keeps the invariant when it reads the first text. -/
theorem Inv.of_sessionEvent (h : X.Inv) {n : N} {s : Uuid} {p : Packet} {w : World}
    (hp : (X.wire n s)[0]? = some p) (he : SessionEvent (X.node n) w s p.text) (tag : Nat) :
    Inv ((X.take n s 0).perform n tag w) := by
  have hnode : ∀ m, ((X.take n s 0).perform n tag w).node m =
      if m = n then w.state else X.node m := (X.take n s 0).perform_node n tag w
  have hid : ∀ m, (((X.take n s 0).perform n tag w).node m).id = (X.node m).id :=
    (X.take n s 0).perform_id n tag he.id
  have hmem : p ∈ X.wire n s := List.mem_of_getElem? hp
  obtain ⟨i, s', hlink, howns⟩ := h.wires hmem
  refine ⟨h.mesh.congr rfl hid fun m x hk => ?_, fun {m x k} hh => ?_, fun {m x p'} hp' => ?_,
    fun {m x j x'} hl k => ?_⟩
  · rw [hnode]
    split
    · rename_i hm
      rw [hm] at hk
      exact he.sessions x hk
    · exact hk
  · have howner : ∀ {d}, X.Owner m x d → Owner ((X.take n s 0).perform n tag w) m x d := by
      rintro d (⟨hx, hd⟩ | ho)
      · exact Or.inl ⟨hx.trans (hid m).symm, hd⟩
      · exact Or.inr ho
    rw [hnode] at hh
    split at hh
    · rename_i hm
      subst hm
      by_cases hx : x = s
      · subst hx
        rw [he.holds] at hh
        rcases Replica.of_update hh with hu | hh
        · exact howner (Or.inr ⟨i, s', hlink, howns _ _ hu⟩)
        · exact howner (h.rows hh)
      · exact howner (h.rows ((he.others x hx k).mp hh))
    · exact howner (h.rows hh)
  · rcases List.mem_append.mp hp' with hp' | hp'
    · exact h.wires (mem_take hp')
    · obtain ⟨-, x', hl, ht⟩ := mem_posted hp'
      refine ⟨n, x', hl, fun k b hu => ?_⟩
      obtain ⟨-, hh⟩ := he.texts x' x _ ht k b hu
      rcases h.rows hh with ⟨-, hd⟩ | ⟨j, y, hlj, -⟩
      · exact hd
      · exact absurd rfl (h.mesh.fresh hlj)
  · change X.links m x = some (j, x') at hl
    have hl' : (X.take n s 0).links m x = some (j, x') := hl
    have hagree := h.agree hl k
    simp only [perform, List.map_append, Replica.after_append]
    change Replica.after _ k (Replica.after _ k
        ((((X.take n s 0).perform n tag w).node m).Holds x k) _) _ ↔
      (((X.take n s 0).perform n tag w).node j).Holds
        (((X.take n s 0).perform n tag w).node j).id k
    rw [hid]
    by_cases hm : m = n
    · subst hm
      have hj : j ≠ m := fun hj => h.mesh.irrefl hl hj.symm
      rw [hnode, hnode, if_pos rfl, if_neg hj]
      rw [posted_ne hl' hj, List.map_nil, Replica.after_nil]
      by_cases hx : x = s
      · -- the text that was read leaves the wire and is applied
        subst hx
        cases hq : X.wire m x with
        | nil => simp [hq] at hp
        | cons p' q =>
          rw [hq] at hp hagree
          cases hp
          rw [propext (he.holds k)]
          simpa [take, hq] using hagree
      · rw [propext (he.others x hx k), take_wire_ne (fun hc => hx hc.2)]
        exact hagree
    · rw [hnode m, if_neg hm, take_wire_ne (fun hc => hm hc.1)]
      by_cases hj : j = n
      · -- what the node posts repeats its rows
        subst hj
        rw [posted_eq hl', map_text_packets, hnode, if_pos rfl,
          he.others _ (h.mesh.fresh hlink).symm]
        exact he.after x' x hagree
      · rw [posted_ne hl' hj, hnode, if_neg hj]
        exact hagree

/-! ## Steps and runs -/

/-- **The invariant holds after every step of a cluster whose sessions deliver in order.** -/
theorem Inv.of_step (h : X.Inv) {a : Action N} (ho : InOrder a) (hs : X.step a = some Y) :
    Y.Inv := by
  cases a with
  | connect n c env =>
    obtain ⟨hnew, w, hw, rfl⟩ := step_connect.mp hs
    refine h.of_clientEvent (clientEvent_connect (h.rows_of_new hnew n) hw) (fun d m hd => ?_)
      (by simp) _ _
    rw [Function.update_of_ne]
    · exact hd
    · rintro rfl
      rw [hnew] at hd
      cases hd
  | request n c frame env =>
    obtain ⟨hlocal, w, hw, rfl⟩ := step_request.mp hs
    obtain ⟨u, he⟩ := clientEvent_request hw
    exact h.of_clientEvent he (fun _ _ => id) (h.home_of_local hlocal) _ _
  | disconnect n c env =>
    obtain ⟨hlocal, w, hw, rfl⟩ := step_disconnect.mp hs
    exact h.of_clientEvent (clientEvent_disconnect (h.rows_of_local hlocal) hw)
      (fun _ _ => id) (h.home_of_local hlocal) _ _
  | deliver n s i env =>
    obtain ⟨p, hp, w, hw, rfl⟩ := step_deliver.mp hs
    cases ho
    exact h.of_sessionEvent hp (sessionEvent (h.text_owner (List.mem_of_getElem? hp)) hw) p.tag

/-- **The invariant holds after every run.** -/
theorem Inv.of_run (h : X.Inv) {as : List (Action N)} (ho : ∀ a ∈ as, InOrder a)
    (hr : Run.exec step X as = some Y) : Y.Inv :=
  Run.exec_invariant_along (fun hI hC hs => hI.of_step hC hs) h
    (Run.along_of_forall X ho) hr

end Cluster

end Aewt
