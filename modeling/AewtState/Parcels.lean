import AewtState.Draining
import AewtState.Parted
import Mathlib.Algebra.Order.Group.Multiset

/-!
# What the strands carry, beside a cluster

A handler of the strands sends one text after another while others run; a handler of a cluster
sends them at once.  What is on its way on one side is compared with what is on its way on the
other, up to the order.

* `Parcel` — a text with the request that caused it; a tag of the cluster stands for a request.
* `Scene.coming` — what all running handlers have still to send on a strand.
* `Picture.Open` — the client of a connection that has not failed is stored.
* `Refines` — the stores are the same, and what a wire of the cluster carries, or its log says, is
  up to the order what is on its way, or was sent or dropped, and what is coming.
* `Owed` — what is due on a strand is due in the cluster.
* `Keyed` — a request is read once, so no two tags stand for it.

Principal results: `Refines.perform` — a handler that starts on a strand runs at once in the
cluster; `Refines.sends` — what it sends then changes nothing there; `Keyed.take` — the tag of a
request is new when it is read.
-/

set_option autoImplicit false

namespace Aewt

/-- The request that caused something, by the client's strand and its number there. -/
def Origin.request {N : Type} (o : Origin N) : Strand N × Nat := (o.client, o.index)

namespace Fleet

variable {N : Type}

/-- A text with the request that caused it, if one did. -/
abbrev Parcel (N : Type) := Option (Strand N × Nat) × Text

def parcel (x : Traced N Text) : Parcel N := (x.origin.map Origin.request, x.value)

def parcel? (f : Traced N Frame) : Option (Parcel N) :=
  f.value.text?.map (Prod.mk (f.origin.map Origin.request))

/-- A text with which `client::on_accept` welcomes the client. -/
def IsWelcome (c : Uuid) (text : Text) : Prop :=
  ∃ env st runAt w, Client.onAccept c runAt (.start env st) = (.ok (), w) ∧
    w.effects = [.client c text]

/-- A client's row is stored as long as its connection waits for something. -/
def Picture.Open (P : Picture N) : Prop :=
  ∀ n c, P.home c = some n → P.op c ≠ none → ⟨c, (P.node n).id⟩ ∈ (P.node n).clients

/-- Each frame of a client has its own number, and what was read has smaller ones: no two tags of
the cluster stand for one request. -/
structure Keyed (S : Scene N) (tags : Nat) (key : Nat → Option (Strand N × Nat)) : Prop where
  frames : ∀ n c, ∀ f ∈ S.mail (.client n c), ∃ i < S.issued (.client n c),
    f.origin = some ⟨.client n c, i, 0⟩
  order : ∀ n c, (S.mail (.client n c)).Pairwise fun f g =>
    ∀ o p, f.origin = some o → g.origin = some p → o.index < p.index
  read : ∀ k < tags, ∀ t i, key k = some (t, i) → t.context = .onClient ∧ i < S.issued t ∧
    ∀ f ∈ S.mail t, ∀ o, f.origin = some o → i < o.index
  once : ∀ k < tags, ∀ k' < tags, ∀ x, key k = some x → key k' = some x → k = k'

variable [DecidableEq N]

/-- What a handler on `t` that sends `es` sends on `u`. -/
def texts (t u : Strand N) (es : List Effect) : List Text :=
  es.filterMap fun e => (e.destination t.node).bind fun d => if d.1 = u then some d.2 else none

def toward (t u : Strand N) (es : List (Traced N Effect)) : List (Parcel N) :=
  es.filterMap fun e => (e.value.destination t.node).bind fun d =>
    if d.1 = u then some (e.origin.map Origin.request, d.2) else none

/-- What the running handlers have still to send on `u`. -/
noncomputable def Scene.coming (S : Scene N) (u : Strand N) : Multiset (Parcel N) :=
  ∑ᶠ t, (toward t u (S.waiting t) : Multiset (Parcel N))

/-- What a cluster has sent to a client of a node. -/
def told (key : Nat → Option (Strand N × Nat)) (Y : Cluster N) (n : N) (c : Uuid) :
    List (Parcel N) :=
  Y.log.filterMap fun e => if e.node = n ∧ e.client = c then some (key e.tag, e.text) else none

variable (G : Topology N)

/-- The cluster, a tag of which stands for the request `key`, is what the nodes are when every
handler sends at once. -/
structure Refines (key : Nat → Option (Strand N × Nat)) (S : Scene N) (Y : Cluster N) : Prop where
  links : Y.links = G.links
  node : Y.node = S.node
  home : Y.home = S.home
  wire : ∀ {n s m s'}, G.links n s = some (m, s') →
    ((Y.wire n s).map fun p => (key p.tag, p.text) : Multiset (Parcel N)) =
      (S.mail (.session n s)).filterMap parcel? + S.coming (.session m s')
  log : ∀ n c, ∃ W : Multiset (Parcel N), (∀ x ∈ W, x.1 = none ∧ IsWelcome c x.2) ∧
    (told key Y n c : Multiset (Parcel N)) + W =
      (S.sent (.client n c)).map parcel + (S.dropped (.client n c)).map parcel +
        S.coming (.client n c)

omit [DecidableEq N] in
/-- What is due on a strand is due in the cluster, under the tag of the request. -/
def Owed (key : Nat → Option (Strand N × Nat)) (S : Scene N) (Y : Parted N) : Prop :=
  ∀ t p, S.due t = some p → ∃ k i, key k = some (t, i) ∧
    p.origin.map Origin.request = some (t, i) ∧ Y.due k = some (t.node, p.value)

/-- The cluster before any handler ran. -/
def cluster (X : Fleet N) : Parted N where
  cluster := {
    links := G.links
    node := X.node
    wire := fun _ _ => []
    log := []
    tags := 0
    home := X.home }

variable {G} {S T : Scene N} {P Q : Picture N} {Y : Cluster N} {t u : Strand N}
  {key : Nat → Option (Strand N × Nat)}

/-! ## What is coming -/

@[simp] theorem toward_nil : toward t u [] = [] := rfl

theorem toward_append (es fs : List (Traced N Effect)) :
    toward t u (es ++ fs) = toward t u es ++ toward t u fs :=
  List.filterMap_append

theorem texts_append (es fs : List Effect) : texts t u (es ++ fs) = texts t u es ++ texts t u fs :=
  List.filterMap_append

theorem toward_mk (o : Option (Origin N)) (es : List Effect) :
    toward t u (es.map (Traced.mk o)) = (texts t u es).map (Prod.mk (o.map Origin.request)) := by
  simp only [toward, texts, List.filterMap_map, List.map_filterMap]
  refine List.filterMap_congr fun e _ => ?_
  cases h : e.destination t.node with
  | none => simp [h]
  | some d => by_cases hd : d.1 = u <;> simp [h, hd]

theorem toward_caused (o : Option (Origin N)) (es : List Effect) :
    toward t u (Network.caused o es) = (texts t u es).map (Prod.mk (o.map Origin.request)) := by
  have horigin : (o.map Origin.next).map Origin.request = o.map Origin.request := by
    cases o <;> rfl
  rw [Network.caused, toward_mk, horigin]

theorem texts_session {m : N} {s : Uuid} : ∀ es : List Effect,
    texts t (.session m s) es = if t.node = m then textsTo s es else []
  | [] => by simp [textsTo, texts]
  | e :: es => by
    have ih := texts_session (m := m) (s := s) es
    have hcons : texts t (.session m s) (e :: es) =
        texts t (.session m s) [e] ++ texts t (.session m s) es := texts_append [e] es
    have htexts : textsTo s (e :: es) = textsTo s [e] ++ textsTo s es := textsTo_append s [e] es
    have hone : texts t (.session m s) [e] = if t.node = m then textsTo s [e] else [] := by
      cases e with
      | client c text => simp [texts, Effect.destination, textsTo]
      | dial d host port => simp [texts, Effect.destination, textsTo]
      | session x text =>
        by_cases hm : t.node = m <;> by_cases hx : x = s <;>
          simp [texts, Effect.destination, textsTo, hm, hx]
    rw [hcons, htexts, ih, hone]
    split <;> rfl

theorem support_toward (hfin : {t | S.waiting t ≠ []}.Finite) (u : Strand N) :
    (Function.support fun v => (toward v u (S.waiting v) : Multiset (Parcel N))).Finite := by
  refine hfin.subset fun v hv hnil => hv ?_
  simp [hnil]

/-- A handler starts: what it will send is coming. -/
theorem coming_starts {w : World} (o : Option (Origin N)) (hidle : S.waiting t = [])
    (hfin : {t | S.waiting t ≠ []}.Finite) : (S.starts t o w).coming u =
      S.coming u + (texts t u w.effects).map (Prod.mk (o.map Origin.request)) := by
  have hswap := Run.finsum_swap
    (g := fun v => (toward v u ((S.starts t o w).waiting v) : Multiset (Parcel N)))
    (support_toward hfin u) t fun v hv => by
      simp [Scene.starts, Scene.awaits, Function.update_of_ne hv]
  simp only [Scene.starts, Scene.awaits, Function.update_self, hidle, toward_nil, toward_caused]
    at hswap
  simpa [Scene.coming, Scene.starts, Scene.awaits] using hswap

/-- A handler sends a text: it is no longer coming. -/
theorem coming_sends {e : Traced N Effect} {es : List (Traced N Effect)}
    (ht : S.waiting t = e :: es) (hfin : {t | S.waiting t ≠ []}.Finite) :
    S.coming u = (S.sends G t e es).coming u + toward t u [e] := by
  have hswap := Run.finsum_swap
    (g := fun v => (toward v u ((S.sends G t e es).waiting v) : Multiset (Parcel N)))
    (support_toward hfin u) t fun v hv => by simp [Function.update_of_ne hv]
  have hcons : toward t u (e :: es) = toward t u [e] ++ toward t u es := toward_append [e] es
  simp only [Scene.sends_waiting, Function.update_self, ht, hcons, ← Multiset.coe_add] at hswap
  rw [← add_assoc] at hswap
  simpa [Scene.coming] using (add_right_cancel hswap).symm

/-! ## What the cluster does -/

variable (key) in
theorem told_perform (tag : Nat) (w : World) (n : N) (c : Uuid) :
    told key (Y.perform t.node tag w) n c =
      told key Y n c ++ (texts t (.client n c) w.effects).map (Prod.mk (key tag)) := by
  have hsent : ∀ es : List Effect, ((clientTexts es).map fun e =>
      (⟨t.node, e.1, tag, e.2⟩ : Sent N)).filterMap
        (fun e => if e.node = n ∧ e.client = c then some (key e.tag, e.text) else none) =
      (texts t (.client n c) es).map (Prod.mk (key tag)) := by
    intro es
    induction es with
    | nil => rfl
    | cons e es ih =>
      have hcons : texts t (.client n c) (e :: es) =
          texts t (.client n c) [e] ++ texts t (.client n c) es := texts_append [e] es
      have hclient : clientTexts (e :: es) = clientTexts [e] ++ clientTexts es :=
        clientTexts_append [e] es
      rw [hclient, List.map_append, List.filterMap_append, ih, hcons, List.map_append]
      congr 1
      cases e with
      | session s text => simp [clientTexts, texts, Effect.destination]
      | dial d host port => simp [clientTexts, texts, Effect.destination]
      | client d text =>
        by_cases hn : t.node = n <;> by_cases hd : d = c <;>
          simp [clientTexts, texts, Effect.destination, hn, hd]
  simp only [told, Cluster.perform, List.filterMap_append, hsent]

theorem wire_perform (hlinks : Y.links = G.links) (tag : Nat) (w : World) {m j : N} {y y' : Uuid}
    (hl : G.links m y = some (j, y')) :
    ((Y.perform t.node tag w).wire m y).map (fun p => (key p.tag, p.text)) =
      (Y.wire m y).map (fun p => (key p.tag, p.text)) ++
        (texts t (.session j y') w.effects).map (Prod.mk (key tag)) := by
  have hl' : Y.links m y = some (j, y') := by rw [hlinks]; exact hl
  simp only [Cluster.perform, List.map_append, texts_session]
  by_cases hj : j = t.node
  · subst hj
    rw [Cluster.posted_eq hl', List.map_map, if_pos rfl]
    rfl
  · rw [Cluster.posted_ne hl' hj, if_neg (Ne.symm hj)]
    rfl

/-- A handler that starts on the strands runs to its end in the cluster. -/
theorem Refines.perform (h : Refines G key S Y) (hidle : S.waiting t = [])
    (hfin : {t | S.waiting t ≠ []}.Finite) {o : Option (Origin N)} {tag : Nat}
    (htag : key tag = o.map Origin.request) (tags : Nat) (w : World)
    (op : Uuid → Option Op) {home home' : Uuid → Option N} (hhome : home' = home) :
    Refines G key { S.starts t o w with op := op, home := home }
      { Y.perform t.node tag w with home := home', tags := tags } where
  links := h.links
  node := by
    have hnode := h.node
    simp only [Cluster.perform, Scene.starts, hnode]
  home := hhome
  wire {n s m s'} hl := by
    have hwire := h.wire hl
    have hcoming := coming_starts (u := .session m s') o hidle hfin (w := w)
    refine (congrArg _ (wire_perform h.links tag w hl)).trans ?_
    rw [← Multiset.coe_add, hwire, add_assoc, htag]
    exact congrArg _ hcoming.symm
  log n c := by
    obtain ⟨W, hW, hlog⟩ := h.log n c
    refine ⟨W, hW, ?_⟩
    have hcoming := coming_starts (u := .client n c) o hidle hfin (w := w)
    have htold := congrArg (fun l : List (Parcel N) => (l : Multiset (Parcel N)))
      (told_perform key (Y := Y) (t := t) tag w n c)
    refine (congrArg (· + W) htold).trans ?_
    simp only [← Multiset.coe_add]
    rw [add_right_comm, hlog, add_assoc, htag]
    exact congrArg _ hcoming.symm

/-- A tag that was not given out may stand for anything. -/
theorem Refines.rekey (h : Refines G key S Y) (hf : Y.Fresh)
    (key' : Nat → Option (Strand N × Nat)) (hkey : ∀ k < Y.tags, key' k = key k) :
    Refines G key' S Y where
  links := h.links
  node := h.node
  home := h.home
  wire {n s m s'} hl := by
    rw [← h.wire hl]
    refine congrArg _ (List.map_congr_left fun p hp => ?_)
    rw [hkey p.tag (hf.wire n s p hp)]
  log n c := by
    obtain ⟨W, hW, hlog⟩ := h.log n c
    refine ⟨W, hW, ?_⟩
    have htold : told key' Y n c = told key Y n c :=
      List.filterMap_congr fun e he => by rw [hkey e.tag (hf.log e he)]
    rw [htold]
    exact hlog

/-- A text that is sent to a client is written in the end, or dropped. -/
theorem sends_client (S : Scene N) (t u : Strand N) (e : Traced N Effect)
    (es : List (Traced N Effect)) :
    (((S.sends G t e es).sent u).map parcel : Multiset (Parcel N)) +
        ((S.sends G t e es).dropped u).map parcel =
      (S.sent u).map parcel + (S.dropped u).map parcel + toward t u [e] := by
  have hpush : ∀ (f : Strand N → List (Traced N Text)) (v : Strand N) (x : Traced N Text),
      ((push f v x u).map parcel : Multiset (Parcel N)) =
        (f u).map parcel + (if u = v then [parcel x] else [] : List (Parcel N)) := by
    intro f v x
    by_cases hu : u = v
    · subst hu
      simp [← Multiset.coe_add]
    · simp [push_of_ne _ _ _ hu, hu]
  unfold Scene.sends Scene.deliver
  cases h : e.value.destination t.node with
  | none => simp [toward, h]
  | some d =>
    have htoward : toward t u [e] = if u = d.1 then [parcel ⟨e.origin, d.2⟩] else [] := by
      by_cases hd : u = d.1
      · subst hd
        simp [toward, h, parcel]
      · simp [toward, h, hd, Ne.symm hd]
    rw [htoward]
    dsimp only
    split
    · rw [hpush, add_right_comm]
    · rw [hpush, add_assoc]

/-- What is sent on a session comes to its other end. -/
theorem sends_mail (S : Scene N) (t : Strand N) (e : Traced N Effect)
    (es : List (Traced N Effect)) {n m : N} {s s' : Uuid} (hl : G.links n s = some (m, s')) :
    ((S.sends G t e es).mail (.session n s)).filterMap parcel? =
      (S.mail (.session n s)).filterMap parcel? ++ toward t (.session m s') [e] := by
  have hpeer := Picture.peer_session hl
  unfold Scene.sends Scene.deliver
  cases h : e.value.destination t.node with
  | none => simp [toward, h]
  | some d =>
    by_cases hd : d.1 = .session m s'
    · have hopen : Scene.IsOpen { S with waiting := Function.update S.waiting t es } d.1 := by
        rw [hd]
        exact fun hc => by cases hc
      simp [toward, h, hd, hpeer, parcel?, Frame.text?, hd ▸ hopen]
    · cases hp : G.peer d.1 with
      | none =>
        simp only [toward, hp]
        split <;> simp [hd, h]
      | some u =>
        have hu : Strand.session n s ≠ u := by
          rintro rfl
          exact hd (Option.some.inj ((G.peer_symm hp).symm.trans (G.peer_symm hpeer)))
        simp only [toward, hp]
        split <;> simp [hd, h, push_of_ne _ _ _ hu]

/-- A text that is sent was coming. -/
theorem Refines.sends (h : Refines G key S Y) {e : Traced N Effect} {es : List (Traced N Effect)}
    (ht : S.waiting t = e :: es) (hfin : {t | S.waiting t ≠ []}.Finite) :
    Refines G key (S.sends G t e es) Y where
  links := h.links
  node := by rw [Scene.sends_node]; exact h.node
  home := by rw [Scene.sends_home]; exact h.home
  wire {n s m s'} hl := by
    rw [h.wire hl, coming_sends (G := G) ht hfin, sends_mail S t e es hl, ← Multiset.coe_add,
      ← add_assoc, add_right_comm]
  log n c := by
    obtain ⟨W, hW, hlog⟩ := h.log n c
    refine ⟨W, hW, ?_⟩
    rw [hlog, coming_sends (G := G) ht hfin, sends_client S t (.client n c) e es, ← add_assoc,
      add_right_comm]

variable (key) in
theorem wire_take {n : N} {s : Uuid} {i : ℕ} {p : Packet} (hi : (Y.wire n s)[i]? = some p) :
    (key p.tag, p.text) ::ₘ
        (((Y.take n s i).wire n s).map fun p => (key p.tag, p.text) : Multiset (Parcel N)) =
      (Y.wire n s).map fun p => (key p.tag, p.text) := by
  obtain ⟨hlt, rfl⟩ := List.getElem?_eq_some_iff.mp hi
  have hperm := (List.getElem_cons_eraseIdx_perm hlt).map fun p => (key p.tag, p.text)
  simpa [Cluster.take] using Multiset.coe_eq_coe.mpr hperm

/-- The first text of the mail of a session is delivered. -/
theorem Refines.take (h : Refines G key S Y) (hp : S.erase.Inv G) {n : N} {s : Uuid}
    {f : Traced N Frame} {fs : List (Traced N Frame)} (hf : S.mail (.session n s) = f :: fs) :
    ∃ i p, f.value = .object p.text ∧ key p.tag = f.origin.map Origin.request ∧
      (Y.wire n s)[i]? = some p ∧
      Refines G key { S with mail := Function.update S.mail (.session n s) fs } (Y.take n s i) := by
  have hmem : f.value ∈ S.erase.mail (.session n s) :=
    List.mem_map_of_mem (by rw [hf]; exact List.mem_cons_self)
  obtain ⟨m, s', text, hl, hvalue, -⟩ := hp.mail hmem
  have hparcel : parcel? f = some (f.origin.map Origin.request, text) := by
    rw [parcel?, hvalue]
    rfl
  have hwire := h.wire hl
  rw [hf, List.filterMap_cons_some hparcel, ← Multiset.cons_coe, Multiset.cons_add] at hwire
  have hin : (f.origin.map Origin.request, text) ∈
      (Y.wire n s).map fun p => (key p.tag, p.text) := by
    rw [← Multiset.mem_coe, hwire]
    exact Multiset.mem_cons_self ..
  obtain ⟨p, hpin, hpf⟩ := List.mem_map.mp hin
  obtain ⟨hkey, rfl⟩ := Prod.mk.inj hpf
  obtain ⟨i, hi⟩ := List.mem_iff_getElem?.mp hpin
  refine ⟨i, p, hvalue, hkey, hi, h.links, h.node, h.home, ?_, h.log⟩
  intro n' x j x' hl'
  by_cases hx : Strand.session n' x = .session n s
  · cases hx
    cases hl.symm.trans hl'
    have htake := wire_take key hi
    rw [hwire, hpf, Multiset.cons_inj_right] at htake
    simpa [Scene.coming] using htake
  · have hne : ¬ (n' = n ∧ x = s) := by
      rintro ⟨rfl, rfl⟩
      exact hx rfl
    have hmail : Function.update S.mail (.session n s) fs (.session n' x) =
        S.mail (.session n' x) := Function.update_of_ne hx _ _
    simp only [Cluster.take_wire_ne hne, h.wire hl', hmail]
    rfl

/-! ## The client of an open connection is stored -/

omit [DecidableEq N] in
theorem keeps_clients {c : Uuid} {f : Frame} {env : Env} {st : State} {w : World}
    (h : Client.onRead c f (.start env st) = (.ok (), w)) : w.state.clients = st.clients := by
  rcases Client.onRead_state h with hs | ⟨command, request, hc, hcc, -, hs⟩
  · rw [hs]
    rfl
  · rw [hs, (outcome_client hcc hc).acts.clients]
    rfl

/-- A handler of a client changes the row of no other client. -/
theorem Open.of_client (ho : P.Open) {n : N} {c : Uuid} {w : World} {u : Option (Key × Bool)}
    (he : ClientEvent (P.node n) w c u) (hnode : Q.node = Function.update P.node n w.state)
    (hop : ∀ d ≠ c, Q.op d = P.op d) (hhome : ∀ d ≠ c, Q.home d = P.home d)
    (hc : Q.home c = some n)
    (hself : Q.op c ≠ none → w.state.Holds (P.node n).id (.client c)) : Q.Open := by
  intro m d hd hne
  by_cases hdc : d = c
  · subst hdc
    cases hc.symm.trans hd
    rw [hnode, Function.update_self, he.id]
    exact hself hne
  · rw [hop d hdc] at hne
    rw [hhome d hdc] at hd
    have hrow := ho m d hd hne
    rw [hnode]
    by_cases hm : m = n
    · subst hm
      rw [Function.update_self, he.id]
      have hholds := he.holds (P.node m).id (.client d)
      have hu : Replica.update u (.client d) ((P.node m).Holds (P.node m).id (.client d)) =
          (P.node m).Holds (P.node m).id (.client d) := by
        cases u with
        | none => rfl
        | some e =>
          refine Replica.update_ne _ fun he' => hdc ?_
          exact he.about (.client d) e.2 (by rw [← he'])
      rw [if_pos rfl, hu] at hholds
      exact hholds.mpr hrow
    · rw [Function.update_of_ne hm]
      exact hrow

/-- **A client's row is stored from its `on_accept` to its failure**, whatever the others do. -/
theorem Open.of_step (ho : P.Open) (h : P.Inv G) (hG : G.Single) {a : Action N}
    (hs : P.Step G a Q) : Q.Open := by
  cases hs with
  | connect fresh idle eq =>
    rename_i n c env w
    have he := clientEvent_connect (h.rows_of_new fresh n) eq
    refine Open.of_client ho he rfl (fun d hd => Function.update_of_ne hd _ _)
      (fun d hd => Function.update_of_ne hd _ _) (Function.update_self ..) fun _ => ?_
    rw [he.holds, if_pos rfl, Replica.update_self]
  | accept home op idle eq =>
    rename_i n c runAt env w
    refine Open.of_client ho (clientEvent_onAccept eq) rfl
      (fun d hd => Function.update_of_ne hd _ _) (fun _ _ => rfl) home fun _ => ?_
    cases eq
    exact ho n c home (by rw [op]; exact Option.some_ne_none _)
  | fail home op idle eq =>
    refine Open.of_client ho (clientEvent_disconnect (h.rows_of_home hG home) eq) rfl
      (fun d hd => Function.update_of_ne hd _ _) (fun _ _ => rfl) home fun hne => ?_
    exact absurd (Function.update_self ..) hne
  | request home => exact ho
  | lookup => exact ho
  | read opened idle mail eq =>
    rename_i t env f fs w
    obtain ⟨n, context, id⟩ := t
    cases context with
    | onClient =>
      obtain ⟨⟨u, he⟩, -⟩ := clientEvent_cut (n := n) eq
      refine Open.of_client ho he rfl (fun _ _ => rfl) (fun _ _ => rfl) (opened rfl).1 fun hne => ?_
      have hrow := ho n id (opened rfl).1 hne
      have hclients : ((Strand.client n id).cut f (P.node n) w).1.state.clients =
          (P.node n).clients := by
        rw [(cut_alone (t := .client n id) eq).1, keeps_clients eq]
      rw [← hclients] at hrow
      exact hrow
    | onSession =>
      rw [cut_of_none (publish?_session ..)]
      obtain ⟨i, s', text, hl, rfl, -⟩ := h.mail (f := f) (by rw [mail]; exact List.mem_cons_self)
      have he := sessionEvent (h.text_owner hG (by rw [mail]; exact List.mem_cons_self)) eq
      intro m d hd hne
      have hrow := ho m d hd hne
      simp only [Picture.starts]
      by_cases hm : m = n
      · subst hm
        rw [Function.update_self, he.id]
        exact (he.others _ (h.fresh hl).symm (.client d)).mpr hrow
      · rw [Function.update_of_ne hm]
        exact hrow
  | announce | post =>
    intro m d hd hne
    rw [Picture.sends_home] at hd
    rw [Picture.sends_op] at hne
    rw [Picture.sends_node]
    exact ho m d hd hne
  | onSend | onWrite => exact ho

/-! ## A request is read once -/

section

variable {tags : Nat}

omit [DecidableEq N] in
/-- The frames of the clients and the tags stay. -/
theorem Keyed.congr (h : Keyed S tags key)
    (hmail : ∀ t : Strand N, t.context = .onClient → T.mail t = S.mail t)
    (hissued : T.issued = S.issued) : Keyed T tags key where
  frames n c := by
    rw [hmail _ rfl, hissued]
    exact h.frames n c
  order n c := by
    rw [hmail _ rfl]
    exact h.order n c
  read k hk t i hx := by
    obtain ⟨ht, hi, hlt⟩ := h.read k hk t i hx
    rw [hmail t ht, hissued]
    exact ⟨ht, hi, hlt⟩
  once := h.once

omit [DecidableEq N] in
/-- A new tag stands for no request, or for one that was read and has no tag. -/
theorem Keyed.tag (h : Keyed S tags key) (x : Option (Strand N × Nat))
    (hx : ∀ t i, x = some (t, i) → t.context = .onClient ∧ i < S.issued t ∧
      (∀ f ∈ S.mail t, ∀ o, f.origin = some o → i < o.index) ∧ ∀ k < tags, key k ≠ some (t, i)) :
    Keyed S (tags + 1) (Function.update key tags x) := by
  have hself : Function.update key tags x tags = x := Function.update_self ..
  have hold : ∀ k < tags, Function.update key tags x k = key k := fun k hk =>
    Function.update_of_ne (Nat.ne_of_lt hk) _ _
  have hcases : ∀ k < tags + 1, k = tags ∨ k < tags := fun k hk => by omega
  refine ⟨h.frames, h.order, fun k hk t i hki => ?_, fun k hk k' hk' y hy hy' => ?_⟩
  · rcases hcases k hk with rfl | hk
    · rw [hself] at hki
      obtain ⟨ht, hi, hlt, -⟩ := hx t i hki
      exact ⟨ht, hi, hlt⟩
    · rw [hold k hk] at hki
      exact h.read k hk t i hki
  · rcases hcases k hk with rfl | hk <;> rcases hcases k' hk' with rfl | hk'
    · rfl
    · rw [hself] at hy
      rw [hold k' hk'] at hy'
      exact absurd hy' ((hx _ _ hy).2.2.2 k' hk')
    · rw [hself] at hy'
      rw [hold k hk] at hy
      exact absurd hy ((hx _ _ hy').2.2.2 k hk)
    · rw [hold k hk] at hy
      rw [hold k' hk'] at hy'
      exact h.once k hk k' hk' y hy hy'

/-- A client sends a frame. -/
theorem Keyed.request (h : Keyed S tags key) (n : N) (c : Uuid) (frame : Frame) : Keyed { S with
    mail := push S.mail (.client n c) ⟨some ⟨.client n c, S.issued (.client n c), 0⟩, frame⟩
    issued := Function.update S.issued (.client n c) (S.issued (.client n c) + 1) } tags key := by
  have hissued : ∀ t, S.issued t ≤
      Function.update S.issued (.client n c) (S.issued (.client n c) + 1) t := by
    intro t
    by_cases ht : t = .client n c
    · subst ht
      rw [Function.update_self]
      exact Nat.le_succ _
    · rw [Function.update_of_ne ht]
  refine ⟨fun m d f hf => ?_, fun m d => ?_, fun k hk t i hx => ?_, h.once⟩
  · rcases (mem_push ..).mp hf with hf | ⟨ht, rfl⟩
    · obtain ⟨i, hi, ho⟩ := h.frames m d f hf
      exact ⟨i, Nat.lt_of_lt_of_le hi (hissued _), ho⟩
    · cases ht
      exact ⟨_, by simp, rfl⟩
  · by_cases ht : Strand.client m d = .client n c
    · cases ht
      simp only [push_self, List.pairwise_append, List.pairwise_singleton, true_and,
        List.mem_singleton]
      refine ⟨h.order n c, fun f hf g hg o p ho hp => ?_⟩
      subst hg
      cases hp
      obtain ⟨i, hi, ho'⟩ := h.frames n c f hf
      cases ho.symm.trans ho'
      exact hi
    · simp only [push_of_ne _ _ _ ht]
      exact h.order m d
  · obtain ⟨ht, hi, hlt⟩ := h.read k hk t i hx
    refine ⟨ht, Nat.lt_of_lt_of_le hi (hissued t), fun f hf o ho => ?_⟩
    rcases (mem_push ..).mp hf with hf | ⟨rfl, rfl⟩
    · exact hlt f hf o ho
    · cases ho
      exact hi

/-- The handler of a client takes the first frame. -/
theorem Keyed.take (h : Keyed S tags key) {n : N} {c : Uuid} {f : Traced N Frame}
    {fs : List (Traced N Frame)} (hf : S.mail (.client n c) = f :: fs) :
    ∃ i, f.origin = some ⟨.client n c, i, 0⟩ ∧
      Keyed { S with mail := Function.update S.mail (.client n c) fs } (tags + 1)
        (Function.update key tags (some (.client n c, i))) := by
  obtain ⟨i, hi, ho⟩ := h.frames n c f (by rw [hf]; exact List.mem_cons_self)
  have horder := h.order n c
  rw [hf, List.pairwise_cons] at horder
  have hsub : ∀ t, ∀ g ∈ Function.update S.mail (.client n c) fs t, g ∈ S.mail t := by
    intro t g hg
    by_cases ht : t = .client n c
    · subst ht
      rw [Function.update_self] at hg
      rw [hf]
      exact List.mem_cons_of_mem _ hg
    · rwa [Function.update_of_ne ht] at hg
  have hrest : Keyed { S with mail := Function.update S.mail (.client n c) fs } tags key := by
    refine ⟨fun m d g hg => h.frames m d g (hsub _ g hg), fun m d => ?_, fun k hk t j hx => ?_,
      h.once⟩
    · by_cases ht : Strand.client m d = .client n c
      · cases ht
        simp only [Function.update_self]
        exact horder.2
      · simp only [Function.update_of_ne ht]
        exact h.order m d
    · obtain ⟨ht, hj, hlt⟩ := h.read k hk t j hx
      exact ⟨ht, hj, fun g hg => hlt g (hsub t g hg)⟩
  refine ⟨i, ho, hrest.tag _ fun t j hx => ?_⟩
  cases hx
  refine ⟨rfl, hi, fun g hg o hgo => ?_, fun k hk hx => ?_⟩
  · simp only [Function.update_self] at hg
    exact horder.1 g hg _ o ho hgo
  · have hlt := (h.read k hk _ _ hx).2.2 f (by rw [hf]; exact List.mem_cons_self) _ ho
    exact Nat.lt_irrefl _ hlt

end

theorem sends_mail_client (S : Scene N) (t : Strand N) (e : Traced N Effect)
    (es : List (Traced N Effect)) {u : Strand N} (hu : u.context = .onClient) :
    (S.sends G t e es).mail u = S.mail u := by
  unfold Scene.sends Scene.deliver
  cases e.value.destination t.node with
  | none => rfl
  | some d =>
    dsimp only
    split
    · cases hp : G.peer d.1 with
      | none => rfl
      | some v =>
        refine push_of_ne _ _ _ ?_
        rintro rfl
        have hc := G.context_of_peer (G.peer_symm hp)
        rw [hu] at hc
        cases hc
    · rfl

end Fleet

end Aewt
