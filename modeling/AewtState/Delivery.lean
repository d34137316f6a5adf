import AewtState.Agreement
import Mathlib.Data.List.Perm.Basic
import Mathlib.Data.Fintype.Basic

/-!
# A message that is fanned out reaches every client once

A broadcast or publish of a client is sent to the other local clients and, as one text, to
some sessions; each receiving node sends it to its own clients.

* `Fanout` — a text that every node answers and passes on to its clients other than `c`.
* `pending`, `count` — the copies in flight and the copies that a client was sent, of the
  texts caused by one request; acknowledgements do not count.
* `Spread` — every node that was sent the text either has it in flight, or has sent it once to
  each of its clients.

Principal results: `Spread.of_run` — as long as the clients stay the same, any order of
deliveries and other events keeps it; `Spread.delivered` — when no copy is in flight, every
client was sent the text exactly once.
-/

set_option autoImplicit false

namespace Aewt

/-- The text is read as an acknowledgement. -/
def acknowledges (text : Text) : Bool :=
  match decode text .onSession Uuid.nil with
  | .ok (.accepted _ .ack) => true
  | _ => false

/-- Reading in context `onSession` does not depend on the session. -/
theorem decode_session_congr (data : Object) (s s' : Uuid) :
    decode data .onSession s = decode data .onSession s' := rfl

theorem acknowledges_iff {text : Text} : acknowledges text = true ↔
    ∀ s, ∃ t, decode text .onSession s = .ok (.accepted t .ack) := by
  constructor
  · intro h s
    rw [decode_session_congr text s Uuid.nil]
    unfold acknowledges at h
    split at h
    · rename_i t hd
      exact ⟨t, hd⟩
    · cases h
  · intro h
    obtain ⟨t, ht⟩ := h Uuid.nil
    simp [acknowledges, ht]

theorem acknowledges_success (t : Uuid) (message : String) (timestamp runtime : Int64)
    (data : Object) :
    acknowledges (serialize (successData t message timestamp runtime data)) = true :=
  acknowledges_iff.mpr fun s => ⟨t, decode_success t s message timestamp runtime data⟩

/-- A text about a row is no acknowledgement. -/
theorem acknowledges_of_update {s : Uuid} {text : Text} {u : Key × Bool}
    (h : updateOf s text = some u) : acknowledges text = false := by
  rw [Bool.eq_false_iff]
  intro ha
  obtain ⟨t, ht⟩ := acknowledges_iff.mp ha s
  rw [updateOf_accepted ht] at h
  cases h

/-- One text to each of the node's clients other than `c`. -/
def toClients (st : State) (c : Uuid) (T : Text) : List Effect :=
  (otherClients st st.id c).map fun d => .client d.id T

/-- A text that a node passes on to its clients other than `c`. -/
structure Fanout (T : Text) (c : Uuid) : Prop where
  command : ∃ t command, (∀ s, decode T .onSession s = .ok (.accepted t command)) ∧
    command ≠ .ack ∧ ∀ w request, request.context = .onSession → request.transactionId = t →
      (outcome w request command).state = w.state ∧
      (outcome w request command).effects = toClients w.state c T

theorem Fanout.not_acknowledges {T : Text} {c : Uuid} (h : Fanout T c) :
    acknowledges T = false := by
  obtain ⟨t, command, hd, hne, -⟩ := h.command
  rw [Bool.eq_false_iff]
  intro ha
  obtain ⟨t', ht'⟩ := acknowledges_iff.mp ha Uuid.nil
  rw [hd] at ht'
  cases ht'
  exact hne rfl

theorem fanout_broadcast (t c : Uuid) (payload : Object) :
    Fanout (serialize (requestObject t "broadcast" (broadcastParams c payload))) c := by
  have hb := built_requestObject t "broadcast" (broadcastParams c payload)
  refine ⟨t, .broadcast c payload.wire, fun s => decode_broadcast hb, by simp, ?_⟩
  rintro w request hctx rfl
  refine ⟨rfl, ?_⟩
  simp only [outcome, relayed, hctx, List.append_nil, toOthersClients, toClients,
    makeBroadcastRequestObject, serialize, requestObject, broadcastParams]
  simp

theorem fanout_publish (t c : Uuid) (ch : String) (payload : Object) :
    Fanout (serialize (requestObject t "publish" (publishParams c ch payload))) c := by
  have hb := built_requestObject t "publish" (publishParams c ch payload)
  refine ⟨t, .publish c ch payload.wire, fun s => decode_publish hb, by simp, ?_⟩
  rintro w request hctx rfl
  refine ⟨rfl, ?_⟩
  simp only [outcome, relayed, hctx, List.append_nil, toOthersClients, toClients,
    makePublishRequestObject, serialize, requestObject, publishParams]
  simp

/-- A node that reads the text passes it on and acknowledges it. -/
theorem Fanout.onRead {T : Text} {c : Uuid} (h : Fanout T c) {s : Uuid} {env : Env}
    {st : State} {w : World}
    (hr : Session.onRead s (.object T) (.start env st) = (.ok (), w)) :
    w.state = st ∧ ∃ replies : List Text,
      w.effects = toClients st c T ++ replies.map (Effect.session s) ∧
      ∀ reply ∈ replies, acknowledges reply = true := by
  obtain ⟨t, command, hd, -, ho⟩ := h.command
  cases sessionRead s T (.start env st) with
  | raised e w' eq =>
    rw [eq] at hr
    cases hr
  | rejected t' field message reply w' decoded eq state effects isReply =>
    rw [hd] at decoded
    cases decoded
  | accepted t' command' request replies w' decoded transactionId entityId context eq state
      effects successes =>
    rw [eq] at hr
    cases hr
    rw [hd] at decoded
    cases decoded
    obtain ⟨hs, he⟩ := ho (.start env st) request context transactionId
    rw [he] at effects
    refine ⟨by rw [state, hs]; rfl, replies, effects, fun reply hreply => ?_⟩
    obtain ⟨message, timestamp, runtime, d, rfl⟩ := successes reply hreply
    exact acknowledges_success t message timestamp runtime d

/-- A node that reads an acknowledgement does nothing. -/
theorem onRead_acknowledges {text : Text} (ha : acknowledges text = true) {s : Uuid} {env : Env}
    {st : State} {w : World}
    (hr : Session.onRead s (.object text) (.start env st) = (.ok (), w)) :
    w.state = st ∧ w.effects = [] := by
  obtain ⟨t, ht⟩ := acknowledges_iff.mp ha s
  obtain ⟨v, runtime, hk, hs, he, -⟩ :=
    kernel_accepted (World.ticked (.start env st)) text .onSession s ht (by simp)
  rw [Session.onRead_of_kernel hk] at hr
  cases hr
  refine ⟨hs, ?_⟩
  rw [World.emit_effects, he]
  rfl

namespace Cluster

variable {N : Type} [DecidableEq N] {X Y : Cluster N}

/-- A copy of what request `k` fanned out. -/
def isPending (k : Nat) (p : Packet) : Bool := p.tag = k ∧ acknowledges p.text = false

/-- The copies in flight to a session end. -/
def pending (X : Cluster N) (k : Nat) (m : N) (s : Uuid) : Nat :=
  (X.wire m s).countP (isPending k)

def isCount (k : Nat) (m : N) (d : Uuid) (e : Sent N) : Bool :=
  e.node = m ∧ e.client = d ∧ e.tag = k ∧ acknowledges e.text = false

/-- How often client `d` of node `m` was sent a copy. -/
def count (X : Cluster N) (k : Nat) (m : N) (d : Uuid) : Nat := X.log.countP (isCount k m d)

/-- Every client of node `m` other than `c` was sent one copy, and nobody else. -/
def Once (X : Cluster N) (k : Nat) (c : Uuid) (m : N) : Prop :=
  ∀ d, X.count k m d = if X.Local m d ∧ d ≠ c then 1 else 0

/-- The request `k` of client `c` at node `n` fanned out `T` to the sessions in `R`. -/
structure Spread (X : Cluster N) (k : Nat) (T : Text) (n : N) (c : Uuid) (R : Uuid → Prop) :
    Prop where
  below : k < X.tags
  text : ∀ m s, ∀ p ∈ X.wire m s, p.tag = k → acknowledges p.text = false → p.text = T
  logged : ∀ e ∈ X.log, e.tag = k → acknowledges e.text = false → e.text = T
  origin : X.Once k c n
  wire : ∀ m s, X.pending k m s ≠ 0 → ∃ s', X.links m s = some (n, s') ∧ R s'
  reached : ∀ m s s', X.links m s = some (n, s') → R s' →
    (X.pending k m s = 1 ∧ ∀ d, X.count k m d = 0) ∨ (X.pending k m s = 0 ∧ X.Once k c m)
  missed : ∀ m s s', X.links m s = some (n, s') → ¬ R s' → ∀ d, X.count k m d = 0

/-- The tags of everything in flight or sent were given out. -/
structure Fresh (X : Cluster N) : Prop where
  wire : ∀ m s, ∀ p ∈ X.wire m s, p.tag < X.tags
  log : ∀ e ∈ X.log, e.tag < X.tags

/-! ## Counting -/

section

variable {n m : N} {tag k : Nat} {w : World} {s s' d : Uuid}

theorem pending_perform : (X.perform n tag w).pending k m s =
    X.pending k m s + (posted X.links n tag w.effects m s).countP (isPending k) :=
  List.countP_append

theorem count_perform : (X.perform n tag w).count k m d = X.count k m d +
    ((clientTexts w.effects).map fun e => (⟨n, e.1, tag, e.2⟩ : Sent N)).countP
      (isCount k m d) :=
  List.countP_append

theorem posted_other (h : tag ≠ k) (es : List Effect) (links : N → Uuid → Option (N × Uuid)) :
    (posted links n tag es m s).countP (isPending k) = 0 := by
  rw [List.countP_eq_zero]
  intro p hp
  obtain ⟨ht, -⟩ := mem_posted hp
  simp [isPending, ht, h]

theorem logged_other (h : tag ≠ k ∨ n ≠ m) (es : List (Uuid × Text)) :
    (es.map fun e => (⟨n, e.1, tag, e.2⟩ : Sent N)).countP (isCount k m d) = 0 := by
  rw [List.countP_eq_zero]
  intro e he
  obtain ⟨x, -, rfl⟩ := List.mem_map.mp he
  rcases h with h | h <;> simp [isCount, h]

/-- Taking a text off the wire. -/
theorem pending_take {x : Uuid} {i : Nat} {p : Packet} (hp : (X.wire n s)[i]? = some p) :
    (X.take n s i).pending k m x + (if m = n ∧ x = s ∧ isPending k p = true then 1 else 0) =
      X.pending k m x := by
  by_cases h : m = n ∧ x = s
  · obtain ⟨rfl, rfl⟩ := h
    obtain ⟨hi, rfl⟩ := List.getElem?_eq_some_iff.mp hp
    have hperm := (List.getElem_cons_eraseIdx_perm hi).countP_eq (isPending k)
    rw [List.countP_cons] at hperm
    simp only [pending, take, and_self, if_true, true_and]
    exact hperm
  · have h' : ¬ (m = n ∧ x = s ∧ isPending k p = true) := fun hc => h ⟨hc.1, hc.2.1⟩
    rw [if_neg h', pending, take_wire_ne h]
    rfl

@[simp] theorem clientTexts_session (replies : List Text) :
    clientTexts (replies.map (Effect.session s)) = [] := by
  simp [clientTexts]

@[simp] theorem clientTexts_toClients (st : State) (c : Uuid) (T : Text) :
    clientTexts (toClients st c T) = (otherClients st st.id c).map fun x => (x.id, T) := by
  simp only [clientTexts, toClients, List.filterMap_map]
  exact congrFun (List.filterMap_eq_map (f := fun x : Client => (x.id, T))) _

@[simp] theorem textsTo_toClients (st : State) (c : Uuid) (T : Text) :
    textsTo s (toClients st c T) = [] := by
  simp [textsTo, toClients]

@[simp] theorem clientTexts_answers (c : Uuid) (replies : List Text) :
    clientTexts (replies.map (Effect.client c)) = replies.map (Prod.mk c) := by
  simp only [clientTexts, List.filterMap_map]
  exact congrFun (List.filterMap_eq_map (f := Prod.mk c)) _

@[simp] theorem textsTo_answers (c : Uuid) (replies : List Text) :
    textsTo s (replies.map (Effect.client c)) = [] := by
  simp [textsTo]

/-- Answers do not count. -/
theorem logged_answers {c : Uuid} {replies : List Text}
    (hack : ∀ reply ∈ replies, acknowledges reply = true) :
    ((replies.map (Prod.mk c)).map fun e => (⟨n, e.1, tag, e.2⟩ : Sent N)).countP
      (isCount k m d) = 0 := by
  rw [List.countP_eq_zero]
  intro e he
  obtain ⟨x, hx, rfl⟩ := List.mem_map.mp he
  obtain ⟨reply, hreply, rfl⟩ := List.mem_map.mp hx
  simp [isCount, hack reply hreply]

/-- What a node logs when it passes the text on. -/
theorem logged_toClients {T : Text} (hT : acknowledges T = false) (c : Uuid) :
    (((otherClients (X.node n) (X.node n).id c).map fun x => (x.id, T)).map
      fun e => (⟨n, e.1, k, e.2⟩ : Sent N)).countP (isCount k n d) =
    if X.Local n d ∧ d ≠ c then 1 else 0 := by
  have hcount : (((otherClients (X.node n) (X.node n).id c).map fun x => (x.id, T)).map
      fun e => (⟨n, e.1, k, e.2⟩ : Sent N)).countP (isCount k n d) =
      ((otherClients (X.node n) (X.node n).id c).map Client.id).count d := by
    rw [List.count, List.countP_map, List.countP_map, List.countP_map]
    congr 1
    funext x
    simp [isCount, hT, Function.comp_apply, beq_eq_decide]
  rw [hcount]
  have hiff : d ∈ (otherClients (X.node n) (X.node n).id c).map Client.id ↔
      X.Local n d ∧ d ≠ c := by
    rw [mem_otherClients]
    constructor
    · rintro ⟨⟨rid, rs⟩, hrow, rfl, hne, rfl⟩
      exact ⟨hrow, hne⟩
    · rintro ⟨hl, hne⟩
      exact ⟨_, hl, rfl, hne, rfl⟩
  by_cases hd : X.Local n d ∧ d ≠ c
  · rw [if_pos hd]
    exact List.count_eq_one_of_mem (nodup_otherClients _ _ _) (hiff.mpr hd)
  · rw [if_neg hd, List.count_eq_zero]
    exact fun hmem => hd (hiff.mp hmem)

end

/-! ## The fan-out -/

/-- The local clients are the same. -/
def SameClients (X Y : Cluster N) : Prop := ∀ m d, Y.Local m d ↔ X.Local m d

theorem Once.congr {k : Nat} {c : Uuid} {m : N} (h : X.Once k c m)
    (hc : ∀ d, Y.count k m d = X.count k m d) (hs : SameClients X Y) : Y.Once k c m := by
  intro d
  rw [hc, h d]
  simp only [hs m d]

/-- Nothing that counts changed. -/
theorem Spread.congr {k : Nat} {T : Text} {n : N} {c : Uuid} {R : Uuid → Prop}
    (h : X.Spread k T n c R) (hl : Y.links = X.links) (ht : X.tags ≤ Y.tags)
    (hp : ∀ m s, Y.pending k m s = X.pending k m s)
    (hc : ∀ m d, Y.count k m d = X.count k m d)
    (hw : ∀ m s, ∀ p ∈ Y.wire m s, p.tag = k → acknowledges p.text = false → p ∈ X.wire m s)
    (hlog : ∀ e ∈ Y.log, e.tag = k → acknowledges e.text = false → e ∈ X.log)
    (hs : SameClients X Y) : Y.Spread k T n c R where
  below := Nat.lt_of_lt_of_le h.below ht
  text m s p hp ht ha := h.text m s p (hw m s p hp ht ha) ht ha
  logged e he ht ha := h.logged e (hlog e he ht ha) ht ha
  origin := h.origin.congr (hc n) hs
  wire m s hne := by
    rw [hl]
    exact h.wire m s (by rwa [hp] at hne)
  reached m s s' hk hR := by
    rw [hl] at hk
    rcases h.reached m s s' hk hR with ⟨h1, h2⟩ | ⟨h1, h2⟩
    · exact Or.inl ⟨by rw [hp, h1], fun d => by rw [hc, h2 d]⟩
    · exact Or.inr ⟨by rw [hp, h1], h2.congr (hc m) hs⟩
  missed m s s' hk hR d := by
    rw [hl] at hk
    rw [hc, h.missed m s s' hk hR d]

/-- A handler that runs for another request. -/
theorem Spread.perform_other {k : Nat} {T : Text} {n : N} {c : Uuid} {R : Uuid → Prop}
    (h : X.Spread k T n c R) {m : N} {tag : Nat} {w : World} (ht : tag ≠ k) (tags : Nat)
    (hle : X.tags ≤ tags) (home : Uuid → Option N)
    (hs : SameClients X { X.perform m tag w with home := home, tags := tags }) :
    Spread { X.perform m tag w with home := home, tags := tags } k T n c R := by
  refine h.congr rfl hle (fun i s => ?_) (fun i d => ?_) (fun i s p hp hk _ => ?_)
    (fun e he hk _ => ?_) hs
  · exact (pending_perform (n := m)).trans (by rw [posted_other ht, Nat.add_zero])
  · exact (count_perform (n := m)).trans (by rw [logged_other (Or.inl ht), Nat.add_zero])
  · rcases List.mem_append.mp hp with hp | hp
    · exact hp
    · exact absurd ((mem_posted hp).1.symm.trans hk) ht
  · rcases List.mem_append.mp he with he | he
    · exact he
    · obtain ⟨x, -, rfl⟩ := List.mem_map.mp he
      exact absurd hk ht

section

variable {k : Nat} {T : Text} {n : N} {c : Uuid} {R : Uuid → Prop}

/-- Taking a text off the wire that does not count. -/
theorem Spread.take (h : X.Spread k T n c R) {m : N} {s : Uuid} {i : Nat} {p : Packet}
    (hp : (X.wire m s)[i]? = some p) (hn : isPending k p = false) :
    (X.take m s i).Spread k T n c R := by
  refine h.congr rfl (Nat.le_refl _) (fun j s' => ?_) (fun _ _ => rfl)
    (fun j s' p' hp' _ _ => mem_take hp') (fun _ he _ _ => he) (fun _ _ => Iff.rfl)
  have ht := pending_take (k := k) (m := j) (x := s') hp
  rw [if_neg (by simp [hn]), Nat.add_zero] at ht
  exact ht

/-- A node reads a copy: it is no longer in flight, and the node's clients were sent one. -/
theorem Spread.deliver (h : X.Spread k T n c R) (hfan : Fanout T c) (hl : Paired X.links) {m : N}
    {s : Uuid} {i : Nat} {p : Packet} (hp : (X.wire m s)[i]? = some p)
    (hk : isPending k p = true) {w : World} {replies : List Text} (hw : w.state = X.node m)
    (heff : w.effects = toClients (X.node m) c T ++ replies.map (Effect.session s))
    (hack : ∀ reply ∈ replies, acknowledges reply = true) :
    ((X.take m s i).perform m k w).Spread k T n c R := by
  obtain ⟨hpk, hpa⟩ : p.tag = k ∧ acknowledges p.text = false := by simpa [isPending] using hk
  have hmem : p ∈ X.wire m s := List.mem_of_getElem? hp
  have hne : X.pending k m s ≠ 0 := by
    have hpos : 0 < X.pending k m s := List.countP_pos_iff.mpr ⟨p, hmem, hk⟩
    omega
  obtain ⟨s', hlink, hR⟩ := h.wire m s hne
  have hmn : m ≠ n := hl.irrefl hlink
  obtain ⟨hone, hzero⟩ : X.pending k m s = 1 ∧ ∀ d, X.count k m d = 0 := by
    rcases h.reached m s s' hlink hR with hr | ⟨h0, -⟩
    · exact hr
    · exact absurd h0 hne
  have hnode : ((X.take m s i).perform m k w).node = X.node := by
    funext j
    rw [perform_node]
    split
    · rename_i hj
      rw [hj, hw]
    · rfl
  have hsame : SameClients X ((X.take m s i).perform m k w) := fun j d => by
    simp only [Local, hnode]
  have hposted : ∀ j x, (posted X.links m k w.effects j x).countP (isPending k) = 0 := by
    intro j x
    rw [List.countP_eq_zero]
    intro p' hp'
    obtain ⟨-, x', -, ht⟩ := mem_posted hp'
    rw [heff, textsTo_append, textsTo_toClients, List.nil_append, mem_textsTo,
      List.mem_map] at ht
    obtain ⟨reply, hr, he⟩ := ht
    cases he
    simp [isPending, hack _ hr]
  have hpend : ∀ j x, ((X.take m s i).perform m k w).pending k j x +
      (if j = m ∧ x = s then 1 else 0) = X.pending k j x := by
    intro j x
    have ht := pending_take (k := k) (m := j) (x := x) hp
    simp only [hk, and_true] at ht
    rw [pending_perform]
    change (X.take m s i).pending k j x + (posted X.links m k w.effects j x).countP _ + _ = _
    rw [hposted, Nat.add_zero]
    exact ht
  have hcount : ∀ j d, ((X.take m s i).perform m k w).count k j d =
      if j = m then (if X.Local m d ∧ d ≠ c then 1 else 0) else X.count k j d := by
    intro j d
    rw [count_perform, heff, clientTexts_append, clientTexts_session, clientTexts_toClients,
      List.append_nil]
    split
    · rename_i hj
      subst hj
      rw [logged_toClients hfan.not_acknowledges]
      have h0 : (X.take j s i).count k j d = 0 := hzero d
      rw [h0, Nat.zero_add]
    · rename_i hj
      rw [logged_other (Or.inr fun hc => hj hc.symm), Nat.add_zero]
      rfl
  have hother : ∀ {j x x'}, X.links j x = some (n, x') → j = m → x = s := by
    rintro j x x' hx rfl
    exact hl.unique hx hlink
  refine ⟨h.below, fun j x p' hp' ht ha => ?_, fun e he ht ha => ?_, fun d => ?_,
    fun j x hjx => ?_, fun j x x' hjx hRx => ?_, fun j x x' hjx hRx d => ?_⟩
  · rcases List.mem_append.mp hp' with hp' | hp'
    · exact h.text j x p' (mem_take hp') ht ha
    · have hz := hposted j x
      rw [List.countP_eq_zero] at hz
      exact absurd (by simp [isPending, ht, ha]) (hz p' hp')
  · rcases List.mem_append.mp he with he | he
    · exact h.logged e he ht ha
    · rw [heff, clientTexts_append, clientTexts_session, clientTexts_toClients,
        List.append_nil] at he
      obtain ⟨y, hy, rfl⟩ := List.mem_map.mp he
      obtain ⟨z, -, rfl⟩ := List.mem_map.mp hy
      rfl
  · rw [hcount, if_neg hmn.symm, h.origin d]
    simp only [hsame n d]
  · exact h.wire j x (by have := hpend j x; omega)
  · by_cases hj : j = m
    · have hx := hother hjx hj
      subst hj hx
      refine Or.inr ⟨?_, fun d => ?_⟩
      · have hz := hpend j x
        rw [if_pos ⟨rfl, rfl⟩, hone] at hz
        omega
      · rw [hcount, if_pos rfl]
        simp only [hsame j d]
    · have hz := hpend j x
      rw [if_neg (fun hc => hj hc.1), Nat.add_zero] at hz
      rcases h.reached j x x' hjx hRx with ⟨h1, h2⟩ | ⟨h1, h2⟩
      · exact Or.inl ⟨hz.trans h1, fun d => by rw [hcount, if_neg hj, h2 d]⟩
      · exact Or.inr ⟨hz.trans h1, h2.congr (fun d => by rw [hcount, if_neg hj]) hsame⟩
  · have hj : j ≠ m := by
      intro hj
      have hx := hother hjx hj
      subst hj hx
      cases hlink.symm.trans hjx
      exact hRx hR
    rw [hcount, if_neg hj, h.missed j x x' hjx hRx d]

/-- A handler that changed and sent nothing. -/
theorem perform_idle {m : N} {tag : Nat} {w : World} (hw : w.state = X.node m)
    (he : w.effects = []) : X.perform m tag w = X := by
  have hposted : ∀ j s, posted X.links m tag w.effects j s = [] := by
    intro j s
    rw [he, posted]
    split
    · simp
    · rfl
  have hwire : (fun j s => X.wire j s ++ posted X.links m tag w.effects j s) = X.wire := by
    funext j s
    rw [hposted, List.append_nil]
  unfold perform
  rw [hwire, hw, Function.update_eq_self, he]
  simp [clientTexts]

/-- **A step that leaves the clients as they are keeps the fan-out exact.** -/
theorem Spread.of_step (h : X.Spread k T n c R) (hfan : Fanout T c) (hl : Paired X.links)
    {a : Action N} (hs : X.step a = some Y) (hsame : SameClients X Y) : Y.Spread k T n c R := by
  have htag : X.tags ≠ k := Nat.ne_of_gt h.below
  cases a with
  | connect m d env =>
    obtain ⟨-, w, -, rfl⟩ := step_connect.mp hs
    exact h.perform_other htag _ (Nat.le_succ _) _ hsame
  | request m d frame env =>
    obtain ⟨-, w, -, rfl⟩ := step_request.mp hs
    exact h.perform_other htag _ (Nat.le_succ _) X.home hsame
  | disconnect m d env =>
    obtain ⟨-, w, -, rfl⟩ := step_disconnect.mp hs
    exact h.perform_other htag _ (Nat.le_succ _) X.home hsame
  | deliver m s i env =>
    obtain ⟨p, hp, w, hw, rfl⟩ := step_deliver.mp hs
    by_cases hk : p.tag = k
    · cases ha : acknowledges p.text with
      | true =>
        obtain ⟨hst, heff⟩ := onRead_acknowledges ha hw
        have hidle : (X.take m s i).perform m p.tag w = X.take m s i := perform_idle hst heff
        rw [hidle]
        exact h.take hp (by simp [isPending, ha])
      | false =>
        have hT := h.text m s p (List.mem_of_getElem? hp) hk ha
        rw [hT] at hw
        obtain ⟨hst, replies, heff, hack⟩ := hfan.onRead hw
        rw [hk]
        exact h.deliver hfan hl hp (by simp [isPending, hk, ha]) hst heff hack
    · have hn : isPending k p = false := by simp [isPending, hk]
      exact (h.take hp hn).perform_other hk _ (Nat.le_refl _) X.home hsame

/-- The clients stay the same in every step of the run. -/
def Steady (X : Cluster N) (as : List (Action N)) : Prop :=
  Run.Along step (fun X a => ∀ Y, X.step a = some Y → SameClients X Y) X as

theorem step_links {a : Action N} (hs : X.step a = some Y) : Y.links = X.links := by
  cases a with
  | connect m d env =>
    obtain ⟨-, w, -, rfl⟩ := step_connect.mp hs
    rfl
  | request m d frame env =>
    obtain ⟨-, w, -, rfl⟩ := step_request.mp hs
    rfl
  | disconnect m d env =>
    obtain ⟨-, w, -, rfl⟩ := step_disconnect.mp hs
    rfl
  | deliver m s i env =>
    obtain ⟨p, -, w, -, rfl⟩ := step_deliver.mp hs
    rfl

theorem run_links {as : List (Action N)} (hr : Run.exec step X as = some Y) :
    Y.links = X.links :=
  Run.exec_invariant (I := fun Z => Z.links = X.links) (fun hI hs => (step_links hs).trans hI)
    rfl hr

/-- **Whatever the order of the deliveries, the fan-out stays exact.** -/
theorem Spread.of_run (h : X.Spread k T n c R) (hfan : Fanout T c) (hl : Paired X.links)
    {as : List (Action N)} (hst : Steady X as) (hr : Run.exec step X as = some Y) :
    Y.Spread k T n c R ∧ SameClients X Y ∧ Y.links = X.links := by
  have hinv := Run.exec_invariant_along
    (I := fun Z => Z.Spread k T n c R ∧ SameClients X Z ∧ Z.links = X.links)
    (fun {Z a Z'} hI hC hs => ?_) ⟨h, fun _ _ => Iff.rfl, rfl⟩ hst hr
  · exact hinv
  · obtain ⟨hsp, hsame, hlinks⟩ := hI
    have hsame' := hC Z' hs
    exact ⟨hsp.of_step hfan (by rw [hlinks]; exact hl) hs hsame',
      fun m d => (hsame' m d).trans (hsame m d), (step_links hs).trans hlinks⟩

/-- **When no copy is in flight, a reached node has sent one to each of its clients and a
missed one none.** -/
theorem Spread.delivered (h : X.Spread k T n c R) (hq : ∀ m s, X.pending k m s = 0) :
    X.Once k c n ∧ ∀ m s s', X.links m s = some (n, s') →
      (R s' → X.Once k c m) ∧ (¬ R s' → ∀ d, X.count k m d = 0) := by
  refine ⟨h.origin, fun m s s' hl => ⟨fun hR => ?_, h.missed m s s' hl⟩⟩
  rcases h.reached m s s' hl hR with ⟨h1, -⟩ | ⟨-, h2⟩
  · rw [hq] at h1
    cases h1
  · exact h2

/-- A client's handler starts a fan-out: its effects are one text to the other local clients,
the same text to the sessions `xs`, and its replies. -/
theorem Spread.start (hl : Paired X.links) (hf : X.Fresh) (hfan : Fanout T c) {w : World}
    {xs : List Session} {replies : List Text} (hw : w.state = X.node n)
    (heff : w.effects = toClients (X.node n) c T ++
      (xs.map fun x => .session x.id T) ++ replies.map (.client c))
    (hack : ∀ reply ∈ replies, acknowledges reply = true) (hxs : (xs.map Session.id).Nodup) :
    Spread { X.perform n X.tags w with tags := X.tags + 1 } X.tags T n c
      (· ∈ xs.map Session.id) := by
  have hnode : (X.perform n X.tags w).node = X.node := by
    funext j
    rw [perform_node]
    split
    · rename_i hj
      rw [hj, hw]
    · rfl
  have htexts : ∀ s, textsTo s w.effects =
      ((xs.find? fun x => x.id = s).toList.map fun _ => T) := by
    intro s
    rw [heff, textsTo_append, textsTo_append, textsTo_toClients, textsTo_sessions,
      Table.filter_key_of_nodup s hxs, textsTo_answers]
    simp
  have hclients : clientTexts w.effects =
      ((otherClients (X.node n) (X.node n).id c).map fun x => (x.id, T)) ++
        replies.map (Prod.mk c) := by
    rw [heff, clientTexts_append, clientTexts_append, clientTexts_toClients, clientTexts_answers]
    simp [clientTexts]
  have hpend0 : ∀ m s, X.pending X.tags m s = 0 := by
    intro m s
    rw [pending, List.countP_eq_zero]
    intro p hp
    simp [isPending, Nat.ne_of_lt (hf.wire m s p hp)]
  have hcount0 : ∀ m d, X.count X.tags m d = 0 := by
    intro m d
    rw [count, List.countP_eq_zero]
    intro e he
    simp [isCount, Nat.ne_of_lt (hf.log e he)]
  have hpend : ∀ m s, (X.perform n X.tags w).pending X.tags m s =
      (posted X.links n X.tags w.effects m s).countP (isPending X.tags) := by
    intro m s
    rw [pending_perform, hpend0, Nat.zero_add]
  have hcount : ∀ d, (X.perform n X.tags w).count X.tags n d =
      if X.Local n d ∧ d ≠ c then 1 else 0 := by
    intro d
    rw [count_perform, hcount0, Nat.zero_add, hclients, List.map_append, List.countP_append,
      logged_toClients hfan.not_acknowledges, logged_answers hack, Nat.add_zero]
  have hremote : ∀ {m}, m ≠ n → ∀ d, (X.perform n X.tags w).count X.tags m d = 0 := by
    intro m hm d
    rw [count_perform, hcount0, logged_other (Or.inr hm.symm)]
  refine ⟨Nat.lt_succ_self _, fun m s p hp ht ha => ?_, fun e he ht ha => ?_, fun d => ?_,
    fun m s hms => ?_, fun m s s' hms hR => ?_, fun m s s' hms hR d => ?_⟩
  · rcases List.mem_append.mp hp with hp | hp
    · exact absurd ht (Nat.ne_of_lt (hf.wire m s p hp))
    · obtain ⟨-, s', -, htext⟩ := mem_posted hp
      rw [htexts] at htext
      obtain ⟨x, -, hx⟩ := List.mem_map.mp htext
      exact hx.symm
  · rcases List.mem_append.mp he with he | he
    · exact absurd ht (Nat.ne_of_lt (hf.log e he))
    · obtain ⟨y, hy, rfl⟩ := List.mem_map.mp he
      rw [hclients] at hy
      rcases List.mem_append.mp hy with hy | hy
      · obtain ⟨z, -, rfl⟩ := List.mem_map.mp hy
        rfl
      · obtain ⟨reply, hreply, rfl⟩ := List.mem_map.mp hy
        rw [hack reply hreply] at ha
        cases ha
  · change (X.perform n X.tags w).count X.tags n d = _
    have hlocal : Local { X.perform n X.tags w with tags := X.tags + 1 } n d ↔ X.Local n d := by
      change (X.perform n X.tags w).Local n d ↔ _
      simp only [Local, hnode]
    rw [hcount]
    simp only [hlocal]
  · change (X.perform n X.tags w).pending X.tags m s ≠ 0 at hms
    rw [hpend] at hms
    obtain ⟨p, hp, -⟩ := List.countP_pos_iff.mp (Nat.pos_of_ne_zero hms)
    obtain ⟨-, s', hlink, htext⟩ := mem_posted hp
    rw [htexts] at htext
    obtain ⟨x, hx, -⟩ := List.mem_map.mp htext
    refine ⟨s', hlink, ?_⟩
    have hfind := Option.mem_toList.mp hx
    exact List.mem_map.mpr ⟨x, List.mem_of_find?_eq_some hfind, by
      simpa using List.find?_some hfind⟩
  · have hlink : X.links m s = some (n, s') := hms
    refine Or.inl ⟨?_, hremote (hl.irrefl hlink)⟩
    change (X.perform n X.tags w).pending X.tags m s = 1
    rw [hpend, posted_eq hlink, htexts]
    obtain ⟨x, hx, hid⟩ := List.mem_map.mp hR
    cases hfind : xs.find? fun x => x.id = s' with
    | none => exact absurd hid (by simpa using List.find?_eq_none.mp hfind x hx)
    | some y => simp [isPending, hfan.not_acknowledges]
  · exact hremote (hl.irrefl (show X.links m s = some (n, s') from hms)) d

/-- The handler of a publish, which has sent the text to the clients, sends it to the sessions `xs`,
and its replies. -/
theorem Spread.go_on (h : X.Spread k T n c fun _ => False) (hfan : Fanout T c) {w : World}
    {xs : List Session} {replies : List Text} (hw : w.state = X.node n)
    (heff : w.effects = (xs.map fun x => .session x.id T) ++ replies.map (.client c))
    (hack : ∀ reply ∈ replies, acknowledges reply = true) (hxs : (xs.map Session.id).Nodup) :
    (X.perform n k w).Spread k T n c (· ∈ xs.map Session.id) := by
  have hnode : (X.perform n k w).node = X.node := by
    rw [perform, hw, Function.update_eq_self]
  have htexts : ∀ s, textsTo s w.effects =
      ((xs.find? fun x => x.id = s).toList.map fun _ => T) := by
    intro s
    rw [heff, textsTo_append, textsTo_sessions, Table.filter_key_of_nodup s hxs, textsTo_answers,
      List.append_nil]
  have hclients : clientTexts w.effects = replies.map (Prod.mk c) := by
    rw [heff, clientTexts_append, clientTexts_answers]
    simp [clientTexts]
  have hcount : ∀ m d, (X.perform n k w).count k m d = X.count k m d := by
    intro m d
    rw [count_perform, hclients, logged_answers hack, Nat.add_zero]
  have hpend : ∀ m s, (X.perform n k w).pending k m s =
      (posted X.links n k w.effects m s).countP (isPending k) := by
    intro m s
    have hzero : X.pending k m s = 0 := by
      by_contra hne
      obtain ⟨-, -, hfalse⟩ := h.wire m s hne
      exact hfalse
    rw [pending_perform, hzero, Nat.zero_add]
  refine ⟨h.below, fun m s p hp ht ha => ?_, fun e he ht ha => ?_, fun d => ?_,
    fun m s hms => ?_, fun m s s' hms hR => ?_, fun m s s' hms hR d => ?_⟩
  · rcases List.mem_append.mp hp with hp | hp
    · exact h.text m s p hp ht ha
    · obtain ⟨-, s', -, htext⟩ := mem_posted hp
      rw [htexts] at htext
      obtain ⟨x, -, hx⟩ := List.mem_map.mp htext
      exact hx.symm
  · rcases List.mem_append.mp he with he | he
    · exact h.logged e he ht ha
    · obtain ⟨y, hy, rfl⟩ := List.mem_map.mp he
      rw [hclients] at hy
      obtain ⟨reply, hreply, rfl⟩ := List.mem_map.mp hy
      rw [hack reply hreply] at ha
      cases ha
  · have hlocal : (X.perform n k w).Local n d ↔ X.Local n d := by
      simp only [Local, hnode]
    rw [hcount, h.origin d]
    simp only [hlocal]
  · rw [hpend] at hms
    obtain ⟨p, hp, -⟩ := List.countP_pos_iff.mp (Nat.pos_of_ne_zero hms)
    obtain ⟨-, s', hlink, htext⟩ := mem_posted hp
    rw [htexts] at htext
    obtain ⟨x, hx, -⟩ := List.mem_map.mp htext
    refine ⟨s', hlink, ?_⟩
    have hfind := Option.mem_toList.mp hx
    exact List.mem_map.mpr ⟨x, List.mem_of_find?_eq_some hfind, by
      simpa using List.find?_some hfind⟩
  · have hlink : X.links m s = some (n, s') := hms
    refine Or.inl ⟨?_, fun d => (hcount m d).trans (h.missed m s s' hlink id d)⟩
    rw [hpend, posted_eq hlink, htexts]
    obtain ⟨x, hx, hid⟩ := List.mem_map.mp hR
    cases hfind : xs.find? fun x => x.id = s' with
    | none => exact absurd hid (by simpa using List.find?_eq_none.mp hfind x hx)
    | some y => simp [isPending, hfan.not_acknowledges]
  · exact (hcount m d).trans (h.missed m s s' hms id d)

end

/-! ## Runs of two nodes -/

/-- The same local rows in the client stores. -/
def SameRows (X Y : Cluster N) : Prop :=
  ∀ m, (Y.node m).id = (X.node m).id ∧ localClients (Y.node m) = localClients (X.node m)

instance [Fintype N] (X Y : Cluster N) : Decidable (SameRows X Y) :=
  inferInstanceAs (Decidable (∀ _, _ ∧ _))

omit [DecidableEq N] in
theorem local_iff {m : N} {d : Uuid} :
    X.Local m d ↔ ⟨d, (X.node m).id⟩ ∈ localClients (X.node m) := by
  simp [Local, State.Holds, localClients, State.getClients, Table.mem_def]

omit [DecidableEq N] in
theorem SameRows.sameClients (h : SameRows X Y) : SameClients X Y := by
  intro m d
  rw [local_iff, local_iff, (h m).1, (h m).2]

theorem steady_cons {a : Action N} {as : List (Action N)} (hs : X.step a = some Y)
    (h : SameClients X Y) (ht : Steady Y as) : Steady X (a :: as) :=
  Run.along_cons hs (fun _ hZ => Option.some.inj (hs.symm.trans hZ) ▸ h) ht

/-- In a run of `duo` there is one wire to each node. -/
theorem duo_wire {as : List (Action Bool)} {Z : Cluster Bool} (ho : ∀ a ∈ as, InOrder a)
    (hr : Run.exec step duo as = some Z) {m : Bool} {s : Uuid} {p : Packet}
    (hp : p ∈ Z.wire m s) : s = duoSession m := by
  obtain ⟨j, s', hl, -⟩ := (initial_duo.inv.of_run ho hr).wires hp
  rw [run_links hr] at hl
  exact (duoLinks_eq_some.mp hl).1

theorem duo_pending {as : List (Action Bool)} {Z : Cluster Bool} {k : Nat}
    (ho : ∀ a ∈ as, InOrder a) (hr : Run.exec step duo as = some Z)
    (hq : ∀ m, Z.pending k m (duoSession m) = 0) (m : Bool) (s : Uuid) :
    Z.pending k m s = 0 := by
  rw [pending, List.countP_eq_zero]
  intro p hp
  have hs := duo_wire ho hr hp
  subst hs
  exact List.countP_eq_zero.mp (hq m) p hp

end Cluster

end Aewt
