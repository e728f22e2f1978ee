import Smts.Server.Callbacks

/-!
# Server — the rings of clients

A session's ring, its count and the clients' back pointers are three records
of one fact, kept by different functions. They agree as long as no client is
attached twice: `QUEUE_INSERT_HEAD` of a node that is linked already breaks
the ring it is in.
-/

namespace Smts

open Circular

namespace Server

/-! ## The invariant -/

/-- The ring of `s` is well formed, its nodes are live clients attached to
`s`, as many as are counted, and no attached client is missing. -/
def RingOk (w : Server) (s : Nat) : Prop :=
  ∃ l : List Nat, w.rings.IsRing (.head s) (l.map .client) ∧ l.Nodup ∧
    (w.sessions s).clientSize = l.length ∧
    (∀ c ∈ l, c < w.nClients ∧ (w.clients c).freed = false ∧ (w.clients c).session = some s) ∧
    ∀ c, (w.clients c).session = some s → c ∈ l

/-- Nothing will be heard of the session's DVR. -/
structure Idle (w : Server) (s : Nat) : Prop where
  connecting : (w.sessions s).dvr.connecting = false
  reading : (w.sessions s).dvr.reading = false
  writes : ∀ req ∈ w.writes, req.client ≠ .dvr s

/-- `A` are the sessions given up in `init_session_error`: they are freed with
a client in their ring, but nobody comes across them again. -/
structure RingInv (A : Nat → Prop) (w : Server) : Prop where
  ring : ∀ s < w.nSessions, ¬ A s → ∃ l : List Nat,
    w.rings.IsRing (.head s) (l.map .client) ∧ (w.sessions s).clientSize = l.length ∧
      ∀ c, c ∈ l ↔ (w.clients c).session = some s
  attached : ∀ c s, (w.clients c).session = some s →
    c < w.nClients ∧ (w.clients c).closing = false ∧ s < w.nSessions ∧ ¬ A s
  closed : ∀ c, (w.clients c).freed = true → (w.clients c).closing = true
  linked : ∀ q t, w.manager.links.next q = .session t → t < w.nSessions
  written : ∀ req ∈ w.writes, ∀ s, req.client = .dvr s → s < w.nSessions
  aborted : ∀ s, A s → s < w.nSessions ∧ (w.sessions s).freed = true ∧
    w.manager.links.Orphan (.session s) ∧ Idle w s

theorem init_ringInv (uv : Nat → Int) (garbage : Nat → Values NvmpName) :
    RingInv (fun _ => False) (init uv garbage) where
  ring s hs := absurd hs (Nat.not_lt_zero s)
  attached c s h := by cases h
  closed c h := by cases h
  linked q t h := by
    simp only [init, initSessionManager, Links.init, Links.setNext, Links.setPrev] at h
    by_cases hq : q = .head
    · rw [hq, Function.update_self] at h
      cases h
    · rw [Function.update_of_ne hq] at h
      cases h
  written req hreq := by cases hreq
  aborted s h := h.elim

theorem RingInv.ringOk {A : Nat → Prop} {w : Server} (h : RingInv A w) {s : Nat}
    (hs : s < w.nSessions) (hA : ¬ A s) : RingOk w s := by
  obtain ⟨l, hring, hsize, hmem⟩ := h.ring s hs hA
  refine ⟨l, hring, List.Nodup.of_map _ hring.nodes_nodup, hsize, fun c hc => ?_,
    fun c hc => (hmem c).mpr hc⟩
  have hsess := (hmem c).mp hc
  obtain ⟨hlt, hclosing, -⟩ := h.attached c s hsess
  refine ⟨hlt, ?_, hsess⟩
  by_contra hfreed
  have := h.closed c (by simpa using hfreed)
  rw [hclosing] at this
  cases this

/-- The rings of two sessions share no node, since a client is in one session at
most. -/
theorem RingInv.disjoint {s t : Nat} {l l' : List Nat} {w : Server} (hst : s ≠ t)
    (hl : ∀ c, c ∈ l ↔ (w.clients c).session = some s)
    (hl' : ∀ c, c ∈ l' ↔ (w.clients c).session = some t) :
    ∀ x ∈ RingNode.head s :: l.map .client, x ∉ RingNode.head t :: l'.map .client := by
  rintro x hx hx'
  simp only [List.mem_cons, List.mem_map] at hx hx'
  rcases hx with rfl | ⟨c, hc, rfl⟩
  · simp [hst] at hx'
  · simp only [reduceCtorEq, RingNode.client.injEq, exists_eq_right, false_or] at hx'
    have := (hl c).mp hc
    rw [(hl' c).mp hx'] at this
    exact hst (Option.some.inj this).symm

theorem client_notMem {s : Nat} {l : List Nat} {c : Nat} (hc : c ∉ l) :
    RingNode.client c ∉ RingNode.head s :: l.map .client := by
  simpa using hc

/-! ## What the primitives preserve -/

section Primitives

variable {A : Nat → Prop} {w w' : Server}

theorem RingInv.sameNet (h : RingInv A w) (hn : SameNet w w')
    (hw : ∀ req ∈ w'.writes, ∀ s, req.client = .dvr s →
      req ∈ w.writes ∨ s < w.nSessions ∧ ¬ A s) : RingInv A w' where
  ring s hs hA := by
    rw [hn.rings, hn.sessions, hn.clients]
    exact h.ring s (hn.nSessions ▸ hs) hA
  attached c s hc := by
    rw [hn.clients] at hc ⊢
    rw [hn.nClients, hn.nSessions]
    exact h.attached c s hc
  closed c hc := by
    rw [hn.clients] at hc ⊢
    exact h.closed c hc
  linked q t hq := by
    rw [hn.manager] at hq
    rw [hn.nSessions]
    exact h.linked q t hq
  written req hreq s heq := by
    rw [hn.nSessions]
    exact (hw req hreq s heq).elim (fun hold => h.written req hold s heq) And.left
  aborted s hA := by
    obtain ⟨hs, hfreed, horphan, hidle⟩ := h.aborted s hA
    rw [hn.nSessions, hn.sessions, hn.manager]
    refine ⟨hs, hfreed, horphan, hn.sessions ▸ hidle.connecting, hn.sessions ▸ hidle.reading, ?_⟩
    intro req hreq heq
    rcases hw req hreq s heq with hold | ⟨-, hnot⟩
    · exact hidle.writes req hold heq
    · exact hnot hA

/-- Changes of a client's other fields keep the invariant. -/
theorem RingInv.setClient (h : RingInv A w) (c : Nat) (x : SmtsClient)
    (hsess : x.session = (w.clients c).session)
    (hclosing : x.session ≠ none → x.closing = (w.clients c).closing)
    (hfreed : x.freed = true → x.closing = true) : RingInv A (w.setClient c x) where
  ring s hs hA := by
    obtain ⟨l, hring, hsize, hmem⟩ := h.ring s hs hA
    refine ⟨l, hring, hsize, fun d => ?_⟩
    rw [hmem d]
    by_cases hd : d = c
    · subst hd
      simp [hsess]
    · simp [Function.update_of_ne hd]
  attached d s hd := by
    by_cases hdc : d = c
    · subst hdc
      simp only [setClient_clients, Function.update_self] at hd ⊢
      have := h.attached d s (hsess ▸ hd)
      rwa [← hclosing (by simp [hd])] at this
    · simp only [setClient_clients, Function.update_of_ne hdc] at hd ⊢
      exact h.attached d s hd
  closed d hd := by
    by_cases hdc : d = c
    · subst hdc
      simp only [setClient_clients, Function.update_self] at hd ⊢
      exact hfreed hd
    · simp only [setClient_clients, Function.update_of_ne hdc] at hd ⊢
      exact h.closed d hd
  linked := h.linked
  written := h.written
  aborted s hA := by
    obtain ⟨hs, hf, horphan, hidle⟩ := h.aborted s hA
    exact ⟨hs, hf, horphan, hidle.connecting, hidle.reading, hidle.writes⟩

/-- Changes of a session's other fields keep the invariant. -/
theorem RingInv.setSession (h : RingInv A w) (s : Nat) (x : SmtsSession)
    (hsize : x.clientSize = (w.sessions s).clientSize)
    (hfreed : (w.sessions s).freed = true → x.freed = true)
    (hdvr : A s → (x.dvr.connecting = true → (w.sessions s).dvr.connecting = true) ∧
      (x.dvr.reading = true → (w.sessions s).dvr.reading = true)) :
    RingInv A (w.setSession s x) where
  ring t ht hA := by
    obtain ⟨l, hring, hlen, hmem⟩ := h.ring t ht hA
    refine ⟨l, hring, ?_, hmem⟩
    by_cases hts : t = s
    · subst hts
      simpa [hsize] using hlen
    · simpa [Function.update_of_ne hts] using hlen
  attached := h.attached
  closed := h.closed
  linked := h.linked
  written := h.written
  aborted t hA := by
    obtain ⟨ht, hf, horphan, hidle⟩ := h.aborted t hA
    by_cases hts : t = s
    · subst hts
      obtain ⟨hconn, hread⟩ := hdvr hA
      have hc := hidle.connecting
      have hr := hidle.reading
      refine ⟨ht, by simpa using hfreed hf, horphan, ?_, ?_, hidle.writes⟩
      · rw [← Bool.not_eq_true] at hc ⊢
        simpa using fun hx => hc (hconn hx)
      · rw [← Bool.not_eq_true] at hr ⊢
        simpa using fun hx => hr (hread hx)
    · refine ⟨ht, by simpa [Function.update_of_ne hts] using hf, horphan, ?_, ?_, hidle.writes⟩
      · simpa [Function.update_of_ne hts] using hidle.connecting
      · simpa [Function.update_of_ne hts] using hidle.reading

/-- A new client comes at a new address, which is in no ring. -/
theorem RingInv.initSmtsClient (h : RingInv A w) : RingInv A w.initSmtsClient where
  ring s hs hA := by
    obtain ⟨l, hring, hsize, hmem⟩ := h.ring s hs hA
    have hnew : w.nClients ∉ l := fun hc => by
      have := (h.attached _ s ((hmem _).mp hc)).1
      omega
    refine ⟨l, hring.init_frame (client_notMem hnew), hsize, fun c => ?_⟩
    by_cases hc : c = w.nClients
    · subst hc
      simp [hnew]
    · simpa [Function.update_of_ne hc] using hmem c
  attached c s hc := by
    by_cases hcn : c = w.nClients
    · subst hcn
      simp at hc
    · simp only [initSmtsClient_clients, Function.update_of_ne hcn] at hc ⊢
      have := h.attached c s hc
      exact ⟨Nat.lt_succ_of_lt this.1, this.2⟩
  closed c hc := by
    by_cases hcn : c = w.nClients
    · subst hcn
      simp at hc
    · simp only [initSmtsClient_clients, Function.update_of_ne hcn] at hc ⊢
      exact h.closed c hc
  linked := h.linked
  written := h.written
  aborted s hA := by
    obtain ⟨hs, hf, horphan, hidle⟩ := h.aborted s hA
    exact ⟨hs, hf, horphan, hidle.connecting, hidle.reading, hidle.writes⟩

/-- The manager's links change so that nothing new becomes reachable. -/
theorem RingInv.manage (h : RingInv A w) (m : SessionManager)
    (hlinked : ∀ q t, m.links.next q = .session t → t < w.nSessions)
    (horphan : ∀ s, A s → m.links.Orphan (.session s)) : RingInv A { w with manager := m } where
  ring := h.ring
  attached := h.attached
  closed := h.closed
  linked := hlinked
  written := h.written
  aborted s hA := by
    obtain ⟨hs, hf, -, hidle⟩ := h.aborted s hA
    exact ⟨hs, hf, horphan s hA, hidle.connecting, hidle.reading, hidle.writes⟩

/-- When a client leaves its session, the rings, the counters and the back
pointers go on agreeing. -/
theorem RingInv.mediaClientStopPreview (h : RingInv A w) {s c : Nat}
    (hc : (w.clients c).session = some s) : RingInv A (w.mediaClientStopPreview s c) := by
  obtain ⟨-, -, hs, hA⟩ := h.attached c s hc
  obtain ⟨l, hring, hsize, hmem⟩ := h.ring s hs hA
  have hcl : c ∈ l := (hmem c).mpr hc
  have hnode : RingNode.client c ∈ l.map .client := List.mem_map_of_mem hcl
  have hnodup : l.Nodup := List.Nodup.of_map _ hring.nodes_nodup
  let w₁ := (({ w with rings := w.rings.remove (.client c) } : Server).setSession s
    { w.sessions s with clientSize := (w.sessions s).clientSize - 1 }).setClient c
    { w.clients c with session := none }
  -- the client's ring loses its node; the other rings do not have it
  have h₁ : RingInv A w₁ := by
    refine ⟨fun t ht hAt => ?_, fun d t hd => ?_, fun d hd => ?_, h.linked, h.written, fun t hAt => ?_⟩
    · by_cases hts : t = s
      · subst hts
        refine ⟨l.erase c, ?_, ?_, fun d => ?_⟩
        · rw [List.map_erase fun _ _ => RingNode.client.inj]
          exact hring.remove hnode
        · have hpos : 0 < l.length := List.length_pos_of_mem hcl
          simp only [w₁, setClient_sessions, setSession_sessions, Function.update_self, hsize,
            List.length_erase_of_mem hcl]
          omega
        · rw [hnodup.mem_erase_iff, hmem d]
          by_cases hd : d = c <;> simp [w₁, hd]
      · obtain ⟨l', hring', hsize', hmem'⟩ := h.ring t ht hAt
        refine ⟨l', hring.remove_frame (List.mem_cons_of_mem _ hnode) hring'
          (RingInv.disjoint (Ne.symm hts) hmem hmem'), ?_, fun d => ?_⟩
        · simpa [w₁, Function.update_of_ne hts] using hsize'
        · rw [hmem' d]
          by_cases hd : d = c
          · subst hd
            simp [w₁, hc, Ne.symm hts]
          · simp [w₁, Function.update_of_ne hd]
    · by_cases hdc : d = c
      · subst hdc
        simp [w₁] at hd
      · simp only [w₁, setClient_clients, Function.update_of_ne hdc] at hd ⊢
        exact h.attached d t hd
    · by_cases hdc : d = c
      · subst hdc
        simp only [w₁, setClient_clients, Function.update_self] at hd ⊢
        exact h.closed d hd
      · simp only [w₁, setClient_clients, Function.update_of_ne hdc] at hd ⊢
        exact h.closed d hd
    · obtain ⟨ht, hf, horphan, hidle⟩ := h.aborted t hAt
      have hts : t ≠ s := by
        rintro rfl
        exact hA hAt
      have hsess : w₁.sessions t = w.sessions t := Function.update_of_ne hts ..
      exact ⟨ht, hsess ▸ hf, horphan, hsess ▸ hidle.connecting, hsess ▸ hidle.reading, hidle.writes⟩
  rw [Server.mediaClientStopPreview]
  change RingInv A (if (w₁.sessions s).clientSize = 0 then w₁.waitExitSession s else w₁)
  split
  · exact h₁.setSession s _ rfl id fun _ => ⟨id, id⟩
  · exact h₁

theorem mediaClientStopPreview_session (w : Server) (s c : Nat) :
    ((w.mediaClientStopPreview s c).clients c).session = none := by
  rw [mediaClientStopPreview]
  split <;> simp

/-- A client without a session may be closed. -/
theorem RingInv.closeClient (h : RingInv A w) {c : Nat} (hc : (w.clients c).session = none) :
    RingInv A (w.closeClient c) :=
  (h.setClient c { w.clients c with reading := false, closing := true } rfl
    (fun hne => absurd hc hne) fun _ => rfl).sameNet (.emit ..) fun _ hreq _ _ => .inl hreq

theorem RingInv.stopSmtsClient (h : RingInv A w) (c : Nat) : RingInv A (w.stopSmtsClient c) := by
  have h₁ : RingInv A ((w.setClient c { w.clients c with status := .onStop }).emit (.stop c)) :=
    (h.setClient c { w.clients c with status := .onStop } rfl (fun _ => rfl)
      (h.closed c)).sameNet (.emit ..) fun _ hreq _ _ => .inl hreq
  rw [Server.stopSmtsClient]
  split
  · dsimp only
    split
    next s hs => exact (h₁.mediaClientStopPreview hs).closeClient (mediaClientStopPreview_session ..)
    next hs => exact h₁.closeClient hs
  · exact h

/-- Whatever `delete_session` unlinks, it makes nothing reachable that was not. -/
theorem RingInv.deleteSession (h : RingInv A w) {fuel s : Nat}
    (hr : w.deleteSession fuel s = some w') : RingInv A w' := by
  obtain ⟨⟨m, r⟩, hdel, hr⟩ := Option.bind_eq_some_iff.mp hr
  obtain rfl := Option.some.inj hr
  obtain ⟨-, rfl⟩ | hm := SessionManager.deleteSession_cases hdel
  · exact h.manage _ h.linked fun t hA => (h.aborted t hA).2.2.1
  · refine h.manage _ (fun q t hq => ?_) fun t hA => hm ▸ (h.aborted t hA).2.2.1.remove _
    rw [hm] at hq
    by_cases hqp : q = w.manager.links.prev (.session s)
    · rw [hqp, Links.remove_next_prev] at hq
      exact h.linked _ t hq
    · rw [Links.remove_next hqp] at hq
      exact h.linked _ t hq

theorem RingInv.clientCloseCb (h : RingInv A w) {c : Nat} (hc : (w.clients c).closing = true) :
    RingInv A (w.clientCloseCb c) := by
  have h₁ : RingInv A (w.emit (.uvClosed (.client c))) :=
    h.sameNet (.emit ..) fun _ hreq _ _ => .inl hreq
  exact (h₁.setClient c { w.clients c with freed := true } rfl (fun _ => rfl)
    fun _ => hc).sameNet (.emit ..) fun _ hreq _ _ => .inl hreq

/-- Nothing is sent to a DVR nobody hears of any more. -/
theorem RingInv.tcpClientSendMsg (h : RingInv A w) {t : Target} {p : Nat} {cb : SendCb} {r : Int}
    (ht : ∀ s, t = .dvr s → s < w.nSessions ∧ ¬ A s) (hr : w.tcpClientSendMsg t p cb = (w', r)) : RingInv A w' := by
  refine h.sameNet (MemOnly.tcpClientSendMsg hr).toSameNet fun req hreq s heq => ?_
  obtain ⟨-, rfl⟩ | ⟨-, rfl⟩ := tcpClientSendMsg_cases hr
  · rcases List.mem_append.mp hreq with hreq | hreq
    · exact .inl hreq
    · obtain rfl := List.mem_singleton.mp hreq
      exact .inr (ht s heq)
  · exact .inl hreq

end Primitives

/-! ## What the callbacks preserve -/

section Callbacks

variable {A : Nat → Prop} {S : Scope} {w₀ w w' : Server}

/-- An action that attaches nobody keeps the rings in order. -/
theorem RingInv.action (h : RingInv A w) (hjoin : S.join = none)
    (hdvr : ∀ s, S.dvr = some s → s < w.nSessions ∧ ¬ A s) (ha : Action S w₀ w w') :
    RingInv A w' := by
  have hjoin' : S.join ≠ none → False := fun hne => hne hjoin
  cases ha with
  | uvCall hr =>
      refine h.sameNet (MemOnly.uvCall hr).toSameNet fun req hreq _ _ => ?_
      obtain ⟨rfl, -⟩ := Prod.mk.inj hr
      exact .inl hreq
  | emit _ _ _ _ => exact h.sameNet (.emit ..) fun _ hreq _ _ => .inl hreq
  | encodeNew hwf _ _ hr =>
      refine h.sameNet (MemOnly.encodeNew hr).toSameNet fun req hreq _ _ => ?_
      obtain ⟨block, t', rfl, -⟩ := encodeNew_spec hwf hr
      exact .inl hreq
  | receive _ => exact h.sameNet ⟨rfl, rfl, rfl, rfl, rfl, rfl⟩ fun _ hreq _ _ => .inl hreq
  | drop _ => exact h.sameNet ⟨rfl, rfl, rfl, rfl, rfl, rfl⟩ fun _ hreq _ _ => .inl hreq
  | addFrame _ _ => exact h.sameNet ⟨rfl, rfl, rfl, rfl, rfl, rfl⟩ fun _ hreq _ _ => .inl hreq
  | increaseRef _ => exact h.sameNet ⟨rfl, rfl, rfl, rfl, rfl, rfl⟩ fun _ hreq _ _ => .inl hreq
  | addRef _ _ => exact h.sameNet ⟨rfl, rfl, rfl, rfl, rfl, rfl⟩ fun _ hreq _ _ => .inl hreq
  | destroy _ => exact h.sameNet (MemOnly.protoCmdDestroy ..).toSameNet fun _ hreq _ _ => .inl hreq
  | dropRef _ hr =>
      refine h.sameNet (MemOnly.onSmtsClientSendFrame hr).toSameNet fun req hreq _ _ => ?_
      obtain ⟨-, rfl⟩ | ⟨-, f, -, rfl⟩ := onSmtsClientSendFrame_cases hr <;> exact .inl hreq
  | destroyFrame _ _ =>
      exact h.sameNet (MemOnly.destroySmtsFrame ..).toSameNet fun _ hreq _ _ => .inl hreq
  | send _ _ ht _ hr =>
      refine h.tcpClientSendMsg (fun s hs => ?_) hr
      rcases ht s hs with hS | ⟨c, hc⟩
      · exact hdvr s hS
      · exact (h.attached c s hc).2.2
  | @sendPreviewRes c p _ _ _ _ _ hr =>
      exact (h.setClient c { w.clients c with status := .onSendPreviewRes } rfl (fun _ => rfl)
        (h.closed c)).tcpClientSendMsg (by rintro s ⟨⟩) hr
  | complete _ _ _ =>
      exact h.sameNet ⟨rfl, rfl, rfl, rfl, rfl, rfl⟩ fun _ hreq _ _ => .inl (List.mem_of_mem_eraseIdx hreq)
  | @previewResDone k req c _ _ _ _ =>
      have h₁ : RingInv A (w.eraseWrite k) :=
        h.sameNet ⟨rfl, rfl, rfl, rfl, rfl, rfl⟩ fun _ hreq _ _ => .inl (List.mem_of_mem_eraseIdx hreq)
      have h₂ : RingInv A (((w.eraseWrite k).protoCmdDestroy req.packet).emit (.previewResDone c)) :=
        h₁.sameNet ((MemOnly.protoCmdDestroy ..).toSameNet.trans (.emit ..))
          fun _ hreq _ _ => .inl hreq
      exact h₂.setClient c _ rfl (fun _ => rfl) (h.closed c)
  | relay _ _ => exact h.sameNet (.emit ..) fun _ hreq _ _ => .inl hreq
  | stop _ => exact h.stopSmtsClient _
  | @touch s x ht =>
      refine h.setSession s x ht.clientSize ht.freed fun hA => ?_
      -- a session that was given up has no DVR event, so its flags stay out
      rcases ht.dvr with hS | hne | hx
      · exact absurd hA (hdvr s hS).2
      · exact (hjoin' hne).elim
      · exact hx
  | delete hr => exact h.deleteSession hr
  | initClient _ => exact h.initSmtsClient
  | startRead _ c =>
      exact h.setClient c { w.clients c with reading := true } rfl (fun _ => rfl) (h.closed c)
  | close _ hc => exact h.closeClient hc
  | closed hc => exact h.clientCloseCb hc
  | initSession hne _ => exact (hjoin' hne).elim
  | attach hS _ => exact (hjoin' (by simp [hS])).elim
  | manage hne _ => exact (hjoin' hne).elim
  | abort hS _ => exact (hjoin' (by simp [hS])).elim

theorem RingInv.does (h : RingInv A w₀) (hjoin : S.join = none)
    (hdvr : ∀ s, S.dvr = some s → s < w₀.nSessions ∧ ¬ A s) (hd : Does S w₀ w) :
    RingInv A w := by
  induction hd with
  | start => exact h
  | step hd ha ih =>
      refine ih.action hjoin (fun s hs => ?_) ha
      exact ⟨(hdvr s hs).1.trans_le hd.grows.nSessions, (hdvr s hs).2⟩

/-- Nobody hears of the DVR of a session that was given up. -/
theorem RingInv.scope_dvr (h : RingInv A w) {e : Event} (hen : w.Enabled e) {s : Nat}
    (hs : (w.scope e).dvr = some s) : s < w.nSessions ∧ ¬ A s := by
  have hidle : A s → Idle w s := fun hA => (h.aborted s hA).2.2.2
  cases e with
  | connection => cases hs
  | packet c bytes junk => cases hs
  | readError c status => cases hs
  | dvrConnected t status =>
      obtain rfl := Option.some.inj hs
      refine ⟨hen.1, fun hA => ?_⟩
      have := (hidle hA).connecting
      rw [hen.2] at this
      cases this
  | dvrPacket t bytes junk =>
      obtain rfl := Option.some.inj hs
      refine ⟨hen.1, fun hA => ?_⟩
      have := (hidle hA).reading
      rw [hen.2.1] at this
      cases this
  | dvrReadError t status =>
      obtain rfl := Option.some.inj hs
      refine ⟨hen.1, fun hA => ?_⟩
      have := (hidle hA).reading
      rw [hen.2.1] at this
      cases this
  | writeDone k status =>
      obtain ⟨req, hk, hreq⟩ := Option.bind_eq_some_iff.mp hs
      have hmem := List.mem_of_getElem? hk
      cases htarget : req.client with
      | client c => simp [htarget, Target.dvr?] at hreq
      | dvr t =>
          rw [htarget, Target.dvr?, Option.some.injEq] at hreq
          rw [hreq] at htarget
          exact ⟨h.written req hmem s htarget, fun hA => (hidle hA).writes req hmem htarget⟩
  | timer t => cases hs
  | clientClosed c => cases hs
  | dvrClosed t => cases hs

end Callbacks

/-! ## Starting a preview -/

section Preview

variable {A : Nat → Prop} {w w' : Server} {s c : Nat}

/-- A new session has an empty ring, and nothing leads to it. -/
theorem RingInv.initMediaSession (h : RingInv A w) (key : SessionKey) :
    RingInv A (w.initMediaSession key) where
  ring t ht hA := by
    by_cases hts : t = w.nSessions
    · subst hts
      refine ⟨[], Links.IsRing.init _ _, by simp, fun c => ?_⟩
      simp only [List.not_mem_nil, false_iff]
      intro hc
      have := (h.attached c _ hc).2.2.1
      omega
    · obtain ⟨l, hring, hsize, hmem⟩ := h.ring t (by simp at ht; omega) hA
      refine ⟨l, hring.init_frame (by simp [Ne.symm hts]), ?_, hmem⟩
      simpa [Function.update_of_ne hts] using hsize
  attached c t hc := by
    obtain ⟨hlt, hclosing, ht, hA⟩ := h.attached c t hc
    exact ⟨hlt, hclosing, Nat.lt_succ_of_lt ht, hA⟩
  closed := h.closed
  linked q t hq := by
    by_cases hqs : q = .session w.nSessions
    · subst hqs
      simp only [initMediaSession_manager_links, Links.init_next_self, ManagerNode.session.injEq] at hq
      simp [hq]
    · simp only [initMediaSession_manager_links, Links.init_next hqs] at hq
      exact Nat.lt_succ_of_lt (h.linked q t hq)
  written req hreq t heq := Nat.lt_succ_of_lt (h.written req hreq t heq)
  aborted t hA := by
    obtain ⟨ht, hf, horphan, hidle⟩ := h.aborted t hA
    have hne : t ≠ w.nSessions := by omega
    have hsess : (w.initMediaSession key).sessions t = w.sessions t := Function.update_of_ne hne ..
    refine ⟨Nat.lt_succ_of_lt ht, hsess ▸ hf, horphan.init ?_, hsess ▸ hidle.connecting,
      hsess ▸ hidle.reading, hidle.writes⟩
    simpa using Ne.symm hne

/-- A client with no session is in no ring, and can be linked into one. -/
theorem RingInv.addSmtsClient (h : RingInv A w) (hs : s < w.nSessions) (hA : ¬ A s)
    (hc : c < w.nClients) (hclosing : (w.clients c).closing = false)
    (hsess : (w.clients c).session = none) : RingInv A (w.addSmtsClient s c) where
  ring t ht hAt := by
    obtain ⟨l, hring, hsize, hmem⟩ := h.ring s hs hA
    -- a client with no session is a node of no ring
    have hfree : ∀ {l : List Nat} {t : Nat}, (∀ d, d ∈ l ↔ (w.clients d).session = some t) →
        c ∉ l := fun hmem hcl => by
      rw [hmem, hsess] at hcl
      cases hcl
    by_cases hts : t = s
    · subst hts
      refine ⟨c :: l, hring.insertHead (client_notMem (hfree hmem)), by simp [hsize], fun d => ?_⟩
      by_cases hd : d = c
      · subst hd
        simp
      · simpa [hd, Function.update_of_ne hd] using hmem d
    · obtain ⟨l', hring', hsize', hmem'⟩ := h.ring t ht hAt
      refine ⟨l', hring.insertHead_frame hring' (client_notMem (hfree hmem'))
        (RingInv.disjoint (Ne.symm hts) hmem hmem'), ?_, fun d => ?_⟩
      · simpa [Function.update_of_ne hts] using hsize'
      · by_cases hd : d = c
        · subst hd
          simp [hfree hmem', Ne.symm hts]
        · simpa [Function.update_of_ne hd] using hmem' d
  attached d t hd := by
    by_cases hdc : d = c
    · subst hdc
      simp only [addSmtsClient_clients, Function.update_self, Option.some.injEq] at hd ⊢
      exact ⟨hc, hclosing, hd ▸ hs, hd ▸ hA⟩
    · simp only [addSmtsClient_clients, Function.update_of_ne hdc] at hd ⊢
      exact h.attached d t hd
  closed d hd := by
    by_cases hdc : d = c
    · subst hdc
      simp only [addSmtsClient_clients, Function.update_self] at hd ⊢
      exact h.closed d hd
    · simp only [addSmtsClient_clients, Function.update_of_ne hdc] at hd ⊢
      exact h.closed d hd
  linked := h.linked
  written := h.written
  aborted t hAt := by
    obtain ⟨ht, hf, horphan, hidle⟩ := h.aborted t hAt
    have hts : t ≠ s := by
      rintro rfl
      exact hA hAt
    have hsess : (w.addSmtsClient s c).sessions t = w.sessions t := Function.update_of_ne hts ..
    exact ⟨ht, hsess ▸ hf, horphan, hsess ▸ hidle.connecting, hsess ▸ hidle.reading, hidle.writes⟩

/-- A session that could not be started is freed with its one client still in
the ring, which nobody can come across. -/
theorem RingInv.initSessionError (h : RingInv A w) (hs : s < w.nSessions)
    (horphan : w.manager.links.Orphan (.session s)) (hidle : Idle w s)
    (honly : ∀ d, (w.clients d).session = some s ↔ d = c) :
    RingInv (fun t => A t ∨ t = s) (w.initSessionError s c) where
  ring t ht hA := by
    obtain ⟨hAt, hts⟩ := not_or.mp hA
    obtain ⟨l, hring, hsize, hmem⟩ := h.ring t ht hAt
    refine ⟨l, hring, by simpa [Function.update_of_ne hts] using hsize, fun d => ?_⟩
    rw [hmem d]
    by_cases hd : d = c
    · subst hd
      simp [(honly d).mpr rfl, Ne.symm hts]
    · simp [Function.update_of_ne hd]
  attached d t hd := by
    by_cases hdc : d = c
    · subst hdc
      simp at hd
    · simp only [initSessionError_clients, Function.update_of_ne hdc] at hd ⊢
      obtain ⟨hlt, hclosing, ht, hA⟩ := h.attached d t hd
      refine ⟨hlt, hclosing, ht, not_or.mpr ⟨hA, ?_⟩⟩
      rintro rfl
      exact hdc ((honly d).mp hd)
  closed d hd := by
    by_cases hdc : d = c
    · subst hdc
      simp only [initSessionError_clients, Function.update_self] at hd ⊢
      exact h.closed d hd
    · simp only [initSessionError_clients, Function.update_of_ne hdc] at hd ⊢
      exact h.closed d hd
  linked := h.linked
  written := h.written
  aborted t hA := by
    by_cases hts : t = s
    · subst hts
      refine ⟨hs, by simp, horphan, ?_, ?_, hidle.writes⟩
      · simpa using hidle.connecting
      · simpa using hidle.reading
    · obtain ⟨ht, hf, horphan, hidle⟩ := h.aborted t (hA.resolve_right hts)
      have hsess : (w.initSessionError s c).sessions t = w.sessions t :=
        Function.update_of_ne hts ..
      exact ⟨ht, hsess ▸ hf, horphan, hsess ▸ hidle.connecting, hsess ▸ hidle.reading,
        hidle.writes⟩

/-- Putting a new session into the manager's ring keeps the rings in order. -/
theorem RingInv.addSession (h : RingInv A w) (hs : s < w.nSessions) (hA : ¬ A s)
    {m : SessionManager} (hm : m.links = w.manager.links.insertHead .head (.session s)) :
    RingInv A { w with manager := m } := by
  refine h.manage m (fun q t hq => ?_) fun t hAt => ?_
  · rw [hm] at hq
    by_cases hqh : q = .head
    · rw [hqh, Links.insertHead_next_head, ManagerNode.session.injEq] at hq
      exact hq ▸ hs
    by_cases hqs : q = .session s
    · rw [hqs, Links.insertHead_next_self (by simp)] at hq
      exact h.linked _ t hq
    · rw [Links.insertHead_next hqs hqh] at hq
      exact h.linked q t hq
  · rw [hm]
    refine (h.aborted t hAt).2.2.1.insertHead (by simp) ?_
    rw [Ne, ManagerNode.session.injEq]
    rintro rfl
    exact hA hAt

/-- Only `c` is in the ring of the new session `s`, and nothing was asked of
its DVR yet. -/
structure Joining (A : Nat → Prop) (w : Server) (s c : Nat) : Prop where
  inv : RingInv A w
  lt : s < w.nSessions
  notAborted : ¬ A s
  idle : Idle w s
  only : ∀ d, (w.clients d).session = some s ↔ d = c

theorem RingInv.joining (h : RingInv A w) (key : SessionKey) (hc : c < w.nClients)
    (hclosing : (w.clients c).closing = false) (hsess : (w.clients c).session = none) :
    Joining A ((w.initMediaSession key).addSmtsClient w.nSessions c) w.nSessions c := by
  have hA : ¬ A w.nSessions := fun hA => Nat.lt_irrefl _ (h.aborted _ hA).1
  refine ⟨(h.initMediaSession key).addSmtsClient (Nat.lt_succ_self _) hA hc hclosing hsess,
    Nat.lt_succ_self _, hA, ⟨by simp, by simp, fun req hreq heq => ?_⟩, fun d => ?_⟩
  · exact Nat.lt_irrefl _ (h.written req hreq _ heq)
  · by_cases hd : d = c
    · subst hd
      simp
    · simp only [addSmtsClient_clients, initMediaSession_clients, Function.update_of_ne hd, hd,
        iff_false]
      intro hds
      exact Nat.lt_irrefl _ (h.attached d _ hds).2.2.1

/-- Nothing but libuv was asked, and nothing was queued. -/
structure Quiet (w w' : Server) : Prop extends SameNet w w' where
  writes : w'.writes = w.writes

theorem Quiet.trans {a b c : Server} (h : Quiet a b) (h' : Quiet b c) : Quiet a c :=
  ⟨h.toSameNet.trans h'.toSameNet, h'.writes.trans h.writes⟩

theorem Quiet.emit (w : Server) (o : Obs) : Quiet w (w.emit o) :=
  ⟨.emit w o, rfl⟩

theorem Quiet.uvCall (w : Server) : Quiet w w.uvCall.1 :=
  ⟨⟨rfl, rfl, rfl, rfl, rfl, rfl⟩, rfl⟩

theorem Joining.quiet (h : Joining A w s c) (hq : Quiet w w') : Joining A w' s c where
  inv := h.inv.sameNet hq.toSameNet fun _ hreq _ _ => .inl (hq.writes ▸ hreq)
  lt := hq.nSessions ▸ h.lt
  notAborted := h.notAborted
  idle := ⟨hq.sessions ▸ h.idle.connecting, hq.sessions ▸ h.idle.reading,
    hq.writes ▸ h.idle.writes⟩
  only := hq.clients ▸ h.only

theorem Joining.manage (h : Joining A w s c) {m : SessionManager}
    (hm : RingInv A { w with manager := m }) : Joining A { w with manager := m } s c :=
  ⟨hm, h.lt, h.notAborted, ⟨h.idle.connecting, h.idle.reading, h.idle.writes⟩, h.only⟩

theorem Joining.initSessionError (h : Joining A w s c)
    (horphan : w.manager.links.Orphan (.session s)) :
    RingInv (fun t => A t ∨ t = s) (w.initSessionError s c) :=
  h.inv.initSessionError h.lt horphan h.idle h.only

theorem initSmtsDvrClient_quiet {r : Int} (hr : w.initSmtsDvrClient s = (w', r)) :
    Quiet w w' := by
  obtain rfl := (congrArg Prod.fst hr).symm
  have h := (Quiet.emit w (.uvInit (.dvr s))).trans (.uvCall _)
  rw [initSmtsDvrClient]
  dsimp only
  split <;> exact h

theorem tcpClientConnect_cases {r : Int} (h : w.tcpClientConnect s = (w', r)) :
    ∃ w₁, Quiet w w₁ ∧ ((r ≠ 0 ∧ w' = w₁) ∨
      (r = 0 ∧ w' = w₁.setSession s { w₁.sessions s with
        dvr := { (w₁.sessions s).dvr with connecting := true } })) := by
  have h₁ := (Quiet.emit w (.uvInit (.dvr s))).trans (.uvCall _)
  have h₂ := h₁.trans (.uvCall _)
  have h₃ := h₂.trans (.uvCall _)
  have h₄ := h₃.trans (.uvCall _)
  have h₅ := h₄.trans (.uvCall _)
  rw [tcpClientConnect] at h
  dsimp only at h
  split at h
  · obtain ⟨hw, rfl⟩ := Prod.mk.inj h
    exact ⟨_, h₁, .inl ⟨by decide, hw.symm⟩⟩
  split at h
  next hr =>
    obtain ⟨hw, rfl⟩ := Prod.mk.inj h
    exact ⟨_, h₂, .inl ⟨hr, hw.symm⟩⟩
  split at h
  next hr =>
    obtain ⟨hw, rfl⟩ := Prod.mk.inj h
    exact ⟨_, h₃, .inl ⟨hr, hw.symm⟩⟩
  split at h
  next hr =>
    obtain ⟨hw, rfl⟩ := Prod.mk.inj h
    exact ⟨_, h₄, .inl ⟨hr, hw.symm⟩⟩
  split at h
  next hr =>
    obtain ⟨hw, rfl⟩ := Prod.mk.inj h
    exact ⟨_, h₅, .inl ⟨hr, hw.symm⟩⟩
  next hr =>
    obtain ⟨hw, rfl⟩ := Prod.mk.inj h
    exact ⟨_, h₅, .inr ⟨not_not.mp hr, hw.symm⟩⟩

theorem initSmtsDvrClient_log {r : Int} (h : w.initSmtsDvrClient s = (w', r)) :
    w'.log = w.log ++ [.uvInit (.dvr s)] := by
  obtain rfl := (congrArg Prod.fst h).symm
  rw [initSmtsDvrClient]
  dsimp only
  split <;> rfl

theorem tcpClientConnect_log {r : Int} (h : w.tcpClientConnect s = (w', r)) :
    w'.log = w.log ++ [.uvInit (.dvr s)] := by
  obtain rfl := (congrArg Prod.fst h).symm
  rw [tcpClientConnect]
  dsimp only
  repeat' split
  all_goals rfl

theorem deleteSession_eq {fuel : Nat} (h : w.deleteSession fuel s = some w') :
    ∃ m, w' = { w with manager := m } := by
  obtain ⟨⟨m, r⟩, -, h⟩ := Option.bind_eq_some_iff.mp h
  exact ⟨m, (Option.some.inj h).symm⟩

theorem deleteSession_some {fuel : Nat} {m : SessionManager} {r : Int}
    (h : w.manager.deleteSession w.keyOf fuel (some s) = some (m, r)) :
    w.deleteSession fuel s = some { w with manager := m } := by
  rw [deleteSession, h]
  rfl

/-- A session found in the manager is none that was given up. -/
theorem RingInv.getSession (h : RingInv A w) {fuel : Nat} {key : SessionKey}
    (hget : w.manager.getSession w.keyOf fuel key = some (some s)) : s < w.nSessions ∧ ¬ A s := by
  obtain ⟨q, hq, hnext⟩ := SessionManager.getSession_next hget
  exact ⟨h.linked q s hnext, fun hA => hq ((h.aborted s hA).2.2.1.next q hnext)⟩

/-- A session that could not be started is given up. -/
theorem Joining.starts {fuel : Nat} {r : Int} (h : Joining A w s c)
    (hfresh : w.manager.links.Orphan (.session s)) (hstart : Starts fuel w s c w' r) :
    ∃ A', RingInv A' w' := by
  have hinit : ∀ {w₁ r}, w.initSmtsDvrClient s = (w₁, r) →
      Joining A w₁ s c ∧ w₁.manager.links.Orphan (.session s) := fun hr => by
    have hq := initSmtsDvrClient_quiet hr
    exact ⟨h.quiet hq, hq.manager ▸ hfresh⟩
  cases hstart with
  | initFails hr _ =>
      obtain ⟨h₁, hfresh⟩ := hinit hr
      exact ⟨_, h₁.initSessionError hfresh⟩
  | addFails hr hadd hne =>
      obtain ⟨h₁, hfresh⟩ := hinit hr
      obtain ⟨-, rfl⟩ | ⟨hz, -⟩ := SessionManager.addSession_cases hadd
      · exact ⟨_, h₁.initSessionError hfresh⟩
      · exact absurd hz hne
  | @connectFails _ w₂ w₃ m _ hr hadd hconn hne hdel =>
      obtain ⟨h₁, hfresh⟩ := hinit hr
      obtain ⟨hne, -⟩ | ⟨-, hm⟩ := SessionManager.addSession_cases hadd
      · exact absurd rfl hne
      have h₂ := h₁.manage (h₁.inv.addSession h₁.lt h₁.notAborted hm)
      obtain ⟨w₂', hq, ⟨-, rfl⟩ | ⟨hz, -⟩⟩ := tcpClientConnect_cases hconn
      · have h₃ := h₂.quiet hq
        have hinv := h₃.inv.deleteSession hdel
        obtain ⟨⟨m', r'⟩, hdel', h₄⟩ := Option.bind_eq_some_iff.mp hdel
        obtain rfl := Option.some.inj h₄
        have hm₂ : w₂.manager = m := hq.manager
        have hfirst : w₂.manager.links.next .head = .session s := by
          rw [hm₂, hm, Links.insertHead_next_head]
        refine ⟨_, (h₃.manage hinv).initSessionError ?_⟩
        -- what was put in front a moment ago is found, and taken out again
        obtain ⟨hz, -⟩ | hm' := SessionManager.deleteSession_cases hdel'
        · exact absurd hz (SessionManager.isContain_first hfirst)
        · rw [hm', hm₂, hm]
          exact hfresh.insertHead_remove (by simp)
      · exact absurd hz hne
  | connects hr hadd hconn =>
      obtain ⟨h₁, -⟩ := hinit hr
      obtain ⟨hne, -⟩ | ⟨-, hm⟩ := SessionManager.addSession_cases hadd
      · exact absurd rfl hne
      have h₂ := h₁.manage (h₁.inv.addSession h₁.lt h₁.notAborted hm)
      obtain ⟨w₂', hq, ⟨hne, -⟩ | ⟨-, rfl⟩⟩ := tcpClientConnect_cases hconn
      · exact absurd rfl hne
      · have h₃ := h₂.quiet hq
        exact ⟨A, h₃.inv.setSession _ _ rfl id fun hA => absurd hA h₃.notAborted⟩

theorem RingInv.mediaClientStartPreview (h : RingInv A w) {fuel : Nat} {key : SessionKey} {r : Int}
    (hc : c < w.nClients) (hclosing : (w.clients c).closing = false)
    (hsess : (w.clients c).session = none)
    (hr : w.mediaClientStartPreview fuel c key = some (w', r)) : ∃ A', RingInv A' w' := by
  obtain ⟨found, hget, -⟩ := Option.bind_eq_some_iff.mp hr
  cases found with
  | some s =>
      obtain ⟨-, hres⟩ := mediaClientStartPreview_found hget hr
      obtain ⟨hs, hA⟩ := h.getSession hget
      have h₁ := h.addSmtsClient hs hA hc hclosing hsess
      have hd := (Does.start (S := {})).smtsClientSendPreviewRes (.inl trivial) hres
      exact ⟨A, h₁.does rfl (by rintro s ⟨⟩) hd⟩
  | none =>
      have hfresh : (w.initMediaSession key).manager.links.Orphan (.session w.nSessions) :=
        .of_init fun q hq => Nat.lt_irrefl _ (h.linked q _ hq)
      exact (h.joining key hc hclosing hsess).starts hfresh (mediaClientStartPreview_new hget hr)

/-- A preview request of a client that has no session yet. -/
theorem RingInv.dispatchPreview (h : RingInv A w) {fuel : Nat} {bytes : List Byte}
    {junk : Int → Byte} (hen : w.Enabled (.packet c bytes junk))
    (hprev : (Event.packet c bytes junk).preview = some c) (hsess : (w.clients c).session = none)
    (hr : w.dispatchPacket fuel c bytes junk = some w') : ∃ A', RingInv A' w' := by
  obtain ⟨hc, -, hclosing, -⟩ := hen
  obtain ⟨t, w₁, hstart, rfl⟩ := dispatchPacket_preview hprev hr
  have h₁ : RingInv A ((w.setHeap (w.heap.receive bytes).1).addCmd t) :=
    h.sameNet ⟨rfl, rfl, rfl, rfl, rfl, rfl⟩ fun _ hreq _ _ => .inl hreq
  have hdone : ∀ {A' w₁}, RingInv A' w₁ → RingInv A' (w₁.protoCmdDestroy w.nCmds) := fun h =>
    h.sameNet (MemOnly.protoCmdDestroy ..).toSameNet fun _ hreq _ _ => .inl hreq
  obtain ⟨w₂, r, hmedia, hcase⟩ := smtsStartPreview_cases hstart
  obtain ⟨A', h₂⟩ := h₁.mediaClientStartPreview hc hclosing hsess hmedia
  refine ⟨A', hdone ?_⟩
  obtain ⟨-, rfl⟩ | ⟨-, w₃, w₄, r', henc, hsend, hw⟩ := hcase
  · exact h₂
  · have hd := (Does.start (S := {})).errorPreviewRes (c := c) (.inl trivial) henc
    rw [hsend] at hd
    rcases hw with rfl | rfl
    · exact h₂.does rfl (by rintro s ⟨⟩) hd.1
    · exact h₂.does rfl (by rintro s ⟨⟩) hd.2

/-- A client that asks for a preview is in no session. -/
def JoinsOnce (w : Server) (e : Event) : Prop :=
  ∀ c, e.preview = some c → (w.clients c).session = none

theorem RingInv.step (h : RingInv A w) {e : Event} (he : w.JoinsOnce e) (hstep : Step w e w') :
    ∃ A', RingInv A' w' := by
  obtain ⟨hen, fuel, hr⟩ := hstep
  cases hprev : e.preview with
  | none =>
      have hd := handle_does_any hen hr
      refine ⟨A, h.does (S := { w.scope e with reach := fun _ => True }) ?_
        (fun s hs => h.scope_dvr hen hs) hd⟩
      cases e <;> first | rfl | exact hprev
  | some c =>
      obtain ⟨bytes, junk, rfl⟩ := Event.preview_eq_some hprev
      exact h.dispatchPreview hen hprev (he c hprev) hr

end Preview

/-! ## Whole runs -/

theorem ringInv_of_run {uv : Nat → Int} {garbage : Nat → Values NvmpName} {es : List Event}
    {w : Server}
    (h : Transition.Run (fun w e w' => w.JoinsOnce e ∧ Step w e w') (init uv garbage) es w) :
    ∃ A, RingInv A w :=
  h.invariant (I := fun w => ∃ A, RingInv A w)
    (fun _ _ _ ⟨_, hA⟩ ⟨he, hstep⟩ => hA.step he hstep) ⟨_, init_ringInv uv garbage⟩

/-- A `preview_cmd` with all its fields zero. -/
def zeroPreviewCmd : List Byte := [0, 0, 0, 162, 0, 5, 1, 4] ++ List.replicate 154 0

/-- The first client sends that packet; the bytes behind it are zero. -/
def preview0 : Event := .packet 0 zeroPreviewCmd fun _ => 0

/-- The client `c` asks for a preview of the DVR `id`. -/
def previewOf (c : Nat) (id : Byte) : Event :=
  .packet c ([0, 0, 0, 162, 0, 5, 1, 4] ++ (List.replicate 154 0).set 147 id) fun _ => 0

/-- One client is connected, and no call of libuv's fails. -/
def connected0 : Server := (init (fun _ => 0) fun _ => Values.zero).clientOnConnection

theorem connected0_step :
    Step (init (fun _ => 0) fun _ => Values.zero) .connection connected0 :=
  ⟨trivial, 0, rfl⟩

theorem connected0_enabled : connected0.Enabled preview0 :=
  ⟨by decide, by decide, by decide, by decide +kernel, by decide +kernel, by decide +kernel⟩

/-- Three clients in one session. The first one waits for the DVR, and the others
have been told that all is well. -/
def threeClients : List Event :=
  [.connection, previewOf 0 0, .connection, previewOf 1 0, .connection, previewOf 2 0,
    .dvrConnected 0 0, .writeDone 0 0, .writeDone 0 0]

/-- The `n`-th call of libuv's fails with `UV_EPIPE`, and no other one. -/
def brokenPipe (n k : Nat) : Int := if k = n then -32 else 0

end Server

end Smts
