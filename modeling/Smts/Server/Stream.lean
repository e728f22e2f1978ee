import Smts.Server.Exits
import Smts.Server.Relay

/-!
# Server — the frames a client gets

Which frames a client is sent, as against the frames its session received: all
of them, once and in order, from the callback of its preview response until it
is stopped, whoever else comes or goes. The loop that passes a frame on owes
it to the clients it has not come to yet; between two callbacks nothing is
owed.
-/

namespace Smts

open Circular

/-! ## What is seen of a client's stream -/

/-- The frame, if it is one that the session `s` received. -/
def Obs.frameOf (s : Nat) : Obs → Option Nat
  | .recvFrame t f => if t = s then some f else none
  | _ => none

/-- The frame, if it is one that `c` was sent. -/
def Obs.frameTo (c : Nat) : Obs → Option Nat
  | .frameSent d f => if d = c then f else none
  | _ => none

/-- The frames that the session `s` received from its DVR, in their order. -/
def received (s : Nat) (log : List Obs) : List Nat := log.filterMap (Obs.frameOf s)

/-- The frames that `c` was sent, in their order. -/
def sent (c : Nat) (log : List Obs) : List Nat := log.filterMap (Obs.frameTo c)

/-- What happens between the callback of `c`'s preview response and its stop. -/
def onAir (c : Nat) (log : List Obs) : List Obs :=
  (log.takeWhile fun o => o ≠ .stop c).dropWhile fun o => o ≠ .previewResDone c

/-- The observations that matter for the frames that `c` gets. -/
def Obs.concerns (c : Nat) : Obs → Bool
  | .attach d _ | .previewResDone d | .stop d | .frameSent d _ => d == c
  | .recvFrame .. => true
  | _ => false

theorem Obs.concerns_of_ofStream {o : Obs} (h : o.ofStream = false) (c : Nat) :
    o.concerns c = false := by
  cases o <;> first | rfl | cases h

section Logs

variable {s c : Nat} {m l : List Obs}

@[simp]
theorem received_append (s : Nat) (l m : List Obs) :
    received s (l ++ m) = received s l ++ received s m :=
  List.filterMap_append

@[simp]
theorem sent_append (c : Nat) (l m : List Obs) : sent c (l ++ m) = sent c l ++ sent c m :=
  List.filterMap_append

@[simp]
theorem received_previewResDone (s c : Nat) (l : List Obs) :
    received s (.previewResDone c :: l) = received s l := rfl

@[simp]
theorem sent_previewResDone (c d : Nat) (l : List Obs) :
    sent c (.previewResDone d :: l) = sent c l := rfl

/-- Nothing in `m` matters for the frames `c` gets. -/
def Silent (c : Nat) (m : List Obs) : Prop := ∀ o ∈ m, o.concerns c = false

theorem Silent.notMem (h : Silent c m) {o : Obs} (ho : o.concerns c = true) : o ∉ m := fun hmem => by
  rw [h o hmem] at ho
  cases ho

theorem Silent.append (h : Silent c l) (h' : Silent c m) : Silent c (l ++ m) := fun o ho =>
  (List.mem_append.mp ho).elim (h o) (h' o)

theorem Silent.received (h : Silent c m) (s : Nat) : received s m = [] :=
  List.filterMap_eq_nil_iff.mpr fun o ho => by
    have := h o ho
    cases o <;> first | rfl | cases this

theorem Silent.sent (h : Silent c m) : sent c m = [] :=
  List.filterMap_eq_nil_iff.mpr fun o ho => by
    have := h o ho
    cases o <;> first | rfl | simp_all [Obs.concerns, Obs.frameTo]

theorem Silent.previewResDone (h : Silent c m) : .previewResDone c ∉ m :=
  h.notMem (by simp [Obs.concerns])

/-- The part of the log before the client is stopped. -/
theorem takeWhile_stop (hl : .stop c ∉ l) :
    (l ++ .stop c :: m).takeWhile (fun o => decide (o ≠ .stop c)) = l := by
  rw [List.takeWhile_append_of_pos fun o ho => by simpa using ne_of_mem_of_not_mem ho hl]
  simp

theorem takeWhile_of_stop_notMem (hl : .stop c ∉ l) :
    l.takeWhile (fun o => decide (o ≠ .stop c)) = l :=
  List.takeWhile_eq_self_iff.mpr fun o ho => by simpa using ne_of_mem_of_not_mem ho hl

theorem dropWhile_previewResDone (hl : .previewResDone c ∉ l) :
    (l ++ .previewResDone c :: m).dropWhile (fun o => decide (o ≠ .previewResDone c))
      = .previewResDone c :: m := by
  rw [List.dropWhile_append_of_pos fun o ho => by simpa using ne_of_mem_of_not_mem ho hl]
  simp

theorem dropWhile_of_previewResDone_notMem (hl : .previewResDone c ∉ l) :
    l.dropWhile (fun o => decide (o ≠ .previewResDone c)) = [] :=
  List.dropWhile_eq_nil_iff.mpr fun o ho => by simpa using ne_of_mem_of_not_mem ho hl

end Logs

namespace Server

/-! ## Where a client stands -/

/-- The response of `c`'s preview has not been written yet. -/
def Slient (w : Server) (c : Nat) : Prop :=
  ∃ req ∈ w.writes, req.cb = .previewResSlient ∧ req.client = .client c

/-- Where `c` stands, when its session has received the frames `owed` for which
the loop has not come to it. -/
inductive At (w : Server) (c : Nat) (owed : List Nat) : Prop where
  /-- in no session, and it never was in a session that can receive frames -/
  | outside (session : (w.clients c).session = none) (status : (w.clients c).status ≠ .onSendFrames)
      (slient : ¬ w.Slient c) (stop : .stop c ∈ w.log → (w.clients c).closing = true ∧ c < w.nClients)
      (done : .previewResDone c ∉ w.log) (sent : sent c w.log = [])
  /-- its preview response has not been written -/
  | waiting {s : Nat} (session : (w.clients c).session = some s)
      (status : (w.clients c).status ≠ .onSendFrames) (stop : .stop c ∉ w.log)
      (done : .previewResDone c ∉ w.log) (sent : sent c w.log = [])
      (attach : ∀ t, .attach c t ∈ w.log ↔ t = s)
  /-- it gets frames -/
  | streaming {s : Nat} (session : (w.clients c).session = some s)
      (status : (w.clients c).status = .onSendFrames) (stop : .stop c ∉ w.log) {a b : List Obs}
      (log : w.log = a ++ .previewResDone c :: b) (done : .previewResDone c ∉ a)
      (before : sent c a = []) (frames : received s b = sent c b ++ owed)
      (attach : ∀ t, .attach c t ∈ w.log ↔ t = s)
  /-- it was stopped -/
  | stopped {s : Nat} (session : (w.clients c).session = none) {a b : List Obs}
      (log : w.log = a ++ .stop c :: b) (stop : .stop c ∉ a) (after : sent c b = [])
      {lost : List Nat} (lost_le : lost.length ≤ 1)
      (frames : received s (a.dropWhile fun o => o ≠ .previewResDone c) = sent c a ++ lost)
      (aired : sent c (a.dropWhile fun o => o ≠ .previewResDone c) = sent c a)
      (attach : ∀ t, .attach c t ∈ w.log ↔ t = s)

/-- To `c` nothing happened. -/
structure Calm (c : Nat) (w w' : Server) : Prop where
  session : (w'.clients c).session = (w.clients c).session
  status : (w'.clients c).status = .onSendFrames ↔ (w.clients c).status = .onSendFrames
  closing : (w.clients c).closing = true → (w'.clients c).closing = true
  nClients : w.nClients ≤ w'.nClients
  slient : (w.clients c).session = none → w'.Slient c → w.Slient c
  log : ∃ m, w'.log = w.log ++ m ∧ Silent c m

section Clients

variable {w w' : Server} {c d s : Nat} {owed : List Nat}

theorem Calm.refl (c : Nat) (w : Server) : Calm c w w :=
  ⟨rfl, Iff.rfl, id, le_rfl, fun _ => id, [], (List.append_nil _).symm, by simp [Silent]⟩

theorem Calm.trans {w₁ : Server} (h : Calm c w w₁) (h' : Calm c w₁ w') : Calm c w w' := by
  obtain ⟨m, hm, hmo⟩ := h.log
  obtain ⟨m', hm', hmo'⟩ := h'.log
  exact ⟨h'.session.trans h.session, h'.status.trans h.status, fun hc => h'.closing (h.closing hc),
    h.nClients.trans h'.nClients,
    fun hnone hs => h.slient hnone (h'.slient (h.session.trans hnone) hs), m ++ m',
    by rw [hm', hm, List.append_assoc], hmo.append hmo'⟩

theorem At.calm (h : At w c owed) (hcalm : Calm c w w') : At w' c owed := by
  obtain ⟨m, hlog, hm⟩ := hcalm.log
  have hmem : ∀ {o : Obs}, o.concerns c = true → (o ∈ w'.log ↔ o ∈ w.log) := fun ho => by
    rw [hlog, List.mem_append, or_iff_left (hm.notMem ho)]
  have hstop : .stop c ∈ w'.log ↔ .stop c ∈ w.log := hmem (by simp [Obs.concerns])
  have hdone : .previewResDone c ∈ w'.log ↔ .previewResDone c ∈ w.log := hmem (by simp [Obs.concerns])
  have hattach : ∀ t, .attach c t ∈ w'.log ↔ .attach c t ∈ w.log := fun t =>
    hmem (by simp [Obs.concerns])
  have hsent : sent c w'.log = sent c w.log := by rw [hlog, sent_append, hm.sent, List.append_nil]
  cases h with
  | outside session status slient stop done sent =>
      refine .outside (hcalm.session.trans session) (fun h => status (hcalm.status.mp h))
        (fun h => slient (hcalm.slient session h)) (fun h => ?_) (fun h => done (hdone.mp h))
        (hsent.trans sent)
      obtain ⟨hclosing, hlt⟩ := stop (hstop.mp h)
      exact ⟨hcalm.closing hclosing, hlt.trans_le hcalm.nClients⟩
  | waiting session status stop done sent attach =>
      exact .waiting (hcalm.session.trans session) (fun h => status (hcalm.status.mp h))
        (fun h => stop (hstop.mp h)) (fun h => done (hdone.mp h)) (hsent.trans sent)
        fun t => (hattach t).trans (attach t)
  | @streaming s session status stop l₁ l₂ log done before frames attach =>
      refine .streaming (a := l₁) (b := l₂ ++ m) (hcalm.session.trans session)
        (hcalm.status.mpr status) (fun h => stop (hstop.mp h)) ?_ done before ?_
        fun t => (hattach t).trans (attach t)
      · rw [hlog, log, List.append_assoc, List.cons_append]
      · rw [received_append, sent_append, hm.received, hm.sent, List.append_nil, List.append_nil, frames]
  | @stopped s session l₁ l₂ log stop after lost lost_le frames aired attach =>
      refine .stopped (a := l₁) (b := l₂ ++ m) (hcalm.session.trans session) ?_ stop ?_ lost_le frames
        aired fun t => (hattach t).trans (attach t)
      · rw [hlog, log, List.append_assoc, List.cons_append]
      · rw [sent_append, after, hm.sent, List.append_nil]

theorem Slient.of_writes (hw : ∀ req ∈ w'.writes, req ∈ w.writes) (h : w'.Slient c) : w.Slient c := by
  obtain ⟨req, hreq, hcb, hc⟩ := h
  exact ⟨req, hw req hreq, hcb, hc⟩

/-- Where only packets and buffers are touched, nothing happens to a client and
its frames. -/
theorem MemOnly.calm (h : MemOnly w w') (hw : w'.Slient c → w.Slient c) : Calm c w w' := by
  obtain ⟨m, hlog, hm⟩ := h.log
  exact ⟨by rw [h.clients], by rw [h.clients], by rw [h.clients]; exact id, h.nClients.ge, fun _ => hw,
    m, hlog, fun o ho => Obs.concerns_of_ofStream (hm o ho) c⟩

/-- What is written is not the preview response of `c`. -/
theorem Slient.of_send {t : Target} {p : Nat} {cb : SendCb} {r : Int}
    (hne : cb ≠ .previewResSlient ∨ t ≠ .client c) (hr : w.tcpClientSendMsg t p cb = (w', r))
    (h : w'.Slient c) : w.Slient c := by
  obtain ⟨req, hreq, hcb, hc⟩ := h
  obtain ⟨-, rfl⟩ | ⟨-, rfl⟩ := tcpClientSendMsg_cases hr
  · rcases List.mem_append.mp hreq with hreq | hreq
    · exact ⟨req, hreq, hcb, hc⟩
    · obtain rfl := List.mem_singleton.mp hreq
      exact (hne.elim (· hcb) (· hc)).elim
  · exact ⟨req, hreq, hcb, hc⟩

/-- What happens to another client leaves this one calm. -/
theorem Calm.update {x : SmtsClient} (hd : d ≠ c) (hclients : w'.clients = Function.update w.clients d x)
    (hn : w.nClients ≤ w'.nClients) (hw : ∀ req ∈ w'.writes, req ∈ w.writes) {m : List Obs}
    (hlog : w'.log = w.log ++ m) (hm : Silent c m) : Calm c w w' := by
  have hc : w'.clients c = w.clients c := by rw [hclients, Function.update_of_ne (Ne.symm hd)]
  exact ⟨by rw [hc], by rw [hc], by rw [hc]; exact id, hn, fun _ => .of_writes hw, m, hlog, hm⟩

theorem silent_stop (hd : d ≠ c) : Silent c [.stop d, .uvClose (.client d)] := fun o ho => by
  rcases List.mem_pair.mp ho with rfl | rfl
  · simpa [Obs.concerns] using hd
  · rfl

theorem stopSmtsClient_calm (w : Server) (hd : d ≠ c) : Calm c w (w.stopSmtsClient d) := by
  obtain ⟨-, h⟩ | ⟨-, -, h⟩ | ⟨-, s, -, h⟩ := stopSmtsClient_cases w d <;> rw [h]
  · exact .refl c w
  · exact .update hd rfl le_rfl (fun _ hreq => hreq) rfl (silent_stop hd)
  · exact .update hd rfl le_rfl (fun _ hreq => hreq) rfl (silent_stop hd)

/-- A client that is stopped is owed nothing any more. -/
theorem At.stop (h : At w c owed) (howed : owed.length ≤ 1) (hlt : c < w.nClients) :
    At (w.stopSmtsClient c) c [] := by
  by_cases hst : (w.clients c).status = .onStop
  · rw [stopSmtsClient_of_onStop hst]
    cases h with
    | outside session status slient stop done sent =>
        exact .outside session status slient stop done sent
    | waiting session status stop done sent attach =>
        exact .waiting session status stop done sent attach
    | streaming _ status _ _ _ _ _ _ =>
        rw [hst] at status
        cases status
    | stopped session log stop after lost_le frames aired attach =>
        exact .stopped session log stop after lost_le frames aired attach
  -- from now on the client is stopped
  have hclients : (w.stopSmtsClient c).clients c = (w.clients c).stopped := by
    obtain ⟨habs, -⟩ | ⟨-, -, h⟩ | ⟨-, s, -, h⟩ := stopSmtsClient_cases w c
    · exact absurd habs hst
    · rw [h]
      exact Function.update_self ..
    · rw [h]
      exact Function.update_self ..
  have hrest : (w.stopSmtsClient c).log = w.log ++ [.stop c, .uvClose (.client c)] ∧
      (w.stopSmtsClient c).writes = w.writes ∧ (w.stopSmtsClient c).nClients = w.nClients := by
    obtain ⟨habs, -⟩ | ⟨-, -, h⟩ | ⟨-, s, -, h⟩ := stopSmtsClient_cases w c
    · exact absurd habs hst
    · rw [h]
      exact ⟨rfl, rfl, rfl⟩
    · rw [h]
      exact ⟨rfl, rfl, rfl⟩
  obtain ⟨hlog, hwrites, hn⟩ := hrest
  have hsession : ((w.stopSmtsClient c).clients c).session = none := by
    rw [hclients]
    rfl
  have hattach : ∀ t, .attach c t ∈ (w.stopSmtsClient c).log ↔ .attach c t ∈ w.log := fun t => by
    rw [hlog]
    simp
  cases h with
  | outside session status slient stop done sent =>
      refine .outside hsession ?_ (fun h => slient (.of_writes (fun _ hreq => hwrites ▸ hreq) h))
        (fun _ => ⟨?_, hn.symm ▸ hlt⟩) ?_ ?_
      · rw [hclients]
        simp [SmtsClient.stopped]
      · rw [hclients]
        rfl
      · rw [hlog]
        simpa using done
      · rw [hlog, sent_append, sent]
        rfl
  | @waiting s session status stop done sent attach =>
      refine .stopped (a := w.log) (b := [.uvClose (.client c)]) hsession hlog stop rfl
        (show ([] : List Nat).length ≤ 1 from Nat.zero_le _) ?_ ?_ fun t => (hattach t).trans (attach t)
      · rw [dropWhile_of_previewResDone_notMem done, sent]
        rfl
      · rw [dropWhile_of_previewResDone_notMem done, sent]
        rfl
  | @streaming s session status stop l₁ l₂ log done before frames attach =>
      refine .stopped (a := w.log) (b := [.uvClose (.client c)]) hsession hlog stop rfl howed ?_ ?_
        fun t => (hattach t).trans (attach t)
      · rw [log, dropWhile_previewResDone done, received_previewResDone, frames, sent_append, before,
          sent_previewResDone, List.nil_append]
      · rw [log, dropWhile_previewResDone done, sent_append, before, List.nil_append]
  | @stopped s session l₁ l₂ log stop after lost lost_le frames aired attach =>
      refine .stopped (a := l₁) (b := l₂ ++ [.stop c, .uvClose (.client c)]) hsession ?_ stop ?_ lost_le
        frames aired fun t => (hattach t).trans (attach t)
      · rw [hlog, log, List.append_assoc, List.cons_append]
      · rw [sent_append, after]
        rfl

end Clients

/-! ## What the handlers do -/

/-- Where all clients stand, and that no write is for another. -/
structure Standing (w : Server) (owed : Nat → List Nat) : Prop where
  clients : ∀ c, At w c (owed c)
  written : ∀ req ∈ w.writes, ∀ c, req.client = .client c → c < w.nClients

/-- Nothing happened to a client that was there before. -/
structure Still (w w' : Server) : Prop where
  nClients : w'.nClients = w.nClients
  calm : ∀ c, Calm c w w'
  written : ∀ req ∈ w'.writes, ∀ c, req.client = .client c → req ∈ w.writes ∨ c < w.nClients

section Handlers

variable {w w' : Server} {c d s p : Nat} {owed : Nat → List Nat}

theorem Still.refl (w : Server) : Still w w :=
  ⟨rfl, fun c => .refl c w, fun _ hreq _ _ => .inl hreq⟩

theorem Still.trans {w₁ : Server} (h : Still w w₁) (h' : Still w₁ w') : Still w w' :=
  ⟨h'.nClients.trans h.nClients, fun c => (h.calm c).trans (h'.calm c), fun req hreq c hc =>
    (h'.written req hreq c hc).elim (fun hold => h.written req hold c hc)
      fun hlt => .inr (h.nClients ▸ hlt)⟩

theorem Still.of_memOnly (h : MemOnly w w') (hw : ∀ req ∈ w'.writes, req ∈ w.writes) : Still w w' :=
  ⟨h.nClients, fun _ => h.calm (.of_writes hw), fun req hreq _ _ => .inl (hw req hreq)⟩

theorem Still.tcpClientSendMsg {t : Target} {cb : SendCb} {r : Int} (hcb : cb ≠ .previewResSlient)
    (ht : ∀ c, t = .client c → c < w.nClients) (hr : w.tcpClientSendMsg t p cb = (w', r)) :
    Still w w' := by
  have hmem := MemOnly.tcpClientSendMsg hr
  refine ⟨hmem.nClients, fun c => hmem.calm (.of_send (.inl hcb) hr), fun req hreq c hc => ?_⟩
  obtain ⟨-, rfl⟩ | ⟨-, rfl⟩ := tcpClientSendMsg_cases hr
  · rcases List.mem_append.mp hreq with hreq | hreq
    · exact .inl hreq
    · obtain rfl := List.mem_singleton.mp hreq
      exact .inr (ht c hc)
  · exact .inl hreq

/-- Sessions, the manager and the log of other things. -/
theorem Still.of_clients_eq (hclients : w'.clients = w.clients) (hn : w'.nClients = w.nClients)
    (hw : w'.writes = w.writes) {m : List Obs} (hlog : w'.log = w.log ++ m)
    (hm : ∀ c, Silent c m) : Still w w' :=
  ⟨hn, fun c => ⟨by rw [hclients], by rw [hclients], by rw [hclients]; exact id, hn.ge,
    fun _ => .of_writes (by simp [hw]), m, hlog, hm c⟩, fun req hreq _ _ => .inl (hw ▸ hreq)⟩

theorem Still.setSession (w : Server) (s : Nat) (x : SmtsSession) : Still w (w.setSession s x) :=
  .of_clients_eq rfl rfl rfl (List.append_nil _).symm fun _ _ ho => nomatch ho

theorem Still.deleteSession {fuel : Nat} (hr : w.deleteSession fuel s = some w') : Still w w' := by
  obtain ⟨m, rfl⟩ := deleteSession_eq hr
  exact .of_clients_eq rfl rfl rfl (List.append_nil _).symm fun _ _ ho => nomatch ho

theorem Still.onSmtsClientSendFrame (hr : w.onSmtsClientSendFrame p = some w') : Still w w' := by
  refine .of_memOnly (.onSmtsClientSendFrame hr) fun req hreq => ?_
  obtain ⟨-, rfl⟩ | ⟨-, f, -, rfl⟩ := onSmtsClientSendFrame_cases hr <;> exact hreq

theorem Standing.still (h : Standing w owed) (hs : Still w w') : Standing w' owed where
  clients c := (h.clients c).calm (hs.calm c)
  written req hreq c hc := by
    have hn := (hs.calm c).nClients
    rcases hs.written req hreq c hc with hold | hlt
    · exact (h.written req hold c hc).trans_le hn
    · exact hlt.trans_le hn

/-- A client that has been handed all it was owed stands like the others. -/
theorem Standing.settled (h : Standing w (Function.update (fun _ => []) c [])) :
    Standing w fun _ => [] := by
  rwa [Function.update_eq_self_iff.mpr rfl] at h

/-- When one client is served, the others are owed what they were owed before. -/
theorem Standing.update (h : Standing w owed) (hc : At w' c []) (hcalm : ∀ d, d ≠ c → Calm d w w')
    (hw : ∀ req ∈ w'.writes, req ∈ w.writes ∨ req.client = .client c) (hn : w.nClients ≤ w'.nClients)
    (hlt : c < w.nClients) :
    Standing w' (Function.update owed c []) where
  clients d := by
    by_cases hd : d = c
    · subst hd
      rwa [Function.update_self]
    · rw [Function.update_of_ne hd]
      exact (h.clients d).calm (hcalm d hd)
  written req hreq d hd := by
    rcases hw req hreq with hold | hnew
    · exact (h.written req hold d hd).trans_le hn
    · obtain rfl := Target.client.inj (hd.symm.trans hnew)
      exact hlt.trans_le hn

theorem stopSmtsClient_writes (w : Server) (c : Nat) : (w.stopSmtsClient c).writes = w.writes :=
  (NetOnly.stopSmtsClient w c).writes

theorem stopSmtsClient_nClients (w : Server) (c : Nat) : (w.stopSmtsClient c).nClients = w.nClients := by
  obtain ⟨-, h⟩ | ⟨-, -, h⟩ | ⟨-, s, -, h⟩ := stopSmtsClient_cases w c <;> rw [h]

theorem Standing.stop (h : Standing w owed) (howed : (owed c).length ≤ 1) (hlt : c < w.nClients) :
    Standing (w.stopSmtsClient c) (Function.update owed c []) :=
  h.update ((h.clients c).stop howed hlt) (fun _ hd => stopSmtsClient_calm w (Ne.symm hd))
    (fun _ hreq => .inl (stopSmtsClient_writes w c ▸ hreq)) (stopSmtsClient_nClients w c).ge hlt

/-- The preview response of a client that is in a session. -/
theorem Standing.smtsClientSendPreviewRes (h : Standing w fun _ => []) {status : Int}
    (hsess : (w.clients c).session = some s) (hlt : c < w.nClients)
    (hr : w.smtsClientSendPreviewRes c status = some w') : Standing w' fun _ => [] := by
  obtain ⟨hc, w₁, w₂, r, henc, hsend, hcase⟩ | ⟨-, ⟨-, rfl⟩ | ⟨-, rfl⟩⟩ :=
    smtsClientSendPreviewRes_cases hr
  · have h₁ : Standing w₁ fun _ => [] :=
      h.still (.of_memOnly (.encodeNew henc) fun _ hreq => encodeNew_writes henc ▸ hreq)
    rw [← encodeNew_clients henc] at hc hsess
    have hlt₁ : c < w₁.nClients := (MemOnly.encodeNew henc).nClients.symm ▸ hlt
    have hmem := MemOnly.tcpClientSendMsg hsend
    -- its own response is the one write more, and it has been waiting for it
    have h₂ : Standing w₂ fun _ => [] := by
      obtain ⟨m, hlog, hm⟩ := hmem.log
      refine Standing.settled (h₁.update ((h₁.clients c).calm ⟨?_, ?_, ?_, hmem.nClients.ge, fun hnone => ?_, m, hlog,
        fun o ho => Obs.concerns_of_ofStream (hm o ho) c⟩) (fun d hd => ?_) (fun req hreq => ?_)
        hmem.nClients.ge hlt₁)
      · rw [hmem.clients]
        simp
      · rw [hmem.clients]
        simp [hc]
      · rw [hmem.clients]
        simp
      · rw [hsess] at hnone
        cases hnone
      · have hset : Calm d w₁ (w₁.setClient c { w₁.clients c with status := .onSendPreviewRes }) :=
          .update (Ne.symm hd) rfl le_rfl (fun _ hreq => hreq) (List.append_nil _).symm fun _ ho =>
            nomatch ho
        exact hset.trans (hmem.calm (.of_send (.inr (by simpa using Ne.symm hd)) hsend))
      · obtain ⟨-, rfl⟩ | ⟨-, rfl⟩ := tcpClientSendMsg_cases hsend
        · rcases List.mem_append.mp hreq with hreq | hreq
          · exact .inl hreq
          · obtain rfl := List.mem_singleton.mp hreq
            exact .inr rfl
        · exact .inl hreq
    obtain ⟨-, rfl⟩ | ⟨-, rfl⟩ := hcase
    · exact h₂
    · have h₃ := h₂.still (.of_memOnly (.protoCmdDestroy w₂ w.nCmds) fun _ hreq => hreq)
      exact (h₃.stop (Nat.zero_le _) (hmem.nClients.symm ▸ hlt₁)).settled
  · exact (h.stop (Nat.zero_le _) hlt).settled
  · exact h

/-- The clients of a session whose turn has not come in a loop are in it. -/
def Ahead (s : Nat) (rest : List Nat) (w : Server) : Prop :=
  rest.Nodup ∧ ∀ c ∈ rest, (w.clients c).session = some s ∧ c < w.nClients

theorem Ahead.next {rest : List Nat} (h : Ahead s (c :: rest) w) (htame : Tame c w w')
    (hn : w'.nClients = w.nClients) : Ahead s rest w' := by
  obtain ⟨hc, hrest⟩ := List.nodup_cons.mp h.1
  refine ⟨hrest, fun d hd => ?_⟩
  rw [htame.clients d (ne_of_mem_of_not_mem hd hc), hn]
  exact h.2 d (List.mem_cons_of_mem _ hd)

/-- The clients of a session, in the order of its ring. -/
theorem RingInv.ahead {A : Nat → Prop} (h : RingInv A w) (hs : s < w.nSessions) (hA : ¬ A s) :
    ∃ l : List Nat, w.rings.IsRing (.head s) (l.map .client) ∧ Ahead s l w ∧
      (w.sessions s).clientSize = l.length ∧ ∀ c, c ∈ l ↔ (w.clients c).session = some s := by
  obtain ⟨l, hring, hsize, hmem⟩ := h.ring s hs hA
  exact ⟨l, hring, ⟨List.Nodup.of_map _ hring.nodes_nodup, fun c hc =>
    ⟨(hmem c).mp hc, (h.attached c s ((hmem c).mp hc)).1⟩⟩, hsize, hmem⟩

theorem smtsClientSendPreviewRes_nClients {status : Int}
    (hr : w.smtsClientSendPreviewRes c status = some w') : w'.nClients = w.nClients := by
  obtain ⟨w₁, st, h₁, -, -, rfl | rfl⟩ := smtsClientSendPreviewRes_stops hr
  · exact h₁.nClients
  · exact (stopSmtsClient_nClients w₁ c).trans h₁.nClients

theorem Standing.stopMediaSession {A : Nat → Prop} {fuel : Nat} (h : Standing w fun _ => [])
    (hring : RingInv A w) (hs : s < w.nSessions) (hA : ¬ A s)
    (hr : w.stopMediaSession fuel s = some w') : Standing w' fun _ => [] := by
  obtain ⟨l, hl, hahead, -⟩ := hring.ahead hs hA
  obtain ⟨w₁, hdel, hr⟩ := Option.bind_eq_some_iff.mp hr
  have h₁ := h.still (.deleteSession hdel)
  obtain ⟨m, rfl⟩ := deleteSession_eq hdel
  have hfold : l.foldlM (stopRound s) { w with manager := m } = some w' :=
    foldlM_of_forEachClient (w := { w with manager := m }) hl (fun c a b => stopRound_rings) hr
  refine (Links.foldlM_rule (I := fun rest v => Standing v (fun _ => []) ∧ Ahead s rest v)
    (fun c rest v v' hI hround => ?_) ⟨h₁, hahead⟩ hfold).1
  obtain ⟨hv, hahead⟩ := hI
  have hrings := stopRound_rings hround
  obtain ⟨v₁, hres, hround⟩ := Option.bind_eq_some_iff.mp hround
  obtain rfl := Option.some.inj hround
  obtain ⟨hsess, hlt⟩ := hahead.2 c List.mem_cons_self
  have hn := smtsClientSendPreviewRes_nClients hres
  have hv₁ := hv.smtsClientSendPreviewRes hsess hlt hres
  have hv₂ := (hv₁.stop (c := c) (Nat.zero_le _) (hn.symm ▸ hlt)).settled
  obtain ⟨htame, -⟩ := smtsClientSendPreviewRes_tame hres
  refine ⟨hv₂, hahead.next ⟨hrings, fun d hd => ?_, ?_⟩ ((stopSmtsClient_nClients v₁ c).trans hn)⟩
  · rw [(stopSmtsClient_tame v₁ c).clients d hd, htame.clients d hd]
  · exact htame.nCmds.trans (stopSmtsClient_tame v₁ c).nCmds

/-- The responses when the DVR's preview has begun. -/
theorem Standing.sendPreviewResponses {A : Nat → Prop} {fuel : Nat} (h : Standing w fun _ => [])
    (hring : RingInv A w) (hs : s < w.nSessions) (hA : ¬ A s)
    (hr : w.sendPreviewResponses fuel s = some w') : Standing w' fun _ => [] := by
  obtain ⟨l, hl, hahead, -⟩ := hring.ahead hs hA
  rw [Server.sendPreviewResponses] at hr
  split at hr
  · have hfold := foldlM_of_forEachClient hl (fun c a b hb => (smtsClientSendPreviewRes_tame hb).1.rings) hr
    refine (Links.foldlM_rule (I := fun rest v => Standing v (fun _ => []) ∧ Ahead s rest v)
      (fun c rest v v' hI hround => ?_) ⟨h, hahead⟩ hfold).1
    obtain ⟨hv, hahead⟩ := hI
    obtain ⟨hsess, hlt⟩ := hahead.2 c List.mem_cons_self
    exact ⟨hv.smtsClientSendPreviewRes hsess hlt hround,
      hahead.next (smtsClientSendPreviewRes_tame hround).1 (smtsClientSendPreviewRes_nClients hround)⟩
  · obtain rfl := Option.some.inj hr
    exact h

end Handlers

/-! ## What the DVR's callbacks do -/

section Dvr

variable {A : Nat → Prop} {w w' : Server} {fuel s : Nat}

/-- The teardown of a session leaves all clients standing where they should. -/
theorem Standing.fails (h : Standing w fun _ => []) (hring : RingInv A w) (hs : s < w.nSessions)
    (hA : ¬ A s) {r : Int} (hr : (w.setExitCode s r).stopMediaSession fuel s = some w') :
    Standing w' fun _ => [] := by
  have h₁ : Standing (w.setExitCode s r) fun _ => [] := h.still (.setSession w s _)
  have hd : Does { dvr := some s } w (w.setExitCode s r) := Does.start.setExitCode (.inl rfl) r
  have hring₁ : RingInv A (w.setExitCode s r) := hring.does rfl (by rintro _ ⟨⟩; exact ⟨hs, hA⟩) hd
  exact h₁.stopMediaSession hring₁ hs hA hr

theorem Standing.onSmtsDvrClientSendPreview (h : Standing w fun _ => []) (hring : RingInv A w)
    (hs : s < w.nSessions) (hA : ¬ A s) {status : Int}
    (hr : w.onSmtsDvrClientSendPreview fuel s status = some w') : Standing w' fun _ => [] := by
  rw [Server.onSmtsDvrClientSendPreview] at hr
  split at hr
  · exact h.fails hring hs hA hr
  · obtain ⟨w₁, hres, hr⟩ := Option.bind_eq_some_iff.mp hr
    have h₁ := h.sendPreviewResponses hring hs hA hres
    have hd : Does { dvr := some s } w w₁ :=
      Does.start.sendPreviewResponses (Scope.loops_of_forall (fun _ => trivial) w s) hres
    have hring₁ : RingInv A w₁ := hring.does rfl (by rintro _ ⟨⟩; exact ⟨hs, hA⟩) hd
    have hn := hd.grows.nSessions
    let w₂ := w₁.setSession s { w₁.sessions s with status := .running }
    have h₂ : Standing w₂ fun _ => [] := h₁.still (.setSession w₁ s _)
    have hring₂ : RingInv A w₂ := hring₁.setSession s _ rfl id fun hAs => absurd hAs hA
    have hstart : Still w₂ (w₂.smtsDvrClientStartReadFrames s).1 :=
      .of_clients_eq rfl rfl rfl (List.append_nil _).symm fun _ => by simp [Silent]
    have hring₃ : RingInv A (w₂.smtsDvrClientStartReadFrames s).1 :=
      (hring₂.sameNet (MemOnly.uvCall rfl).toSameNet fun _ hreq _ _ => .inl hreq).setSession s _ rfl id
        fun hAs => absurd hAs hA
    dsimp only at hr
    split at hr
    · exact (h₂.still hstart).fails hring₃ (hs.trans_le hn) hA hr
    · obtain rfl := Option.some.inj hr
      exact h₂.still hstart

theorem Standing.smtsDvrClientPreview (h : Standing w fun _ => []) (hring : RingInv A w)
    (hs : s < w.nSessions) (hA : ¬ A s) {r : Int}
    (hr : w.smtsDvrClientPreview fuel s = some (w', r)) : Standing w' fun _ => [] := by
  obtain ⟨w₁, henc, hr⟩ := Option.bind_eq_some_iff.mp hr
  generalize hsend : w₁.tcpClientSendMsg (.dvr s) w.nCmds .dvrPreview = send at hr
  obtain ⟨w₂, r₂⟩ := send
  have hn₁ := (MemOnly.encodeNew henc).toSameNet
  have hn₂ := (MemOnly.tcpClientSendMsg hsend).toSameNet
  have h₁ : Standing w₁ fun _ => [] :=
    h.still (.of_memOnly (.encodeNew henc) fun _ hreq => encodeNew_writes henc ▸ hreq)
  have h₂ : Standing w₂ fun _ => [] :=
    h₁.still (.tcpClientSendMsg (by decide) (by rintro c ⟨⟩) hsend)
  have hring₁ : RingInv A w₁ := hring.sameNet hn₁ fun _ hreq _ _ => .inl (encodeNew_writes henc ▸ hreq)
  have hring₂ : RingInv A w₂ := by
    refine hring₁.tcpClientSendMsg (fun t ht => ?_) hsend
    obtain rfl := Target.dvr.inj ht
    exact ⟨hn₁.nSessions.symm ▸ hs, hA⟩
  dsimp only at hr
  split at hr
  · obtain ⟨w₃, hres, hr⟩ := Option.bind_eq_some_iff.mp hr
    obtain ⟨rfl, -⟩ := Prod.mk.inj (Option.some.inj hr)
    exact h₂.onSmtsDvrClientSendPreview hring₂ (by rwa [hn₂.nSessions, hn₁.nSessions]) hA hres
  · obtain ⟨rfl, -⟩ := Prod.mk.inj (Option.some.inj hr)
    exact h₂

theorem Standing.onTcpClientConnectCb (h : Standing w fun _ => []) (hring : RingInv A w)
    (hs : s < w.nSessions) (hA : ¬ A s) {status : Int}
    (hr : w.onTcpClientConnectCb fuel s status = some w') : Standing w' fun _ => [] := by
  obtain ⟨w₁, hconn, hr⟩ := Option.bind_eq_some_iff.mp hr
  obtain rfl := Option.some.inj hr
  refine Standing.still (w := w₁) ?_
    (.of_clients_eq (m := [.free (.connectReq s)]) rfl rfl rfl rfl fun c => ?_)
  · let x := w.sessions s
    let w₀ := w.setSession s { x with dvr := { x.dvr with connecting := false } }
    have h₀ : Standing w₀ fun _ => [] := h.still (.setSession w s _)
    have hring₀ : RingInv A w₀ := hring.setSession s _ rfl id fun hAs => absurd hAs hA
    have hconn : w₀.onConnectedToDvr fuel s status = some w₁ := hconn
    rw [Server.onConnectedToDvr] at hconn
    split at hconn
    · exact h₀.fails hring₀ hs hA hconn
    · obtain ⟨⟨w₂, r⟩, hprev, hconn⟩ := Option.bind_eq_some_iff.mp hconn
      have h₂ := h₀.smtsDvrClientPreview hring₀ hs hA hprev
      dsimp only at hconn
      split at hconn
      · have hd := Does.start.smtsDvrClientPreview (S := { dvr := some s }) rfl
          (Scope.loops_of_forall (fun _ => trivial) w₀ s) hprev
        have hring₂ : RingInv A w₂ := hring₀.does rfl (by rintro _ ⟨⟩; exact ⟨hs, hA⟩) hd
        exact h₂.fails hring₂ (lt_of_lt_of_le hs hd.grows.nSessions) hA hconn
      · obtain rfl := Option.some.inj hconn
        exact h₂
  · simp [Silent, Obs.concerns]

theorem Standing.onDvrClientReadError (h : Standing w fun _ => []) (hring : RingInv A w)
    (hs : s < w.nSessions) (hA : ¬ A s) (hr : w.onDvrClientReadError fuel s = some w') :
    Standing w' fun _ => [] := by
  let x := w.sessions s
  let w₁ := w.setSession s { x with dvr := { x.dvr with reading := false } }
  have h₁ : Standing w₁ fun _ => [] := h.still (.setSession w s _)
  have hring₁ : RingInv A w₁ := hring.setSession s _ rfl id fun hAs => absurd hAs hA
  have hr : w₁.onSmtsDvrClientRecvFrame fuel s none dvrRecvFrameError = some w' := hr
  rw [Server.onSmtsDvrClientRecvFrame, if_pos (by decide)] at hr
  exact h₁.fails hring₁ hs hA hr

end Dvr

/-! ## A frame -/

section Frame

variable {w w' : Server} {c d s f p : Nat} {owed : Nat → List Nat} {fs : List Nat}

/-- A frame is owed to the clients of the session that received it. -/
theorem At.recvFrame (h : At w c []) (hn : SameNet w w') (hw : w'.writes = w.writes)
    (hlog : w'.log = w.log ++ [.recvFrame s f]) :
    At w' c (if (w.clients c).session = some s then [f] else []) := by
  have hmem : ∀ o : Obs, o ≠ .recvFrame s f → (o ∈ w'.log ↔ o ∈ w.log) := fun o ho => by
    rw [hlog, List.mem_append, List.mem_singleton, or_iff_left ho]
  have hattach : ∀ t, .attach c t ∈ w'.log ↔ .attach c t ∈ w.log := fun t => hmem _ (by simp)
  have hsent : sent c w'.log = sent c w.log := by
    rw [hlog, sent_append]
    exact List.append_nil _
  cases h with
  | outside session status slient stop done sent =>
      refine .outside (hn.clients ▸ session) (hn.clients ▸ status)
        (fun h => slient (.of_writes (fun _ hreq => hw ▸ hreq) h)) (fun h => ?_)
        (fun h => done ((hmem _ (by simp)).mp h)) (hsent.trans sent)
      rw [hn.clients, hn.nClients]
      exact stop ((hmem _ (by simp)).mp h)
  | waiting session status stop done sent attach =>
      exact .waiting (hn.clients ▸ session) (hn.clients ▸ status)
        (fun h => stop ((hmem _ (by simp)).mp h)) (fun h => done ((hmem _ (by simp)).mp h))
        (hsent.trans sent) fun t => (hattach t).trans (attach t)
  | @streaming t session status stop l₁ l₂ log done before frames attach =>
      refine .streaming (a := l₁) (b := l₂ ++ [.recvFrame s f]) (hn.clients ▸ session)
        (hn.clients ▸ status) (fun h => stop ((hmem _ (by simp)).mp h)) ?_ done before ?_
        fun t => (hattach t).trans (attach t)
      · rw [hlog, log, List.append_assoc, List.cons_append]
      · rw [received_append, frames, sent_append, List.append_nil, session]
        by_cases hst : s = t
        · simp [hst, received, sent, Obs.frameOf, Obs.frameTo]
        · simp [hst, Ne.symm hst, received, sent, Obs.frameOf, Obs.frameTo]
  | @stopped t session l₁ l₂ log stop after lost lost_le frames aired attach =>
      refine .stopped (a := l₁) (b := l₂ ++ [.recvFrame s f]) (hn.clients ▸ session) ?_ stop ?_ lost_le
        frames aired fun t => (hattach t).trans (attach t)
      · rw [hlog, log, List.append_assoc, List.cons_append]
      · rw [sent_append, after]
        rfl

/-- The loop has come to `c`, and sent it what it was owed. -/
theorem At.served (h : At w c fs) (hsess : (w.clients c).session = some s)
    (hst : (w.clients c).status = .onSendFrames) (hclients : w'.clients = w.clients) {m : List Obs}
    (hlog : w'.log = w.log ++ m) (hm : ∀ o ∈ m, o ≠ .stop c ∧ ∀ t, o ≠ .attach c t)
    (hrecv : ∀ t, received t m = []) (hsent : sent c m = fs) : At w' c [] := by
  have hmem : ∀ o : Obs, o ∉ m → (o ∈ w'.log ↔ o ∈ w.log) := fun o ho => by
    rw [hlog, List.mem_append, or_iff_left ho]
  cases h with
  | outside session _ _ _ _ _ =>
      rw [hsess] at session
      cases session
  | waiting _ status _ _ _ _ => exact absurd hst status
  | stopped session _ _ _ _ _ _ _ =>
      rw [hsess] at session
      cases session
  | @streaming t session status stop l₁ l₂ log done before frames attach =>
      refine .streaming (a := l₁) (b := l₂ ++ m) (hclients ▸ session) (hclients ▸ status)
        (fun h => stop ((hmem _ fun ho => (hm _ ho).1 rfl).mp h)) ?_ done before ?_
        fun u => (hmem _ fun ho => (hm _ ho).2 u rfl).trans (attach u)
      · rw [hlog, log, List.append_assoc, List.cons_append]
      · rw [received_append, frames, sent_append, hrecv, hsent, List.append_nil]

/-- A client that is not ready is owed nothing. -/
theorem At.notReady (h : At w c fs) (hst : (w.clients c).status ≠ .onSendFrames) : At w c [] := by
  cases h with
  | outside session status slient stop done sent =>
      exact .outside session status slient stop done sent
  | waiting session status stop done sent attach =>
      exact .waiting session status stop done sent attach
  | streaming _ status _ _ _ _ _ _ => exact absurd status hst
  | stopped session log stop after lost_le frames aired attach =>
      exact .stopped session log stop after lost_le frames aired attach

theorem onSmtsClientSendFrame_data (hr : w.onSmtsClientSendFrame p = some w') (q : Nat) :
    (w'.cmds q).data = (w.cmds q).data := by
  have hset : ∀ (v : Server) (k : Nat) (n : Int), ((v.setCmd k { v.cmds k with ref := n }).cmds q).data
      = (v.cmds q).data := fun v k n => by
    by_cases hq : q = k
    · subst hq
      rw [setCmd_cmds, Function.update_self]
    · rw [setCmd_cmds, Function.update_of_ne hq]
  have hdestroy : ∀ (v : Server) (k : Nat), ((v.protoCmdDestroy k).cmds q).data = (v.cmds q).data :=
    fun v k => by
      obtain ⟨n, hn⟩ := protoCmdDestroy_eq v k
      rw [hn]
      exact hset v k n
  obtain ⟨-, rfl⟩ | ⟨-, f, -, rfl⟩ := onSmtsClientSendFrame_cases hr
  · exact hset w p _
  · exact (hdestroy _ _).trans ((hdestroy _ p).trans (hset w p _))

/-- No frame is received while one is passed on. -/
theorem smtsClientSendFrame_received (hr : w.smtsClientSendFrame c p = some w') (t : Nat) :
    received t w'.log = received t w.log := by
  have hmem : ∀ {a b : Server}, MemOnly a b → received t b.log = received t a.log := fun h => by
    obtain ⟨m, hlog, hm⟩ := h.log
    rw [hlog, received_append,
      Silent.received (c := 0) (fun o ho => Obs.concerns_of_ofStream (hm o ho) 0), List.append_nil]
  have hemit : received t (w.emit (.sendFrame c p)).log = received t w.log := hmem (.emit w rfl)
  have hstop : ∀ v : Server, received t (v.stopSmtsClient c).log = received t v.log := fun v => by
    obtain ⟨-, h⟩ | ⟨-, -, h⟩ | ⟨-, s, -, h⟩ := stopSmtsClient_cases v c <;> rw [h]
    · exact (received_append ..).trans (List.append_nil _)
    · exact (received_append ..).trans (List.append_nil _)
  obtain ⟨-, w₂, r, hsend, ⟨-, rfl⟩ | ⟨-, w₃, hdrop, rfl⟩⟩ | ⟨-, hdrop⟩ := smtsClientSendFrame_cases hr
  · have h₂ := (hmem (.tcpClientSendMsg hsend)).trans hemit
    exact (received_append ..).trans ((List.append_nil _).trans h₂)
  · exact (hstop w₃).trans ((hmem (.onSmtsClientSendFrame hdrop)).trans
      ((hmem (.tcpClientSendMsg hsend)).trans hemit))
  · exact (hmem (.onSmtsClientSendFrame hdrop)).trans hemit

theorem smtsClientSendFrame_nFrames (hr : w.smtsClientSendFrame c p = some w') :
    w'.nFrames = w.nFrames := by
  have hdrop : ∀ {v v' : Server}, v.onSmtsClientSendFrame p = some v' → v'.nFrames = v.nFrames :=
    fun h => by obtain ⟨-, rfl⟩ | ⟨-, f, -, rfl⟩ := onSmtsClientSendFrame_cases h <;> rfl
  obtain ⟨-, w₂, r, hsend, hcase⟩ | ⟨-, h⟩ := smtsClientSendFrame_cases hr
  · have hsent : w₂.nFrames = w.nFrames := by
      obtain ⟨-, rfl⟩ | ⟨-, rfl⟩ := tcpClientSendMsg_cases hsend <;> rfl
    obtain ⟨-, rfl⟩ | ⟨-, w₃, h, rfl⟩ := hcase
    · exact hsent
    · exact (NetOnly.stopSmtsClient w₃ c).nFrames.trans ((hdrop h).trans hsent)
  · exact (hdrop h).trans rfl

/-- A round of the loop: `c` gets the frame, or is not ready, or is stopped. -/
theorem Standing.smtsClientSendFrame (h : Standing w owed) (howed : owed c = [f])
    (hsess : (w.clients c).session = some s) (hlt : c < w.nClients)
    (hdata : (w.cmds p).data = some f) (hr : w.smtsClientSendFrame c p = some w') :
    Standing w' (Function.update owed c []) ∧ (w'.cmds p).data = some f ∧ w'.nClients = w.nClients := by
  have hemit : Still w (w.emit (.sendFrame c p)) :=
    .of_clients_eq rfl rfl rfl (m := [.sendFrame c p]) rfl fun d => by simp [Silent, Obs.concerns]
  have h₁ := h.still hemit
  -- the client streams: the frame is on its way, or the client is stopped for the failed write
  obtain ⟨hst, w₂, r, hsend, hcase⟩ | ⟨hst, hdrop⟩ := smtsClientSendFrame_cases hr
  · have hcmds : w₂.cmds = w.cmds := by
      obtain ⟨-, rfl⟩ | ⟨-, rfl⟩ := tcpClientSendMsg_cases hsend <;> rfl
    have hmem := MemOnly.tcpClientSendMsg hsend
    have hstill : Still (w.emit (.sendFrame c p)) w₂ :=
      .tcpClientSendMsg (by decide) (fun d hd => Target.client.inj hd ▸ hlt) hsend
    obtain ⟨-, rfl⟩ | ⟨-, w₃, hdrop, rfl⟩ := hcase
    · have hn : w₂.nClients = w.nClients := hmem.nClients
      refine ⟨⟨fun d => ?_, fun req hreq d hd => ?_⟩, hcmds ▸ hdata, hn⟩
      · by_cases hdc : d = c
        · subst hdc
          rw [Function.update_self]
          have hlog := tcpClientSendMsg_log hsend
          refine (h.clients d).served hsess hst
            hmem.clients (m := [.sendFrame d p,
              .uvWrite (.client d) p .sendFrame (((w.emit (.sendFrame d p)).cmds p).wire
                (w.emit (.sendFrame d p)).heap) r, .frameSent d (some f)]) ?_ ?_ ?_ ?_
          · rw [emit_log, hlog, hcmds, hdata]
            simp
          · simp
          · intro t
            rfl
          · rw [howed]
            show (if d = d then some f else none).toList = [f]
            rw [if_pos rfl]
            rfl
        · rw [Function.update_of_ne hdc]
          have hlast : Calm d w₂ (w₂.emit (.frameSent c (w₂.cmds p).data)) :=
            ⟨rfl, Iff.rfl, id, le_rfl, fun _ => .of_writes fun _ hreq => hreq, _, rfl, by
              simp [Silent, Obs.concerns, Ne.symm hdc]⟩
          exact (h.clients d).calm (((hemit.calm d).trans (hstill.calm d)).trans hlast)
      · exact (h₁.still hstill).written req hreq d hd
    · have h₃ := (h₁.still hstill).still (.onSmtsClientSendFrame hdrop)
      have hn : w₃.nClients = w.nClients :=
        (MemOnly.onSmtsClientSendFrame hdrop).nClients.trans hmem.nClients
      refine ⟨h₃.stop (by simp [howed]) (hn.symm ▸ hlt), ?_, (stopSmtsClient_nClients w₃ c).trans hn⟩
      rw [(NetOnly.stopSmtsClient w₃ c).cmds, onSmtsClientSendFrame_data hdrop, hcmds, hdata]
  · have h₂ := h₁.still (.onSmtsClientSendFrame hdrop)
    have hn : w'.nClients = w.nClients := (MemOnly.onSmtsClientSendFrame hdrop).nClients
    have hclients : w'.clients = w.clients := (MemOnly.onSmtsClientSendFrame hdrop).clients
    refine ⟨⟨fun d => ?_, h₂.written⟩, (onSmtsClientSendFrame_data hdrop p).trans hdata, hn⟩
    by_cases hdc : d = c
    · subst hdc
      rw [Function.update_self]
      exact (h₂.clients d).notReady (hclients ▸ hst)
    · rw [Function.update_of_ne hdc]
      exact h₂.clients d

/-- The loop comes to everyone whom the frame is owed. -/
theorem Standing.distribute {l : List Nat} (h : Standing w fun c => if c ∈ l then [f] else [])
    (hahead : Ahead s l w) (hdata : (w.cmds p).data = some f)
    (hr : l.foldlM (fun v c => v.smtsClientSendFrame c p) w = some w') :
    Standing w' (fun _ => []) ∧ w'.nFrames = w.nFrames ∧
      ∀ t, received t w'.log = received t w.log := by
  let I : List Nat → Server → Prop := fun rest v =>
    Standing v (fun c => if c ∈ rest then [f] else []) ∧ Ahead s rest v ∧
      (v.cmds p).data = some f ∧ v.nFrames = w.nFrames ∧ ∀ t, received t v.log = received t w.log
  have hstep : ∀ c rest v v', I (c :: rest) v → v.smtsClientSendFrame c p = some v' → I rest v' := by
    rintro c rest v v' ⟨hv, hahead, hdata, hframes, hrecv⟩ hround
    obtain ⟨hsess, hlt⟩ := hahead.2 c List.mem_cons_self
    obtain ⟨hv', hdata', hn⟩ := hv.smtsClientSendFrame (by simp) hsess hlt hdata hround
    have hc : c ∉ rest := (List.nodup_cons.mp hahead.1).1
    refine ⟨?_, hahead.next (smtsClientSendFrame_tame hround) hn, hdata',
      (smtsClientSendFrame_nFrames hround).trans hframes, fun t =>
      (smtsClientSendFrame_received hround t).trans (hrecv t)⟩
    convert hv' using 2 with d
    by_cases hd : d = c
    · rw [hd, if_neg hc, Function.update_self]
    · rw [Function.update_of_ne hd]
      simp [hd]
  obtain ⟨hend, -, -, hframes, hrecv⟩ :=
    Links.foldlM_rule hstep (⟨h, hahead, hdata, rfl, fun _ => rfl⟩ : I l w) hr
  exact ⟨by simpa using hend, hframes, hrecv⟩

/-- A frame arrives, and is passed on: afterwards no client is owed anything. -/
theorem Standing.onDvrClientReadFrameCb {A : Nat → Prop} {fuel : Nat} {bytes : List Byte}
    {junk : Int → Byte} (h : Standing w fun _ => []) (hring : RingInv A w) (hs : s < w.nSessions)
    (hA : ¬ A s) (hr : w.onDvrClientReadFrameCb fuel s bytes junk = some w') :
    Standing w' (fun _ => []) ∧ w'.nFrames = w.nFrames + 1 ∧
      ∀ t, received t w'.log = received t w.log ++ if s = t then [w.nFrames] else [] := by
  obtain ⟨l, hl, hahead, hsize, hmem⟩ := hring.ahead hs hA
  obtain ⟨t, -, hrecv⟩ := onDvrClientReadFrameCb_eq w s bytes junk
  rw [hrecv] at hr
  have hlogged : ∀ u, received u (w.log ++ [.recvFrame s w.nFrames])
      = received u w.log ++ if s = u then [w.nFrames] else [] := fun u => by
    rw [received_append]
    by_cases hu : s = u
    · simp [hu, received, Obs.frameOf]
    · simp [hu, received, Obs.frameOf]
  by_cases hpos : 0 < (w.sessions s).clientSize
  · obtain ⟨v, henc, hloop⟩ := onSmtsDvrClientRecvFrame_relay (w := w.arrived bytes t)
      (f := w.nFrames) hpos
    obtain ⟨t', hv⟩ := relaying_spec henc
    rw [hloop] at hr
    generalize (w.arrived bytes t).relaying v s = v at hv hr
    have hr : v.forEachClient fuel s (fun c u => u.smtsClientSendFrame c (w.nCmds + 1)) = some w' := hr
    have hfold := foldlM_of_forEachClient (hv.rings.symm ▸ hl)
      (fun c a b hb => (smtsClientSendFrame_tame hb).rings) hr
    have howed : Standing v fun c => if c ∈ l then [w.nFrames] else [] := by
      refine ⟨fun c => ?_, fun req hreq c hc => ?_⟩
      · simp only [hmem]
        exact (h.clients c).recvFrame hv.toSameNet hv.writes hv.log
      · rw [hv.nClients]
        exact h.written req (hv.writes ▸ hreq) c hc
    have hahead : Ahead s l v := ⟨hahead.1, fun c hc => by
      rw [hv.clients, hv.nClients]
      exact hahead.2 c hc⟩
    have hdata : (v.cmds (w.nCmds + 1)).data = some w.nFrames := by
      rw [hv.cmds, Function.update_self]
      exact hv.data
    obtain ⟨hw', hframes, hsame⟩ := howed.distribute hahead hdata hfold
    exact ⟨hw', hframes.trans hv.nFrames, fun u => by rw [hsame, hv.log, hlogged]⟩
  -- there is nobody to pass it on to
  · obtain ⟨hpos', -⟩ | ⟨-, rfl⟩ := onSmtsDvrClientRecvFrame_cases hr
    · exact absurd hpos' hpos
    · have hnil : l = [] := List.eq_nil_of_length_eq_zero (by omega)
      let v := (w.arrived bytes t).emit (.recvFrame s w.nFrames)
      have hdestroy : MemOnly v (v.destroySmtsFrame w.nFrames) := .destroySmtsFrame v _
      have hnet : SameNet w v := by
        refine ⟨?_, ?_, ?_, ?_, ?_, ?_⟩ <;> rfl
      have hv : Standing v fun _ => [] := by
        refine ⟨fun c => ?_, h.written⟩
        have hc : ¬ (w.clients c).session = some s := fun hc => by
          rw [← hmem, hnil] at hc
          cases hc
        have hat : At v c (if (w.clients c).session = some s then [w.nFrames] else []) :=
          (h.clients c).recvFrame hnet rfl rfl
        rwa [if_neg hc] at hat
      refine ⟨hv.still (.of_memOnly hdestroy fun _ hreq => hreq), rfl, fun u => ?_⟩
      obtain ⟨m, hlog, hm⟩ := hdestroy.log
      have hquiet : received u m = [] :=
        Silent.received (c := 0) (fun o ho => Obs.concerns_of_ofStream (hm o ho) 0) u
      change received u (v.destroySmtsFrame w.nFrames).log = _
      rw [hlog, received_append, hquiet, List.append_nil]
      exact hlogged u

end Frame

end Server

end Smts
