import Smts.Lib.Aging
import Smts.Server.Memory
import Smts.Server.Stream
import Smts.Server.Teardown

/-!
# Server — every callback returns

A handler of the model has no result where a loop does not end, where a node
of a ring is not what it is taken for, where a pointer that is followed is
`NULL`. None of this happens while no client asks for a preview when it is
attached already. The rings of clients are whole then. The manager's ring need
not be, since `session_exit_cb` may unlink a session that was unlinked before;
but it is entered at the head only, so its links lead to older and older
sessions, and every search comes to an end.
-/

namespace Smts

open Circular

theorem mockDvrPreview_cmd : ∀ e ∈ protocolMap,
    e.2 = some .mockDvrPreviewImpl → e.1.cmd = mockDvrPreview.cmd := by
  decide

namespace Server

/-! ## The manager's links -/

/-- Sessions are numbered in the order they are made in. -/
def born : ManagerNode → Nat
  | .head => 0
  | .session s => s

/-- The manager's loops come to an end, since forward links lead to older
sessions only, all of them made before. -/
structure Traversable (w : Server) : Prop where
  aging : w.manager.links.Aging .head born
  known : ∀ q t, w.manager.links.next q = .session t ∨ w.manager.links.prev q = .session t →
    t < w.nSessions

theorem init_traversable (uv : Nat → Int) (garbage : Nat → Values NvmpName) :
    Traversable (init uv garbage) where
  aging := by
    refine ⟨fun q hq => .inr ⟨.inl ?_, .inl ?_⟩⟩
    · exact Links.init_next hq
    · exact Links.init_prev hq
  known q t ht := by
    by_cases hq : q = .head
    · subst hq
      rcases ht with ht | ht
      · exact ManagerNode.noConfusion (Links.init_next_self.symm.trans ht)
      · exact ManagerNode.noConfusion (Links.init_prev_self.symm.trans ht)
    · rcases ht with ht | ht
      · exact ManagerNode.noConfusion ((Links.init_next hq).symm.trans ht)
      · exact ManagerNode.noConfusion ((Links.init_prev hq).symm.trans ht)

section Traversable

variable {w w' : Server} {fuel s : Nat}

theorem Traversable.congr (h : Traversable w) (hm : w'.manager.links = w.manager.links)
    (hn : w.nSessions ≤ w'.nSessions) : Traversable w' where
  aging := hm ▸ h.aging
  known q t ht := (h.known q t (hm ▸ ht)).trans_le hn

theorem Traversable.search (h : Traversable w) (hfuel : w.nSessions < fuel) (key : SessionKey) :
    ∃ found, w.manager.search w.keyOf fuel key = some found := by
  refine h.aging.find?_total _ ?_ (by omega)
  cases hn : w.manager.links.next .head with
  | head => exact .inl rfl
  | session t =>
      have hlt := h.known _ t (.inl hn)
      exact .inr (show t + 1 < fuel by omega)

theorem Traversable.isContain (h : Traversable w) (hfuel : w.nSessions < fuel) (key : SessionKey) :
    ∃ r, w.manager.isContain w.keyOf fuel key = some r := by
  obtain ⟨found, hfound⟩ := h.search hfuel key
  rw [SessionManager.isContain, hfound]
  cases found with
  | none => exact ⟨0, rfl⟩
  | some node => exact ⟨-1, rfl⟩

theorem Traversable.getSession (h : Traversable w) (hfuel : w.nSessions < fuel) (key : SessionKey) :
    ∃ found, w.manager.getSession w.keyOf fuel key = some found := by
  obtain ⟨found, hfound⟩ := h.search hfuel key
  rw [SessionManager.getSession, hfound]
  rcases found with - | (- | t)
  · exact ⟨none, rfl⟩
  · exact ⟨none, rfl⟩
  · exact ⟨some t, rfl⟩

theorem Traversable.addSession_total (h : Traversable w) (hfuel : w.nSessions < fuel) (s : Nat) :
    ∃ m r, w.manager.addSession w.keyOf fuel (some s) = some (m, r) := by
  obtain ⟨r, hr⟩ := h.isContain hfuel (w.keyOf s)
  simp only [SessionManager.addSession, hr, Option.bind_eq_bind, Option.bind_some]
  split
  · exact ⟨_, _, rfl⟩
  · exact ⟨_, _, rfl⟩

theorem Traversable.deleteSession_total (h : Traversable w) (hfuel : w.nSessions < fuel) (s : Nat) :
    ∃ w', w.deleteSession fuel s = some w' := by
  obtain ⟨r, hr⟩ := h.isContain hfuel (w.keyOf s)
  simp only [Server.deleteSession, SessionManager.deleteSession, hr, Option.bind_eq_bind,
    Option.bind_some]
  split
  · exact ⟨_, rfl⟩
  · exact ⟨_, rfl⟩

/-- A deletion keeps the manager's loops finite, whichever session it unlinks, and
however often. -/
theorem Traversable.deleteSession (h : Traversable w) (hr : w.deleteSession fuel s = some w') :
    Traversable w' := by
  obtain ⟨⟨m, r⟩, hdel, hr⟩ := Option.bind_eq_some_iff.mp hr
  obtain rfl := Option.some.inj hr
  obtain ⟨-, rfl⟩ | hm := SessionManager.deleteSession_cases hdel
  · exact h
  · refine ⟨?_, fun q t ht => ?_⟩
    · show m.links.Aging .head born
      rw [hm]
      exact h.aging.remove ManagerNode.noConfusion
    · change m.links.next q = _ ∨ m.links.prev q = _ at ht
      rw [hm] at ht
      rcases ht with ht | ht
      · by_cases hq : q = w.manager.links.prev (.session s)
        · rw [hq, Links.remove_next_prev] at ht
          exact h.known _ t (.inl ht)
        · rw [Links.remove_next hq] at ht
          exact h.known q t (.inl ht)
      · by_cases hq : q = w.manager.links.next (.session s)
        · rw [hq, Links.remove_prev_next] at ht
          exact h.known _ t (.inr ht)
        · rw [Links.remove_prev hq] at ht
          exact h.known q t (.inr ht)

/-- The links of a new session lead nowhere, and none leads to it. -/
theorem Traversable.initMediaSession (h : Traversable w) (key : SessionKey) :
    Traversable (w.initMediaSession key) ∧
      (w.initMediaSession key).manager.links.Alone (.session w.nSessions) := by
  have hfresh : ∀ x, w.manager.links.next x ≠ .session w.nSessions ∧
      w.manager.links.prev x ≠ .session w.nSessions := fun x =>
    ⟨fun hx => Nat.lt_irrefl _ (h.known x _ (.inl hx)),
      fun hx => Nat.lt_irrefl _ (h.known x _ (.inr hx))⟩
  refine ⟨⟨h.aging.init ManagerNode.noConfusion hfresh, fun q t ht => ?_⟩,
    Links.init_next_self, Links.init_prev_self, fun x hx => ?_⟩
  · simp only [initMediaSession_manager_links, initMediaSession_nSessions] at ht ⊢
    by_cases hq : q = .session w.nSessions
    · rw [hq, Links.init_next_self, Links.init_prev_self, or_self, ManagerNode.session.injEq] at ht
      omega
    · rw [Links.init_next hq, Links.init_prev hq] at ht
      exact Nat.lt_succ_of_lt (h.known q t ht)
  · by_contra hne
    simp only [initMediaSession_manager_links, Links.init_next hne, Links.init_prev hne] at hx
    exact hx.elim (hfresh x).1 (hfresh x).2

/-- The newest session can be linked in, and the manager's loops stay finite. -/
theorem Traversable.addSession (h : Traversable w) (hs : w.nSessions = s + 1)
    (hal : w.manager.links.Alone (.session s)) {m : SessionManager} {r : Int}
    (hr : w.manager.addSession w.keyOf fuel (some s) = some (m, r)) :
    Traversable { w with manager := m } := by
  obtain ⟨-, rfl⟩ | ⟨-, hm⟩ := SessionManager.addSession_cases hr
  · exact h
  · refine ⟨?_, fun q t ht => ?_⟩
    · show m.links.Aging .head born
      rw [hm]
      refine h.aging.insertHead ManagerNode.noConfusion hal ?_
      cases hn : w.manager.links.next .head with
      | head => exact .inl rfl
      | session t =>
          have hlt := h.known _ t (.inl hn)
          have hne : t ≠ s := by
            rintro rfl
            exact ManagerNode.noConfusion (hal.unseen _ (.inl hn))
          exact .inr (show t < s by omega)
    · change m.links.next q = _ ∨ m.links.prev q = _ at ht
      show t < w.nSessions
      rw [hm] at ht
      rcases ht with ht | ht
      · rcases Links.insertHead_next_cases w.manager.links .head (.session s) q with he | he | he <;>
          rw [he] at ht
        · obtain rfl := ManagerNode.session.inj ht
          omega
        · exact h.known _ t (.inl ht)
        · exact h.known _ t (.inl ht)
      · rcases Links.insertHead_prev_cases w.manager.links .head (.session s) q with he | he | he <;>
          rw [he] at ht
        · obtain rfl := ManagerNode.session.inj ht
          omega
        · cases ht
        · exact h.known _ t (.inr ht)

theorem stopSmtsClient_manager (w : Server) (c : Nat) :
    (w.stopSmtsClient c).manager = w.manager := by
  obtain ⟨-, h⟩ | ⟨-, -, h⟩ | ⟨-, s, -, h⟩ := stopSmtsClient_cases w c <;> rw [h]

/-- Whatever a callback does that starts no session. -/
theorem Traversable.action {S : Scope} {w₀ : Server} (h : Traversable w) (hjoin : S.join = none)
    (ha : Action S w₀ w w') : Traversable w' := by
  have hjoin' : S.join ≠ none → False := fun hne => hne hjoin
  have hgrows := ha.grows.nSessions
  cases ha with
  | delete hr => exact h.deleteSession hr
  | initSession hne _ => exact (hjoin' hne).elim
  | manage hne _ => exact (hjoin' hne).elim
  | uvCall hr => exact h.congr (by rw [(MemOnly.uvCall hr).manager]) hgrows
  | encodeNew _ _ _ hr => exact h.congr (by rw [(MemOnly.encodeNew hr).manager]) hgrows
  | dropRef _ hr => exact h.congr (by rw [(MemOnly.onSmtsClientSendFrame hr).manager]) hgrows
  | send _ _ _ _ hr => exact h.congr (by rw [(MemOnly.tcpClientSendMsg hr).manager]) hgrows
  | sendPreviewRes _ _ _ hr =>
      exact h.congr (by rw [(MemOnly.tcpClientSendMsg hr).manager]; rfl) hgrows
  | stop _ => exact h.congr (by rw [stopSmtsClient_manager]) hgrows
  | _ => exact h.congr rfl hgrows

theorem Traversable.does {S : Scope} {w₀ : Server} (h : Traversable w₀) (hjoin : S.join = none)
    (hd : Does S w₀ w) : Traversable w := by
  induction hd with
  | start => exact h
  | step _ ha ih => exact ih.action hjoin ha

theorem Traversable.starts {c : Nat} {r : Int} (h : Traversable w) (hs : w.nSessions = s + 1)
    (hal : w.manager.links.Alone (.session s)) (hstart : Starts fuel w s c w' r) :
    Traversable w' := by
  obtain ⟨w₁, m, hq, hcase⟩ := hstart.outcome
  have hmanaged : ∀ {m' : SessionManager} {d : Int},
      w.manager.addSession w.keyOf fuel (some s) = some (m', d) →
      Traversable { w with manager := m' } := fun hadd => h.addSession hs hal hadd
  have hquiet : Traversable { w with manager := m } → Traversable w₁ := fun h =>
    h.congr (by rw [hq.manager]) hq.nSessions.ge
  obtain ⟨-, rfl, rfl | ⟨m₁, d, hadd, hdel⟩⟩ | ⟨-, hadd, rfl⟩ := hcase
  · exact (hquiet h).congr rfl le_rfl
  · have hdel' : ({ w with manager := m₁ } : Server).deleteSession fuel s
        = some { w with manager := m } := deleteSession_some hdel
    exact (hquiet ((hmanaged hadd).deleteSession hdel')).congr rfl le_rfl
  · exact (hquiet (hmanaged hadd)).congr rfl le_rfl

theorem Traversable.mediaClientStartPreview {c : Nat} {key : SessionKey} {r : Int}
    (h : Traversable w) (hr : w.mediaClientStartPreview fuel c key = some (w', r)) :
    Traversable w' := by
  obtain ⟨found, hget, -⟩ := Option.bind_eq_some_iff.mp hr
  cases found with
  | none =>
      obtain ⟨h₁, hal⟩ := h.initMediaSession key
      have h₂ : Traversable ((w.initMediaSession key).addSmtsClient w.nSessions c) :=
        h₁.congr rfl le_rfl
      exact h₂.starts rfl hal (mediaClientStartPreview_new hget hr)
  | some s =>
      obtain ⟨-, hres⟩ := mediaClientStartPreview_found hget hr
      have h₁ : Traversable (w.addSmtsClient s c) := h.congr rfl le_rfl
      exact h₁.does rfl ((Does.start (S := {})).smtsClientSendPreviewRes (.inl trivial) hres)

theorem Traversable.step {e : Event} (h : Traversable w) (hstep : Step w e w') :
    Traversable w' := by
  obtain ⟨hen, fuel, hr⟩ := hstep
  cases hprev : e.preview with
  | none =>
      have hjoin : ({ w.scope e with reach := fun _ => True } : Scope).join = none :=
        (scope_join w e).trans hprev
      exact h.does hjoin (handle_does_any hen hr)
  | some c =>
      obtain ⟨bytes, junk, rfl⟩ := Event.preview_eq_some hprev
      obtain ⟨t, w₁, hstart, rfl⟩ := dispatchPacket_preview hprev hr
      have h₀ : Traversable ((w.setHeap (w.heap.receive bytes).1).addCmd t) := h.congr rfl le_rfl
      obtain ⟨w₂, r, hmedia, hcase⟩ := smtsStartPreview_cases hstart
      have h₂ := h₀.mediaClientStartPreview hmedia
      have h₁ : Traversable w₁ := by
        obtain ⟨-, rfl⟩ | ⟨-, w₃, w₄, r', henc, hsend, hw⟩ := hcase
        · exact h₂
        · have hd := (Does.start (S := {})).errorPreviewRes (c := c) (.inl trivial) henc
          rw [hsend] at hd
          rcases hw with rfl | rfl
          · exact h₂.does rfl hd.1
          · exact h₂.does rfl hd.2
      exact h₁.congr rfl le_rfl

end Traversable

/-! ## What the loops rest on -/

/-- Only connections make clients and only preview requests sessions. -/
theorem Action.counts {S : Scope} {w₀ w w' : Server} (ha : Action S w₀ w w')
    (hjoin : S.join = none) (hconn : S.connection = false) :
    w'.nSessions = w.nSessions ∧ w'.nClients = w.nClients := by
  have hmem : ∀ {v : Server}, MemOnly w v → v.nSessions = w.nSessions ∧ v.nClients = w.nClients :=
    fun hv => ⟨hv.nSessions, hv.nClients⟩
  cases ha with
  | uvCall hr => exact hmem (.uvCall hr)
  | encodeNew _ _ _ hr => exact hmem (.encodeNew hr)
  | dropRef _ hr => exact hmem (.onSmtsClientSendFrame hr)
  | send _ _ _ _ hr => exact hmem (.tcpClientSendMsg hr)
  | sendPreviewRes _ _ _ hr =>
      exact ⟨(MemOnly.tcpClientSendMsg hr).nSessions, (MemOnly.tcpClientSendMsg hr).nClients⟩
  | stop _ => exact ⟨stopSmtsClient_nSessions .., stopSmtsClient_nClients ..⟩
  | delete hr =>
      obtain ⟨m, rfl⟩ := deleteSession_eq hr
      exact ⟨rfl, rfl⟩
  | initClient hS => exact absurd (hconn.symm.trans hS) Bool.false_ne_true
  | initSession hne _ => exact absurd hjoin hne
  | _ => exact ⟨rfl, rfl⟩

theorem Does.counts {S : Scope} {w₀ w : Server} (hd : Does S w₀ w) (hjoin : S.join = none)
    (hconn : S.connection = false) : w.nSessions = w₀.nSessions ∧ w.nClients = w₀.nClients := by
  induction hd with
  | start => exact ⟨rfl, rfl⟩
  | step _ ha ih =>
      obtain ⟨hs, hc⟩ := ha.counts hjoin hconn
      exact ⟨hs.trans ih.1, hc.trans ih.2⟩

/-- There is fuel enough for every loop: more than there are sessions, and more
than there are clients. -/
structure Fueled (A : Nat → Prop) (fuel : Nat) (w : Server) : Prop where
  rings : RingInv A w
  links : Traversable w
  sessions : w.nSessions < fuel
  clients : w.nClients < fuel

section Fueled

variable {A : Nat → Prop} {w w' : Server} {fuel s : Nat} {status r : Int}

theorem Fueled.does {w₀ : Server} {S : Scope} (h : Fueled A fuel w₀) (hd : Does S w₀ w)
    (hdvr : ∀ s, S.dvr = some s → s < w₀.nSessions ∧ ¬ A s) (hjoin : S.join = none)
    (hconn : S.connection = false) : Fueled A fuel w := by
  obtain ⟨hs, hc⟩ := hd.counts hjoin hconn
  exact ⟨h.rings.does hjoin hdvr hd, h.links.does hjoin hd, hs ▸ h.sessions, hc ▸ h.clients⟩

/-- A ring has no more clients than there are. -/
theorem Fueled.ring (h : Fueled A fuel w) (hs : s < w.nSessions) (hA : ¬ A s) :
    ∃ l : List Nat, w.rings.IsRing (.head s) (l.map .client) ∧
      (w.sessions s).clientSize = l.length ∧ l.length < fuel := by
  obtain ⟨l, hring, hsize, hmem⟩ := h.rings.ring s hs hA
  have hnodup : l.Nodup := List.Nodup.of_map _ hring.nodes_nodup
  have hsub : l ⊆ List.range w.nClients := by
    intro c hc
    exact List.mem_range.mpr (h.rings.attached c s ((hmem c).mp hc)).1
  have hle := (List.subperm_of_subset hnodup hsub).length_le
  rw [List.length_range] at hle
  exact ⟨l, hring, hsize, hle.trans_lt h.clients⟩

theorem Fueled.stopMediaSession (h : Fueled A fuel w) (hs : s < w.nSessions) (hA : ¬ A s) :
    ∃ w', w.stopMediaSession fuel s = some w' := by
  obtain ⟨l, hring, -, hlen⟩ := h.ring hs hA
  obtain ⟨w₁, hdel⟩ := h.links.deleteSession_total h.sessions s
  obtain ⟨w', hfold, -⟩ := Links.foldlM_total (f := stopRound s) (I := fun _ _ => True) (l := l) (s := w₁)
    (fun c _ v _ => by
      obtain ⟨v₁, hres⟩ := v.smtsClientSendPreviewRes_total c (v.sessions s).status.toInt
      exact ⟨_, by rw [stopRound, hres]; rfl, trivial⟩) trivial
  exact ⟨w', by rw [stopMediaSession_eq_foldlM hring hlen, hdel]; exact hfold⟩

theorem Fueled.sendPreviewResponses (h : Fueled A fuel w) (hs : s < w.nSessions) (hA : ¬ A s) :
    ∃ w', w.sendPreviewResponses fuel s = some w' := by
  obtain ⟨l, hring, -, hlen⟩ := h.ring hs hA
  rw [Server.sendPreviewResponses]
  split
  · rw [forEachClient_eq_foldlM hring hlen fun c a b hb => (smtsClientSendPreviewRes_tame hb).1.rings]
    obtain ⟨w', hfold, -⟩ := Links.foldlM_total (I := fun _ _ => True) (l := l) (s := w)
      (f := fun w c => w.smtsClientSendPreviewRes c smtsOk) (fun c _ v _ => by
        obtain ⟨v₁, hres⟩ := v.smtsClientSendPreviewRes_total c smtsOk
        exact ⟨v₁, hres, trivial⟩) trivial
    exact ⟨w', hfold⟩
  · exact ⟨w, rfl⟩

/-- The teardown of a session returns, whatever its exit code. -/
theorem Fueled.exit (h : Fueled A fuel w) (hs : s < w.nSessions) (hA : ¬ A s) (code : Int) :
    ∃ w', (w.setExitCode s code).stopMediaSession fuel s = some w' := by
  have hd : Does { dvr := some s } w (w.setExitCode s code) := Does.start.setExitCode (.inl rfl) code
  have h₁ := h.does hd (by rintro t ⟨⟩; exact ⟨hs, hA⟩) rfl rfl
  exact h₁.stopMediaSession hs hA

theorem Fueled.onSmtsDvrClientSendPreview (h : Fueled A fuel w) (hs : s < w.nSessions) (hA : ¬ A s)
    (status : Int) : ∃ w', w.onSmtsDvrClientSendPreview fuel s status = some w' := by
  rw [Server.onSmtsDvrClientSendPreview]
  split
  · exact h.exit hs hA status
  · obtain ⟨w₁, hres⟩ := h.sendPreviewResponses hs hA
    have hloop := Scope.loops_of_forall (S := { dvr := some s }) (fun _ => trivial) w s
    have hd₁ := (Does.start (S := { dvr := some s })).sendPreviewResponses hloop hres
    have hd₂ := (hd₁.step (.touch (s := s) (x := { w₁.sessions s with status := .running })
      ⟨.inl rfl, rfl, rfl, id, .inr ⟨rfl, rfl, rfl⟩, .inl rfl, .inr (.inr rfl)⟩)).smtsDvrClientStartReadFrames rfl
    have h₂ := h.does hd₂ (by rintro t ⟨⟩; exact ⟨hs, hA⟩) rfl rfl
    rw [hres]
    simp only [Option.bind_eq_bind, Option.bind_some]
    split
    · exact h₂.exit (hs.trans_le hd₂.grows.nSessions) hA _
    · exact ⟨_, rfl⟩

/-- The preview command for the DVR can always be encoded, and
`smts_dvr_client_preview` returns. -/
theorem Fueled.smtsDvrClientPreview (h : Fueled A fuel w) (hs : s < w.nSessions) (hA : ¬ A s) :
    ∃ w' r, w.smtsDvrClientPreview fuel s = some (w', r) := by
  have hT : mockDvrPreview ∈ payloadFreeTypes := by decide
  let t := ((w.initCmd mockDvrPreview).set bitrate defaultDvrBitrate).set frameRate defaultDvrFramerate
  obtain ⟨w₁, henc, -⟩ := w.encodeNew_flat (t := t) hT
  generalize hsend : w₁.tcpClientSendMsg (.dvr s) w.nCmds .dvrPreview = sent
  obtain ⟨w₂, r⟩ := sent
  have hn : w₁.nCmds = w.nCmds + 1 := encodeNew_nCmds henc
  have hd : Does { dvr := some s } w w₂ :=
    (Does.start.encodeNew hT rfl henc).step (.send (.inr ⟨le_rfl, by omega⟩) (by decide)
      (by rintro t ⟨⟩; exact .inl rfl) (by rintro d ⟨⟩) hsend)
  have h₂ := h.does hd (by rintro t ⟨⟩; exact ⟨hs, hA⟩) rfl rfl
  rw [Server.smtsDvrClientPreview]
  simp only [Option.bind_eq_bind]
  rw [show w.encodeNew _ = some w₁ from henc, Option.bind_some, hsend]
  dsimp only
  split
  · obtain ⟨w₃, hres⟩ := h₂.onSmtsDvrClientSendPreview (hs.trans_le hd.grows.nSessions) hA
      dvrSendPriviewCmdError
    rw [hres]
    exact ⟨_, _, rfl⟩
  · exact ⟨_, _, rfl⟩

theorem Fueled.onConnectedToDvr (h : Fueled A fuel w) (hs : s < w.nSessions) (hA : ¬ A s)
    (status : Int) : ∃ w', w.onConnectedToDvr fuel s status = some w' := by
  rw [Server.onConnectedToDvr]
  split
  · exact h.exit hs hA _
  · have hloop := Scope.loops_of_forall (S := { dvr := some s }) (fun _ => trivial) w s
    obtain ⟨v, r, hprev⟩ := h.smtsDvrClientPreview hs hA
    have hd := (Does.start (S := { dvr := some s })).smtsDvrClientPreview rfl hloop hprev
    have hv := h.does hd (by rintro t ⟨⟩; exact ⟨hs, hA⟩) rfl rfl
    rw [hprev]
    simp only [Option.bind_eq_bind, Option.bind_some]
    split
    · exact hv.exit (hs.trans_le hd.grows.nSessions) hA _
    · exact ⟨_, rfl⟩

/-- The loop that passes on a frame returns. -/
theorem Fueled.onDvrClientReadFrameCb (h : Fueled A fuel w) (hs : s < w.nSessions) (hA : ¬ A s)
    (hnone : Apart .none w) (bytes : List Byte) (junk : Int → Byte) :
    ∃ w', w.onDvrClientReadFrameCb fuel s bytes junk = some w' := by
  obtain ⟨l, hring, hsize, hlen⟩ := h.ring hs hA
  obtain ⟨t, hdec, hrecv⟩ := onDvrClientReadFrameCb_eq w s bytes junk
  have hsize₁ : ((w.arrived bytes t).sessions s).clientSize = l.length := hsize
  rw [hrecv]
  by_cases hl : l = []
  · exact ⟨_, onSmtsDvrClientRecvFrame_alone (by rw [hsize₁, hl]; rfl) fuel⟩
  · have hpos : 0 < ((w.arrived bytes t).sessions s).clientSize := by
      rw [hsize₁]
      exact_mod_cast List.length_pos_of_ne_nil hl
    obtain ⟨v, henc, hloop⟩ := onSmtsDvrClientRecvFrame_relay (f := w.nFrames) hpos
    obtain ⟨t', hv⟩ := relaying_spec henc
    rw [hloop]
    generalize (w.arrived bytes t).relaying v s = v at hv
    have hshared := hnone.relaying hdec hsize (by simpa using hl) hv
    obtain ⟨w', hfold, -⟩ := hshared.foldlM
    have hring' : v.rings.IsRing (.head s) (l.map .client) := hv.rings ▸ hring
    exact ⟨w', (forEachClient_eq_foldlM hring' hlen fun c a b hb =>
      (smtsClientSendFrame_tame hb).rings).trans hfold⟩

/-! ## Requests -/

/-- A session is looked for, and perhaps linked in and out again. -/
theorem Traversable.mediaClientStartPreview_total {c : Nat} {key : SessionKey} (h : Traversable w)
    (hfuel : w.nSessions + 1 < fuel) : ∃ w' r, w.mediaClientStartPreview fuel c key = some (w', r) := by
  obtain ⟨found, hget⟩ := h.getSession (Nat.lt_of_succ_lt hfuel) key
  rw [Server.mediaClientStartPreview, hget]
  simp only [Option.bind_eq_bind, Option.bind_some]
  cases found with
  | some s =>
      obtain ⟨w', hres⟩ := (w.addSmtsClient s c).smtsClientSendPreviewRes_total c smtsOk
      dsimp only
      rw [hres]
      exact ⟨_, _, rfl⟩
  | none =>
      obtain ⟨h₁, hal⟩ := h.initMediaSession key
      let v := (w.initMediaSession key).addSmtsClient w.nSessions c
      have hv : Traversable v := h₁.congr rfl le_rfl
      dsimp only
      generalize hinit : v.initSmtsDvrClient w.nSessions = init
      obtain ⟨v₁, r₁⟩ := init
      have hq := initSmtsDvrClient_quiet hinit
      have hv₁ : Traversable v₁ := hv.congr (by rw [hq.manager]) hq.nSessions.ge
      have hfuel₁ : v₁.nSessions < fuel := hq.nSessions ▸ hfuel
      have hal₁ : v₁.manager.links.Alone (.session w.nSessions) := by rw [hq.manager]; exact hal
      dsimp only
      split
      · exact ⟨_, _, rfl⟩
      · obtain ⟨m, d, hadd⟩ := hv₁.addSession_total hfuel₁ w.nSessions
        have hm := hv₁.addSession hq.nSessions hal₁ hadd
        rw [hadd, Option.bind_some]
        dsimp only
        split
        · exact ⟨_, _, rfl⟩
        -- the ring has one member more by now, for which there is a round
        · generalize hconn : ({ v₁ with manager := m } : Server).tcpClientConnect w.nSessions = conn
          obtain ⟨v₂, r₂⟩ := conn
          dsimp only
          split
          · have hv₂ : Traversable v₂ ∧ v₂.nSessions = v₁.nSessions := by
              obtain ⟨u, hu, ⟨-, rfl⟩ | ⟨-, rfl⟩⟩ := tcpClientConnect_cases hconn
              · exact ⟨hm.congr (by rw [hu.manager]) hu.nSessions.ge, hu.nSessions⟩
              · exact ⟨hm.congr (by rw [← hu.manager]; rfl) hu.nSessions.ge, hu.nSessions⟩
            obtain ⟨v₃, hdel⟩ := hv₂.1.deleteSession_total (hv₂.2 ▸ hfuel₁) w.nSessions
            rw [hdel]
            exact ⟨_, _, rfl⟩
          · exact ⟨_, _, rfl⟩

theorem Traversable.smtsStartPreview_total (h : Traversable w) (hfuel : w.nSessions + 1 < fuel)
    (c p : Nat) : ∃ w', w.smtsStartPreview fuel c p = some w' := by
  obtain ⟨w₁, r, hmedia⟩ :
      ∃ w₁ r, w.mediaClientStartPreview fuel c (playKey (w.cmds p)) = some (w₁, r) :=
    h.mediaClientStartPreview_total hfuel
  rw [Server.smtsStartPreview, hmedia]
  simp only [Option.bind_eq_bind, Option.bind_some]
  split
  · obtain ⟨w₂, henc, -⟩ := w₁.encodeNew_flat (t := w₁.previewRes r)
      (show previewCmdRes ∈ payloadFreeTypes by decide)
    rw [henc, Option.bind_some]
    split <;> exact ⟨_, rfl⟩
  · exact ⟨_, rfl⟩

/-- A handler is found for the command, and returns; but not the mock DVR's. -/
theorem Traversable.dispatchPacket_total_iff {bytes : List Byte} {junk : Int → Byte} {c : Nat}
    (h : Traversable w) (hfuel : w.nSessions + 1 < fuel) :
    (∃ w', w.dispatchPacket fuel c bytes junk = some w') ↔ ¬ (Event.packet c bytes junk).Mocks := by
  obtain ⟨cmd, found, hcmd, hdec, hfound⟩ := dispatchDecode_beyond bytes junk (w.heap.receive bytes).2
    (BitVec.ofNat 64 bytes.length) (w.garbage w.nCmds)
  have hmocks : (Event.packet c bytes junk).Mocks ↔ cmd = mockDvrPreview.cmd := by
    rw [Event.Mocks, hcmd, Option.some.injEq]
  -- the table has the mock DVR's handler for its command, and for no other
  have hmap : found.map Prod.snd = some (some .mockDvrPreviewImpl) ↔ cmd = mockDvrPreview.cmd := by
    rw [hfound, Option.map_eq_some_iff]
    constructor
    · rintro ⟨e, he, himp⟩
      have hec : e.1.cmd = cmd := by simpa using List.find?_some he
      exact hec ▸ mockDvrPreview_cmd e (List.mem_of_find?_eq_some he) himp
    · rintro rfl
      exact ⟨(mockDvrPreview, some .mockDvrPreviewImpl), by decide, rfl⟩
  have hdec : dispatchDecode (Reader.beyond bytes junk) (w.heap.receive bytes).2
      (BitVec.ofNat 64 bytes.length) ((w.setHeap (w.heap.receive bytes).1).garbage
        (w.setHeap (w.heap.receive bytes).1).nCmds) = some found := hdec
  rw [hmocks, ← hmap, Server.dispatchPacket]
  simp only [hdec, Option.bind_eq_bind, Option.bind_some]
  cases found with
  | none => simp
  | some d =>
      obtain ⟨t, imp⟩ := d
      let w₁ := (w.setHeap (w.heap.receive bytes).1).addCmd t
      have h₁ : Traversable w₁ := h.congr rfl le_rfl
      have hcall : (∃ w', w₁.callImp fuel c w.nCmds imp = some w') ↔ imp ≠ some .mockDvrPreviewImpl := by
        cases imp with
        | none => exact ⟨fun _ => by simp, fun _ => ⟨w₁, rfl⟩⟩
        | some imp =>
            cases imp with
            | smtsStartPreview =>
                exact ⟨fun _ => by simp, fun _ => h₁.smtsStartPreview_total hfuel c w.nCmds⟩
            | mockDvrPreviewImpl => simp [callImp]
            | msgChannel =>
                obtain ⟨w', -, -, -, hw', -⟩ := msgChannel_log w₁ c w.nCmds
                exact ⟨fun _ => by simp, fun _ => ⟨w', hw'⟩⟩
      have hiff : ¬ (some (t, imp)).map Prod.snd = some (some .mockDvrPreviewImpl) ↔
          imp ≠ some .mockDvrPreviewImpl := by simp
      rw [hiff, ← hcall]
      constructor
      · rintro ⟨w', hw'⟩
        obtain ⟨w₂, hw₂, -⟩ := Option.bind_eq_some_iff.mp hw'
        exact ⟨w₂, hw₂⟩
      · rintro ⟨w₂, hw₂⟩
        exact ⟨w₂.protoCmdDestroy w.nCmds, Option.bind_eq_some_iff.mpr ⟨w₂, hw₂, rfl⟩⟩

/-! ## Completions -/

/-- The callback fits whom was written to, and finds what it looks for. -/
theorem Fueled.sendCb (h : Fueled A fuel w) (hbooks : Books w) (hnone : Apart .none w) {k : Nat}
    {req : WriteReq} (hk : w.writes[k]? = some req) (status : Int) :
    ∃ w', (w.eraseWrite k).sendCb fuel req status = some w' := by
  have hreq := List.mem_of_getElem? hk
  have hmem : req ∈ w.writesOf req.packet := List.mem_filter.mpr ⟨hreq, by simp⟩
  obtain ⟨V, xs, hV, hp⟩ := hbooks.packets _ (hnone.written req hreq)
  -- what the packet was made for says whom it was written to, and with which callback
  cases hV with
  | passed h' _ =>
      obtain rfl := hp
      obtain ⟨s, hs, hcb⟩ := h'.sends req hmem
      exact ⟨_, by rw [Server.sendCb, hs, hcb]⟩
  | asked h' _ =>
      obtain rfl := hp
      obtain ⟨s, hs, hcb⟩ := h'.sends req hmem
      have hlt : k < w.writes.length := (List.getElem?_eq_some_iff.mp hk).1
      have hdvr : (w.scope (.writeDone k status)).dvr = some s := by
        simp [Server.scope, hk, hs, Target.dvr?]
      obtain ⟨hs', hA⟩ := h.rings.scope_dvr (e := .writeDone k status) hlt hdvr
      have hd : Does { write := some req } w ((w.eraseWrite k).protoCmdDestroy req.packet) :=
        (Does.start.step (.complete hk rfl (by simp [hcb]))).step (.destroy (.inl ⟨req, rfl, rfl⟩))
      have h₁ := h.does hd (by rintro t ⟨⟩) rfl rfl
      obtain ⟨w', hw'⟩ := h₁.onSmtsDvrClientSendPreview hs' hA status
      exact ⟨w', by rw [Server.sendCb, hs, hcb]; exact hw'⟩
  | answered h' _ =>
      obtain rfl := hp
      obtain ⟨c, hc, hcb | hcb | hcb⟩ := h'.sends req hmem
      · exact ⟨_, by rw [Server.sendCb, hc, hcb]⟩
      · exact ⟨_, by rw [Server.sendCb, hc, hcb]⟩
      · exact ⟨_, by rw [Server.sendCb, hc, hcb]⟩
  | @relayed d f b h' _ _ =>
      have hreq' : req.packet = d + 1 := hp.resolve_left fun heq => by
        rw [heq, h'.alone] at hmem
        cases hmem
      obtain ⟨c, hc, hcb⟩ := h'.sends req (hreq' ▸ hmem)
      obtain ⟨v, hdrop, -⟩ := (h'.eraseWrite hk hreq').drop
      rw [Server.sendCb, hc, hcb]
      simp only [hreq', hdrop, Option.bind_eq_bind, Option.bind_some]
      split <;> exact ⟨_, rfl⟩
  | @unshared d f b h' _ =>
      obtain rfl : req.packet = d := hp
      rw [h'.alone] at hmem
      cases hmem
  | dropped _ => exact hp.elim

/-- Where memory is not used again, a callback returns within one round for each
session and client. -/
theorem handle_total_of_run {uv : Nat → Int} {garbage : Nat → Values NvmpName} {es : List Event}
    {e : Event} (h : Transition.Run (fun w e w' => w.JoinsOnce e ∧ Step w e w') (init uv garbage) es w)
    (hen : w.Enabled e) (hfuel : w.nSessions + w.nClients + 1 < fuel) :
    (∃ w', w.handle fuel e = some w') ↔ ¬ e.Mocks := by
  have hsteps := h.mono fun _ _ _ => And.right
  obtain ⟨A, hrings⟩ := ringInv_of_run h
  have hnone := apart_of_run hsteps
  have hlinks : Traversable w :=
    hsteps.invariant (fun _ _ _ hi hstep => hi.step hstep) (init_traversable uv garbage)
  have hf : Fueled A fuel w := ⟨hrings, hlinks, by omega, by omega⟩
  -- only a packet's handler may have no result
  have htotal : ∀ {e' : Event}, ¬ e'.Mocks → (∃ w', w.handle fuel e' = some w') →
      ((∃ w', w.handle fuel e' = some w') ↔ ¬ e'.Mocks) := fun hm hw => ⟨fun _ => hm, fun _ => hw⟩
  cases e with
  | packet c bytes junk => exact hlinks.dispatchPacket_total_iff (by omega)
  | connection => exact htotal id ⟨_, rfl⟩
  | readError c status => exact htotal id ⟨_, rfl⟩
  | clientClosed c => exact htotal id ⟨_, rfl⟩
  | dvrClosed s => exact htotal id ⟨_, rfl⟩
  | dvrConnected s status =>
      obtain ⟨hs, hA⟩ := hrings.scope_dvr (e := .dvrConnected s status) hen rfl
      let v := w.setSession s { w.sessions s with dvr := { (w.sessions s).dvr with connecting := false } }
      have hd : Does { dvr := some s, request := some (.connectReq s) } w v :=
        Does.start.step (.touch ⟨.inl rfl, rfl, rfl, id, .inr ⟨rfl, rfl, rfl⟩, .inl rfl, .inl rfl⟩)
      have hv := hf.does hd (by rintro t ⟨⟩; exact ⟨hs, hA⟩) rfl rfl
      obtain ⟨w₁, hconn⟩ := hv.onConnectedToDvr hs hA status
      refine htotal id ⟨w₁.emit (.free (.connectReq s)), ?_⟩
      exact Option.bind_eq_some_iff.mpr ⟨w₁, hconn, rfl⟩
  | dvrPacket s bytes junk =>
      obtain ⟨hs, hA⟩ := hrings.scope_dvr (e := .dvrPacket s bytes junk) hen rfl
      exact htotal id (hf.onDvrClientReadFrameCb hs hA hnone bytes junk)
  | dvrReadError s status =>
      obtain ⟨hs, hA⟩ := hrings.scope_dvr (e := .dvrReadError s status) hen rfl
      let v := w.setSession s { w.sessions s with dvr := { (w.sessions s).dvr with reading := false } }
      have hd : Does { dvr := some s } w v :=
        Does.start.step (.touch ⟨.inl rfl, rfl, rfl, id, .inr ⟨rfl, rfl, rfl⟩, .inl rfl, .inr (.inr rfl)⟩)
      have hv := hf.does hd (by rintro t ⟨⟩; exact ⟨hs, hA⟩) rfl rfl
      obtain ⟨w', hexit⟩ := hv.exit hs hA dvrRecvFrameError
      refine htotal id ⟨w', ?_⟩
      show v.onSmtsDvrClientRecvFrame fuel s none dvrRecvFrameError = some w'
      rw [Server.onSmtsDvrClientRecvFrame, if_pos (by decide)]
      exact hexit
  | writeDone k status =>
      obtain ⟨req, hk⟩ : ∃ req, w.writes[k]? = some req := ⟨_, List.getElem?_eq_getElem hen⟩
      obtain ⟨w₁, hcb⟩ := hf.sendCb (books_of_run h) hnone hk status
      refine htotal id ⟨w₁.emit (.free (.writeReq req.id)), ?_⟩
      rw [Server.handle, Server.tcpClientSendMsgCb, hk]
      simp only [Option.bind_eq_bind, Option.bind_some, hcb]
  | timer s =>
      let v := w.setSession s { w.sessions s with waitExitTimer := false }
      have hv : Traversable v := hlinks.congr rfl le_rfl
      refine htotal id ?_
      show ∃ w', w.sessionExitCb fuel s = some w'
      rw [Server.sessionExitCb]
      split
      · obtain ⟨w₁, hdel⟩ := hv.deleteSession_total hf.sessions s
        exact ⟨_, Option.bind_eq_some_iff.mpr ⟨w₁, hdel, rfl⟩⟩
      · exact ⟨_, rfl⟩

/-- **Every callback returns**, in every run in which no client asks for a
preview while it is attached, and no session is deleted in place of another:
within one round for each session and client, whatever libuv's calls return,
whatever was sent, and whatever memory the session gets that is allocated; only
a client that sends the mock DVR's preview command gets further than the source
defines. -/
theorem handle_total_iff_of_recycling {uv : Nat → Int} {garbage : Nat → Values NvmpName}
    {es : List Event} {e : Event}
    (h : Transition.Run (fun w e w' => w.Proper e ∧ AllocStep w e w') (init uv garbage) es w)
    (hen : w.Enabled e) (hdel : w.DeletesOwn e) (hfuel : w.nSessions + w.nClients + 1 < fuel) :
    ((∃ w', w.handle fuel e = some w') ↔ ¬ e.Mocks) ∧
      ∀ s₀ < w.nSessions, (w.sessions s₀).freed = true →
        ((∃ w', (w.recycle s₀).handle fuel e = some w') ↔ ¬ e.Mocks) := by
  obtain ⟨u, m, hrun, rfl⟩ := run_of_recycling h
  obtain ⟨A, l, ho⟩ := orderly_of_run hrun
  have hen := (fill_enabled ..).mp hen
  have hown := (ho.deletesOwn_fill hen m).mp hdel
  have hsteps : Transition.Run (fun w e w' => w.JoinsOnce e ∧ Step w e w') (init uv garbage) es u :=
    hrun.mono fun _ _ _ hs => ⟨hs.1.joins, hs.2⟩
  have htotal := handle_total_of_run hsteps hen hfuel
  have hsame : ∀ m, (∃ w', (u.fill u.dead m).handle fuel e = some w') ↔ ¬ e.Mocks := by
    intro m
    have htwin : Twin u.dead u.Used (fun s => u.deletes e = some s) m u (u.fill u.dead m) :=
      ⟨rfl, ho.inUse hen hown⟩
    have hrel := htwin.handle hen (ho.comes hen fuel)
    rw [← htotal]
    constructor
    · intro ⟨v', hv'⟩
      obtain ⟨u', hu', -⟩ := hrel.eq_some' hv'
      exact ⟨u', hu'⟩
    · intro ⟨u', hu'⟩
      obtain ⟨v', hv', -⟩ := hrel.eq_some hu'
      exact ⟨v', hv'⟩
  refine ⟨hsame m, fun s₀ _ hf => ?_⟩
  obtain ⟨m', hm'⟩ := ho.recycle (fill_freed .. ▸ hf) m
  rw [hm']
  exact hsame m'

/-- The last request of `successor` is answered for, whatever memory its session
gets. -/
theorem handle_total_iff_of_recycling_successor :
    ∃ w, Transition.Run (fun w e w' => w.Proper e ∧ AllocStep w e w')
        (init (fun _ => 0) fun _ => Values.zero) ((successor.take 7).map Prod.snd) w ∧
      (w.sessions 0).freed = true ∧ (∃ w', w.handle 5 (previewOf 1 0) = some w') ∧
      ∃ w', (w.recycle 0).handle 5 (previewOf 1 0) = some w' := by
  have hval : ((init (fun _ => 0) fun _ => Values.zero).followAlloc Proper 3 (successor.take 7)).map
      (fun w => (w.nSessions, (w.sessions 0).freed, w.nClients, decide (w.Enabled (previewOf 1 0)),
        decide (w.DeletesOwn (previewOf 1 0))))
      = some (1, true, 2, true, true) := by
    decide +kernel
  obtain ⟨w, hw, hval⟩ := Option.map_eq_some_iff.mp hval
  obtain ⟨hn, hval⟩ := Prod.mk.inj hval
  obtain ⟨hfreed, hval⟩ := Prod.mk.inj hval
  obtain ⟨hclients, hval⟩ := Prod.mk.inj hval
  obtain ⟨hen, hdel⟩ := Prod.mk.inj hval
  have hmocks : ¬ (previewOf 1 0).Mocks := by decide +kernel
  have hrun := run_of_followAlloc hw
  have hfuel : w.nSessions + w.nClients + 1 < 5 := by omega
  obtain ⟨hhere, hthere⟩ :=
    handle_total_iff_of_recycling hrun (of_decide_eq_true hen) (of_decide_eq_true hdel) hfuel
  exact ⟨w, hrun, hfreed, hhere.mpr hmocks, (hthere 0 (by omega) hfreed).mpr hmocks⟩

end Fueled

end Server

end Smts
