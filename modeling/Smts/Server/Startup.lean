import Smts.Server.Messages
import Smts.Server.Rings

/-!
# Server — how a session is started, or not

`media_client_start_preview` links the client, then the session, and unlinks
the session again when the DVR cannot be connected to. The client stays linked
to the ring of a session that is freed; from its own side, and the manager's,
nothing has happened.
-/

namespace Smts

open Circular

/-- The observation is a packet that was given to `uv_write`. -/
def Obs.isWrite : Obs → Bool
  | .uvWrite .. => true
  | _ => false

theorem Obs.isWrite_of_ofMemory {o : Obs} (ho : o.ofMemory = false) : o.isWrite = false := by
  cases o <;> first | rfl | cases ho

namespace Server

/-! ## What is left of a start -/

section Starts

variable {w w' : Server} {fuel s c : Nat} {r : Int}

theorem Quiet.manage {w₁ : Server} (h : Quiet w w₁) (m : SessionManager) :
    Quiet { w with manager := m } { w₁ with manager := m } :=
  ⟨⟨h.clients, h.nClients, h.sessions, h.nSessions, h.rings, rfl⟩, h.writes⟩

theorem Quiet.keyOf {w₁ : Server} (h : Quiet w w₁) : w₁.keyOf = w.keyOf := by
  funext t
  rw [Server.keyOf, h.sessions]
  rfl

/-- Apart from the manager only the client's session, or the session's DVR,
is written to. -/
theorem Starts.outcome (h : Starts fuel w s c w' r) :
    ∃ w₁ m, Quiet { w with manager := m } w₁ ∧
      ((r ≠ 0 ∧ w' = w₁.initSessionError s c ∧
          (m = w.manager ∨ ∃ m₁ d, w.manager.addSession w.keyOf fuel (some s) = some (m₁, 0) ∧
            m₁.deleteSession w.keyOf fuel (some s) = some (m, d))) ∨
        (r = 0 ∧ w.manager.addSession w.keyOf fuel (some s) = some (m, 0) ∧
          w' = w₁.setSession s { w₁.sessions s with
            dvr := { (w₁.sessions s).dvr with connecting := true } })) := by
  cases h with
  | initFails hinit hr => exact ⟨_, w.manager, initSmtsDvrClient_quiet hinit, .inl ⟨hr, rfl, .inl rfl⟩⟩
  | addFails hinit hadd hr =>
      have hq := initSmtsDvrClient_quiet hinit
      obtain ⟨-, rfl⟩ | ⟨hz, -⟩ := SessionManager.addSession_cases hadd
      · exact ⟨_, _, hq.manage _, .inl ⟨hr, rfl, .inl hq.manager⟩⟩
      · exact absurd hz hr
  | connectFails hinit hadd hconn hr hdel =>
      have hq := initSmtsDvrClient_quiet hinit
      obtain ⟨w₂, hq₂, ⟨-, rfl⟩ | ⟨hz, -⟩⟩ := tcpClientConnect_cases hconn
      · obtain ⟨⟨m', d⟩, hdel', hw₃⟩ := Option.bind_eq_some_iff.mp hdel
        obtain rfl := Option.some.inj hw₃
        rw [hq₂.manager, hq₂.keyOf] at hdel'
        rw [hq.manager, hq.keyOf] at hadd
        refine ⟨_, m', (hq.manage m').trans (hq₂.manage m'), .inl ⟨hr, rfl, .inr ⟨_, d, hadd, ?_⟩⟩⟩
        rw [← hq.keyOf]
        exact hdel'
      · exact absurd hz hr
  | connects hinit hadd hconn =>
      have hq := initSmtsDvrClient_quiet hinit
      obtain ⟨w₂, hq₂, ⟨hne, -⟩ | ⟨-, rfl⟩⟩ := tcpClientConnect_cases hconn
      · exact absurd rfl hne
      · rw [hq.manager, hq.keyOf] at hadd
        exact ⟨_, _, (hq.manage _).trans hq₂, .inr ⟨rfl, hadd, rfl⟩⟩

/-- `init_smts_dvr_client` touches no packet. -/
theorem NetOnly.initSmtsDvrClient (hr : w.initSmtsDvrClient s = (w', r)) : NetOnly w w' := by
  obtain rfl := (congrArg Prod.fst hr).symm
  have h : NetOnly w (w.emit (.uvInit (.dvr s))).uvCall.1 := (emit w rfl).trans (uvCall rfl)
  rw [Server.initSmtsDvrClient]
  dsimp only
  split <;> exact h

theorem NetOnly.tcpClientConnect (hr : w.tcpClientConnect s = (w', r)) : NetOnly w w' := by
  obtain rfl := (congrArg Prod.fst hr).symm
  have h₁ : NetOnly w (w.emit (.uvInit (.dvr s))).uvCall.1 := (emit w rfl).trans (uvCall rfl)
  have h₂ := h₁.trans (uvCall rfl)
  have h₃ := h₂.trans (uvCall rfl)
  have h₄ := h₃.trans (uvCall rfl)
  have h₅ := h₄.trans (uvCall rfl)
  rw [Server.tcpClientConnect]
  dsimp only
  split
  · exact h₁
  split
  · exact h₂
  split
  · exact h₃
  split
  · exact h₄
  split
  · exact h₅
  · exact h₅.trans (setSession ..)

theorem Starts.netOnly (h : Starts fuel w s c w' r) : NetOnly w w' := by
  cases h with
  | initFails hinit _ => exact (NetOnly.initSmtsDvrClient hinit).trans (.initSessionError ..)
  | addFails hinit _ _ =>
      exact ((NetOnly.initSmtsDvrClient hinit).trans (.manage ..)).trans (.initSessionError ..)
  | connectFails hinit _ hconn _ hdel =>
      have h₁ := ((NetOnly.initSmtsDvrClient hinit).trans (.manage ..)).trans (.tcpClientConnect hconn)
      exact (h₁.trans (.deleteSession hdel)).trans (.initSessionError ..)
  | connects hinit _ hconn =>
      exact ((NetOnly.initSmtsDvrClient hinit).trans (.manage ..)).trans (.tcpClientConnect hconn)

end Starts

/-! ## No trace -/

/-- The manager and the live sessions know nothing of `c`, and are as they
were. -/
structure Untraced (w : Server) (c : Nat) (ms : List Nat) (w' : Server) : Prop where
  manager : w'.manager.Exact w'.keyOf ms
  session : (w'.clients c).session = none
  clients : ∀ d, d ≠ c → w'.clients d = w.clients d
  sessions : ∀ t < w.nSessions, w'.sessions t = w.sessions t
  rings : ∀ t < w'.nSessions, (w'.sessions t).freed = false → ∀ l : List Nat,
    w'.rings.IsRing (.head t) (l.map .client) → c ∉ l

/-- The manager has one session more, the client is in it, and nobody else. -/
structure Gained (w : Server) (c : Nat) (key : SessionKey) (ms : List Nat) (w' : Server) : Prop where
  manager : w'.manager.Exact w'.keyOf (w.nSessions :: ms)
  key : w'.keyOf w.nSessions = key
  ring : w'.rings.IsRing (.head w.nSessions) [.client c]
  size : (w'.sessions w.nSessions).clientSize = 1
  session : (w'.clients c).session = some w.nSessions
  clients : ∀ d, d ≠ c → w'.clients d = w.clients d
  sessions : ∀ t < w.nSessions, w'.sessions t = w.sessions t

section Trace

variable {w w' : Server} {fuel c : Nat} {key : SessionKey} {r : Int} {ms : List Nat}

/-- The manager while a session is set up. -/
theorem addSmtsClient_exact (key : SessionKey) (c : Nat) (hm : w.manager.Exact w.keyOf ms) (hlt : ∀ t ∈ ms, t < w.nSessions) :
    ((w.initMediaSession key).addSmtsClient w.nSessions c).manager.Exact
      ((w.initMediaSession key).addSmtsClient w.nSessions c).keyOf ms := by
  have hnot : w.nSessions ∉ ms := fun hmem => Nat.lt_irrefl _ (hlt _ hmem)
  refine (hm.init_frame hnot).congr fun t ht => ?_
  have hne : t ≠ w.nSessions := fun he => hnot (he ▸ ht)
  simp [Server.keyOf, Function.update_of_ne hne]

theorem addSmtsClient_keyOf_new :
    ((w.initMediaSession key).addSmtsClient w.nSessions c).keyOf w.nSessions = key := by
  simp [Server.keyOf]

/-- Starting a session leaves the rings of the other ones as they were. -/
theorem addSmtsClient_ring (key : SessionKey) {t : Nat} {l : List Nat} (ht : t ≠ w.nSessions) (hc : c ∉ l)
    (hl : w.rings.IsRing (.head t) (l.map .client)) :
    ((w.initMediaSession key).addSmtsClient w.nSessions c).rings.IsRing (.head t) (l.map .client) := by
  have hhead : RingNode.head w.nSessions ∉ RingNode.head t :: l.map .client := by
    simpa using Ne.symm ht
  refine (Links.IsRing.init _ _).insertHead_frame (hl.init_frame hhead) (client_notMem hc) ?_
  simpa using Ne.symm ht

/-- What `add_session` and `delete_session` leave, one after the other. -/
theorem exact_add_delete {keyOf : Nat → SessionKey} {m m₁ m₂ : SessionManager} {s : Nat} {d : Int}
    (hm : m.Exact keyOf ms) (hkey : ∀ t ∈ ms, keyOf t ≠ keyOf s) (hfuel : ms.length + 1 < fuel)
    (hadd : m.addSession keyOf fuel (some s) = some (m₁, 0))
    (hdel : m₁.deleteSession keyOf fuel (some s) = some (m₂, d)) : m₂.Exact keyOf ms := by
  obtain ⟨m', hadd', hm'⟩ := hm.addSession_new (show ms.length < fuel by omega) hkey
  obtain ⟨rfl, -⟩ := Prod.mk.inj (Option.some.inj (hadd.symm.trans hadd'))
  obtain ⟨m', hdel', hm'⟩ := hm'.deleteSession_member (s := s) (by simpa using hfuel) (by simp)
  obtain ⟨rfl, -⟩ := Prod.mk.inj (Option.some.inj (hdel.symm.trans hdel'))
  rwa [List.erase_cons_head] at hm'

theorem Untraced.of_starts (hm : w.manager.Exact w.keyOf ms) (hlt : ∀ t ∈ ms, t < w.nSessions)
    (hrings : ∀ t < w.nSessions, (w.sessions t).freed = false →
      ∃ l : List Nat, w.rings.IsRing (.head t) (l.map .client) ∧ c ∉ l)
    (hkey : ∀ t ∈ ms, w.keyOf t ≠ key) (hfuel : ms.length + 1 < fuel) (hr : r ≠ 0)
    (h : Starts fuel ((w.initMediaSession key).addSmtsClient w.nSessions c) w.nSessions c w' r) :
    Untraced w c ms w' := by
  have hm₁ := addSmtsClient_exact key c hm hlt
  obtain ⟨w₁, m, hq, ⟨-, rfl, hman⟩ | ⟨hz, -⟩⟩ := h.outcome
  · have hsessions : ∀ t, t ≠ w.nSessions →
        (w₁.initSessionError w.nSessions c).sessions t = w.sessions t := fun t ht => by
      simp [Function.update_of_ne ht, show w₁.sessions = _ from hq.sessions]
    refine ⟨?_, ?_, fun d hd => ?_, fun t ht => hsessions t ht.ne, fun t ht hlive l hl => ?_⟩
    · have hmanager : m.Exact ((w.initMediaSession key).addSmtsClient w.nSessions c).keyOf ms := by
        -- the session did not get into the manager, or was put in and taken out
        rcases hman with rfl | ⟨m₁, d, hadd, hdel⟩
        · exact hm₁
        · refine exact_add_delete hm₁ (fun t ht => ?_) hfuel hadd hdel
          have hne : t ≠ w.nSessions := (hlt t ht).ne
          rw [addSmtsClient_keyOf_new]
          simpa [Server.keyOf, Function.update_of_ne hne] using hkey t ht
      rw [initSessionError_manager, show w₁.manager = m from hq.manager]
      refine hmanager.congr fun t ht => ?_
      have hne : t ≠ w.nSessions := (hlt t ht).ne
      rw [Server.keyOf, hsessions t hne]
      simp [Server.keyOf, Function.update_of_ne hne]
    · simp
    · simp [Function.update_of_ne hd, show w₁.clients = _ from hq.clients]
    · have htn : t ≠ w.nSessions := by
        rintro rfl
        simp at hlive
      have hlt : t < w.nSessions := by
        have hn : (w₁.initSessionError w.nSessions c).nSessions = w.nSessions + 1 := hq.nSessions
        omega
      rw [hsessions t htn] at hlive
      obtain ⟨l₀, hl₀, hc⟩ := hrings t hlt hlive
      have hl₁ := addSmtsClient_ring key htn hc hl₀
      have hsame : (w₁.initSessionError w.nSessions c).rings
          = ((w.initMediaSession key).addSmtsClient w.nSessions c).rings := hq.rings
      rw [hsame] at hl
      rwa [List.map_injective_iff.mpr (fun _ _ => RingNode.client.inj) (hl.unique hl₁)]
  · exact absurd hz hr

theorem Gained.of_starts (hm : w.manager.Exact w.keyOf ms) (hlt : ∀ t ∈ ms, t < w.nSessions)
    (hkey : ∀ t ∈ ms, w.keyOf t ≠ key) (hfuel : ms.length < fuel)
    (h : Starts fuel ((w.initMediaSession key).addSmtsClient w.nSessions c) w.nSessions c w' 0) :
    Gained w c key ms w' := by
  have hm₁ := addSmtsClient_exact key c hm hlt
  obtain ⟨w₁, m, hq, ⟨hne, -⟩ | ⟨-, hadd, rfl⟩⟩ := h.outcome
  · exact absurd rfl hne
  · have hnew : ∀ t ∈ ms, ((w.initMediaSession key).addSmtsClient w.nSessions c).keyOf t
        ≠ ((w.initMediaSession key).addSmtsClient w.nSessions c).keyOf w.nSessions := fun t ht => by
      rw [addSmtsClient_keyOf_new]
      simpa [Server.keyOf, Function.update_of_ne (hlt t ht).ne] using hkey t ht
    obtain ⟨m', hadd', hm'⟩ := hm₁.addSession_new hfuel hnew
    obtain ⟨rfl, -⟩ := Prod.mk.inj (Option.some.inj (hadd.symm.trans hadd'))
    have hsessions : w₁.sessions = ((w.initMediaSession key).addSmtsClient w.nSessions c).sessions :=
      hq.sessions
    have hclients : w₁.clients = ((w.initMediaSession key).addSmtsClient w.nSessions c).clients :=
      hq.clients
    refine ⟨?_, ?_, ?_, ?_, ?_, fun d hd => ?_, fun t ht => ?_⟩
    · rw [setSession_manager, show w₁.manager = m from hq.manager]
      refine hm'.congr fun t _ => ?_
      by_cases ht : t = w.nSessions
      · simp [Server.keyOf, ht, hsessions]
      · simp [Server.keyOf, Function.update_of_ne ht, hsessions]
    · simp [Server.keyOf, hsessions]
    · rw [setSession_rings, show w₁.rings = _ from hq.rings]
      exact (Links.IsRing.init _ _).insertHead (by simp)
    · simp [hsessions]
    · simp [hclients]
    · simp [hclients, Function.update_of_ne hd]
    · simp [hsessions, Function.update_of_ne ht.ne]

/-- There is a result when there is fuel for the searches. -/
theorem mediaClientStartPreview_total (hm : w.manager.Exact w.keyOf ms)
    (hlt : ∀ t ∈ ms, t < w.nSessions) (hkey : ∀ t ∈ ms, w.keyOf t ≠ key)
    (hfuel : ms.length + 1 < fuel) :
    ∃ w₁ r, w.mediaClientStartPreview fuel c key = some (w₁, r) ∧
      Starts fuel ((w.initMediaSession key).addSmtsClient w.nSessions c) w.nSessions c w₁ r := by
  have hget : w.manager.getSession w.keyOf fuel key = some none := by
    rw [hm.getSession (by omega)]
    simpa using hkey
  suffices hsome : ∃ w₁ r, w.mediaClientStartPreview fuel c key = some (w₁, r) by
    obtain ⟨w₁, r, hr⟩ := hsome
    exact ⟨w₁, r, hr, mediaClientStartPreview_new hget hr⟩
  have hm₁ := addSmtsClient_exact key c hm hlt
  -- the new key differs from the members' keys, so add_session takes it
  have hnew : ∀ t ∈ ms, ((w.initMediaSession key).addSmtsClient w.nSessions c).keyOf t
      ≠ ((w.initMediaSession key).addSmtsClient w.nSessions c).keyOf w.nSessions := fun t ht => by
    rw [addSmtsClient_keyOf_new]
    simpa [Server.keyOf, Function.update_of_ne (hlt t ht).ne] using hkey t ht
  obtain ⟨m, hadd, hm₂⟩ := hm₁.addSession_new (show ms.length < fuel by omega) hnew
  obtain ⟨m', hdel, -⟩ := hm₂.deleteSession_member (s := w.nSessions) (by simpa using hfuel) (by simp)
  rw [Server.mediaClientStartPreview, hget]
  simp only [Option.bind_eq_bind, Option.bind_some]
  generalize hinit : ((w.initMediaSession key).addSmtsClient w.nSessions c).initSmtsDvrClient
    w.nSessions = init
  obtain ⟨w₁, r₁⟩ := init
  have hq := initSmtsDvrClient_quiet hinit
  rw [← hq.manager, ← hq.keyOf] at hadd
  rw [← hq.keyOf] at hdel
  dsimp only
  split
  · exact ⟨_, _, rfl⟩
  simp only [hadd, Option.bind_some, ne_eq, not_true_eq_false, if_false]
  generalize hconn : ({ w₁ with manager := m } : Server).tcpClientConnect w.nSessions = conn
  obtain ⟨w₂, r₂⟩ := conn
  split
  next hne =>
    obtain ⟨w₂', hq₂, ⟨-, rfl⟩ | ⟨hz, -⟩⟩ := tcpClientConnect_cases hconn
    · have hdel : w₂.manager.deleteSession w₂.keyOf fuel (some w.nSessions) = some (m', 0) := by
        rw [hq₂.manager, hq₂.keyOf]
        exact hdel
      rw [deleteSession_some hdel]
      exact ⟨_, _, rfl⟩
    · exact absurd hz hne
  · exact ⟨_, _, rfl⟩

end Trace

/-! ## What the client is told -/

section Answer

variable {w w₁ : Server} {fuel c p : Nat} {r : Int}

/-- A failure is answered once, with its code. -/
theorem smtsStartPreview_answers (hr : r ≠ 0)
    (hstart : w.mediaClientStartPreview fuel c (playKey (w.cmds p)) = some (w₁, r)) :
    ∃ w₂ m r', w.smtsStartPreview fuel c p = some w₂ ∧ SameNet w₁ w₂ ∧ w₂.log = w₁.log ++ m ∧
      m.filter Obs.isWrite = [.uvWrite (.client c) w₁.nCmds .errorPreviewRes
        (some (w₁.previewResBytes r)) r'] := by
  obtain ⟨w₂, henc, hwire⟩ := w₁.encodeNew_flat (t := w₁.previewRes r)
    (show previewCmdRes ∈ payloadFreeTypes by decide)
  rw [smtsStartPreview, hstart]
  simp only [Option.bind_eq_bind, Option.bind_some, if_pos hr, henc]
  generalize hsend : w₂.tcpClientSendMsg (.client c) w₁.nCmds .errorPreviewRes = send
  obtain ⟨w₃, r₃⟩ := send
  have hnet : SameNet w₁ w₃ :=
    (MemOnly.encodeNew henc).toSameNet.trans (MemOnly.tcpClientSendMsg hsend).toSameNet
  let res : Obs := .uvWrite (.client c) w₁.nCmds .errorPreviewRes (some (w₁.previewResBytes r)) r₃
  have hlog : w₃.log = w₁.log ++ [res] := by
    have hwire : (w₂.cmds w₁.nCmds).wire w₂.heap = some (w₁.previewResBytes r) := hwire
    rw [tcpClientSendMsg_log hsend, encodeNew_log henc, hwire]
  split
  · let frees : List Obs := (w₃.cmds w₁.nCmds).destroy.2.map fun x => .free (x.obj w₁.nCmds)
    refine ⟨_, [res] ++ frees, r₃, rfl, hnet.trans (MemOnly.protoCmdDestroy ..).toSameNet, ?_, ?_⟩
    · rw [protoCmdDestroy_log, hlog, List.append_assoc]
    · have hfrees : frees.filter Obs.isWrite = [] := by simp [frees, Obs.isWrite]
      rw [List.filter_append, hfrees]
      rfl
  · exact ⟨w₃, _, r₃, rfl, hnet, hlog, rfl⟩

end Answer

/-! ## A client that is in no session -/

section Outside

variable {S : Scope} {w₀ w w' : Server} {c : Nat}

/-- Only its own preview request takes a client into a session. -/
theorem Action.client_session (hjoin : S.join ≠ some c) (ha : Action S w₀ w w') :
    (w'.clients c).session = none ∨ (w'.clients c).session = (w.clients c).session := by
  have hsame : ∀ {w' : Server}, w'.clients = w.clients →
      (w'.clients c).session = none ∨ (w'.clients c).session = (w.clients c).session :=
    fun h => .inr (by rw [h])
  -- an update of a client, which may be `c` or not
  have hset : ∀ {w' : Server} {d : Nat} {x : SmtsClient},
      w'.clients = Function.update w.clients d x → (c = d → x.session = none ∨
        x.session = (w.clients d).session) →
      (w'.clients c).session = none ∨ (w'.clients c).session = (w.clients c).session := by
    intro w' d x h hx
    by_cases hd : c = d
    · subst hd
      rw [h, Function.update_self]
      exact hx rfl
    · exact .inr (by rw [h, Function.update_of_ne hd])
  cases ha with
  | uvCall hr => exact hsame (MemOnly.uvCall hr).clients
  | emit _ _ _ _ => exact hsame rfl
  | encodeNew _ _ _ hr => exact hsame (encodeNew_clients hr)
  | receive _ => exact hsame rfl
  | drop _ => exact hsame rfl
  | addFrame _ _ => exact hsame rfl
  | increaseRef _ => exact hsame rfl
  | addRef _ _ => exact hsame rfl
  | destroy _ => exact hsame rfl
  | dropRef _ hr => exact hsame (MemOnly.onSmtsClientSendFrame hr).clients
  | destroyFrame _ _ => exact hsame rfl
  | send _ _ _ _ hr => exact hsame (MemOnly.tcpClientSendMsg hr).clients
  | sendPreviewRes _ _ _ hr => exact hset (MemOnly.tcpClientSendMsg hr).clients fun _ => .inr rfl
  | complete _ _ _ => exact hsame rfl
  | previewResDone _ _ _ _ => exact hset rfl fun _ => .inr rfl
  | relay _ _ => exact hsame rfl
  | @stop d _ =>
      obtain ⟨-, h⟩ | ⟨-, -, h⟩ | ⟨-, t, -, h⟩ := stopSmtsClient_cases w d <;> rw [h]
      · exact hsame rfl
      · exact hset (d := d) rfl fun _ => .inl rfl
      · exact hset (d := d) rfl fun _ => .inl rfl
  | touch _ => exact hsame rfl
  | delete hr =>
      obtain ⟨m, rfl⟩ := deleteSession_eq hr
      exact hsame rfl
  | initClient _ => exact hset (d := w.nClients) rfl fun _ => .inl rfl
  | startRead _ d => exact hset (d := d) rfl fun _ => .inr rfl
  | @close _ d _ => exact hset (d := d) rfl fun _ => .inr rfl
  | @closed d _ => exact hset (d := d) rfl fun _ => .inr rfl
  | initSession _ _ => exact hsame rfl
  | @attach d hS _ => exact hset (d := d) rfl fun hcd => absurd (hcd ▸ hS) hjoin
  | manage _ _ => exact hsame rfl
  | @abort d _ _ => exact hset (d := d) rfl fun _ => .inl rfl

theorem Does.client_session (hjoin : S.join ≠ some c) (hd : Does S w₀ w) :
    (w.clients c).session = none ∨ (w.clients c).session = (w₀.clients c).session := by
  induction hd with
  | start => exact .inr rfl
  | step _ ha ih =>
      rcases ha.client_session hjoin with h | h
      · exact .inl h
      · exact h ▸ ih

theorem session_none_of_run {es : List Event} (h : Transition.Run Step w es w')
    (hes : ∀ e ∈ es, e.preview ≠ some c) (hc : (w.clients c).session = none) :
    (w'.clients c).session = none := by
  induction h with
  | refl => exact hc
  | snoc _ hstep ih =>
      obtain ⟨hen, fuel, hr⟩ := hstep
      have hold := ih fun e he => hes e (List.mem_append_left _ he)
      have hd := handle_does_any hen hr
      rcases hd.client_session ((scope_join ..) ▸ hes _ (by simp)) with hnone | hsame
      · exact hnone
      · exact hsame.trans hold

/-- Nobody notices when a client that is in no session is stopped. -/
theorem stopSmtsClient_outside (hc : (w.clients c).session = none) :
    (w.stopSmtsClient c).sessions = w.sessions ∧ (w.stopSmtsClient c).rings = w.rings ∧
      (w.stopSmtsClient c).manager = w.manager := by
  obtain ⟨-, h⟩ | ⟨-, -, h⟩ | ⟨-, s, hs, -⟩ := stopSmtsClient_cases w c
  · rw [h]
    exact ⟨rfl, rfl, rfl⟩
  · rw [h]
    exact ⟨rfl, rfl, rfl⟩
  · exact absurd (hc.symm.trans hs) (by simp)

end Outside

/-! ## The two ways a preview request ends -/

/-- All that is sent is one response to `c`, which says `r`. -/
def ToldOnce (w : Server) (c : Nat) (r : Int) (w' : Server) : Prop :=
  ∃ w₁ m p r', w'.log = w.log ++ m ∧
    m.filter Obs.isWrite
      = [.uvWrite (.client c) p .errorPreviewRes (some (previewResBytes w₁ r)) r'] ∧
    wireStatus (previewResBytes w₁ r) = BitVec.ofInt 32 r

section Ends

variable {w w₁ w' : Server} {fuel c p : Nat} {r : Int} {ms : List Nat}

theorem Untraced.sameNet (h : Untraced w c ms w₁) (hn : SameNet w₁ w') : Untraced w c ms w' := by
  refine ⟨?_, hn.clients ▸ h.session, hn.clients ▸ h.clients, hn.sessions ▸ h.sessions, ?_⟩
  · rw [hn.manager]
    exact h.manager.congr fun t _ => by simp only [Server.keyOf, hn.sessions]
  · rw [hn.nSessions, hn.sessions, hn.rings]
    exact h.rings

/-- **A failed start leaves no trace**, and the client is told of it once; it
may go then, whenever it does, and no session is touched. A start that
succeeds adds one session with this client in it. -/
theorem smtsStartPreview_traceless (hm : w.manager.Exact w.keyOf ms)
    (hlt : ∀ t ∈ ms, t < w.nSessions)
    (hrings : ∀ t < w.nSessions, (w.sessions t).freed = false →
      ∃ l : List Nat, w.rings.IsRing (.head t) (l.map .client) ∧ c ∉ l)
    (hkey : ∀ t ∈ ms, w.keyOf t ≠ playKey (w.cmds p)) (hfuel : ms.length + 1 < fuel) :
    ∃ w₁ r w₂, w.mediaClientStartPreview fuel c (playKey (w.cmds p)) = some (w₁, r) ∧
      Starts fuel ((w.initMediaSession (playKey (w.cmds p))).addSmtsClient w.nSessions c)
        w.nSessions c w₁ r ∧
      w.smtsStartPreview fuel c p = some w₂ ∧
      (r ≠ 0 → Untraced w c ms w₁ ∧ Untraced w c ms w₂ ∧ ToldOnce w c r w₂ ∧
        ∀ es w₃, Transition.Run Step (w₂.protoCmdDestroy p) es w₃ →
          (∀ e ∈ es, e.preview ≠ some c) →
          (w₃.stopSmtsClient c).sessions = w₃.sessions ∧ (w₃.stopSmtsClient c).rings = w₃.rings ∧
            (w₃.stopSmtsClient c).manager = w₃.manager) ∧
      (r = 0 → w₂ = w₁ ∧ Gained w c (playKey (w.cmds p)) ms w₁) := by
  obtain ⟨w₁, r, hmedia, hstarts⟩ := mediaClientStartPreview_total (c := c) hm hlt hkey hfuel
  by_cases hr : r = 0
  · subst hr
    have hstart : w.smtsStartPreview fuel c p = some w₁ := by
      rw [smtsStartPreview, hmedia]
      rfl
    exact ⟨w₁, 0, w₁, hmedia, hstarts, hstart, fun hne => absurd rfl hne,
      fun _ => ⟨rfl, .of_starts hm hlt hkey (by omega) hstarts⟩⟩
  · obtain ⟨w₂, m, r', hstart, hnet, hlog, hm₂⟩ := smtsStartPreview_answers hr hmedia
    have h₁ : Untraced w c ms w₁ := .of_starts hm hlt hrings hkey hfuel hr hstarts
    have h₂ := h₁.sameNet hnet
    refine ⟨w₁, r, w₂, hmedia, hstarts, hstart, fun _ => ⟨h₁, h₂, ?_, fun es w₃ hrun hes => ?_⟩,
      fun hz => absurd hz hr⟩
    · have hattach : NetOnly w ((w.initMediaSession (playKey (w.cmds p))).addSmtsClient w.nSessions c) :=
        (NetOnly.initMediaSession ..).trans (.addSmtsClient ..)
      obtain ⟨m₁, hm₁, hmo⟩ := (hattach.trans hstarts.netOnly).log
      refine ⟨w₁, m₁ ++ m, w₁.nCmds, r', by rw [hlog, hm₁, List.append_assoc], ?_,
        wireStatus_previewResBytes w₁ r⟩
      -- the start itself writes nothing, so that the response is the only write
      have hnone : m₁.filter Obs.isWrite = [] := List.filter_eq_nil_iff.mpr fun o ho => by
        simp [Obs.isWrite_of_ofMemory (hmo o ho)]
      rw [List.filter_append, hnone, hm₂, List.nil_append]
    · exact stopSmtsClient_outside (session_none_of_run hrun hes h₂.session)

/-- Beside the session of the first client, the second client asks for another one,
whose DVR cannot be connected to. -/
theorem smtsStartPreview_traceless_refused :
    ∃ w w₁ w₂, (init (brokenPipe 13) fun _ => Values.zero).follow 3
        [.connection, previewOf 0 1, .connection] = some w ∧
      w.mediaClientStartPreview 3 1 (playKey (w.cmds w.nCmds)) = some (w₁, -32) ∧
      w.smtsStartPreview 3 1 w.nCmds = some w₂ ∧ Untraced w 1 [0] w₂ ∧ ToldOnce w 1 (-32) w₂ := by
  have hval : ((init (brokenPipe 13) fun _ => Values.zero).follow 3
      [.connection, previewOf 0 1, .connection]).bind (fun w =>
        (w.mediaClientStartPreview 3 1 (playKey (w.cmds w.nCmds))).map fun started =>
          decide (started.2 = -32) && decide (w.manager.Exact w.keyOf [0]) && decide (w.nSessions = 1) &&
            decide (w.rings.IsRing (.head 0) ([0].map .client)) &&
            decide (w.keyOf 0 ≠ playKey (w.cmds w.nCmds)))
      = some true := by
    decide +kernel
  obtain ⟨w, hw, hval⟩ := Option.bind_eq_some_iff.mp hval
  obtain ⟨⟨w₁, r⟩, hmedia, hval⟩ := Option.map_eq_some_iff.mp hval
  simp only [Bool.and_eq_true, decide_eq_true_eq] at hval
  obtain ⟨⟨⟨⟨rfl, hexact⟩, hn⟩, hring⟩, hkey⟩ := hval
  have hlt : ∀ t ∈ [0], t < w.nSessions := by simp [hn]
  have hrings : ∀ t < w.nSessions, (w.sessions t).freed = false →
      ∃ l : List Nat, w.rings.IsRing (.head t) (l.map .client) ∧ 1 ∉ l := by
    intro t ht _
    obtain rfl : t = 0 := by omega
    exact ⟨[0], hring, by decide⟩
  have hkeys : ∀ t ∈ [0], w.keyOf t ≠ playKey (w.cmds w.nCmds) := by simpa using hkey
  have hfuel : [0].length + 1 < 3 := by decide
  obtain ⟨w₁', r, w₂, hmedia', -, hstart, hfails, -⟩ :=
    smtsStartPreview_traceless hexact hlt hrings hkeys hfuel
  obtain ⟨rfl, rfl⟩ := Prod.mk.inj (Option.some.inj (hmedia.symm.trans hmedia'))
  obtain ⟨-, huntraced, htold, -⟩ := hfails (by decide)
  exact ⟨w, w₁, w₂, hw, hmedia, hstart, huntraced, htold⟩

end Ends

end Server

end Smts
