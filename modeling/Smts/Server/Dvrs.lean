import Smts.Server.Lifecycle
import Smts.Server.Startup

/-!
# Server — the table of DVRs

`smts_dvrs_config.c`: a new session's DVR is looked up at the remainder of the
id its client asked for. A remainder has the sign of what is divided, and
nothing on the way from the wire looks at the sign of the id.
-/

namespace Smts

/-! ## smts_dvrs_config.c -/

/-- `dvr_info_t`. -/
structure DvrInfo where
  id : BitVec 64
  ip : String
  port : BitVec 32
  frameMode : BitVec 32
deriving DecidableEq, Repr

/-- `DEFAULT_DVR_PORT`. -/
def defaultDvrPort : BitVec 32 := 50001

/-- `dvr_ips`; `DEFAULT_DVR_SIZE` is its length. -/
def dvrIps : List String :=
  ["192.168.3.19", "192.168.3.14", "192.168.3.15", "192.168.3.11", "192.168.3.18"]

/-- `dvr_id % DEFAULT_DVR_SIZE`. -/
def dvrIndex (size : Nat) (dvrId : BitVec 64) : Int := dvrId.toInt.tmod size

/-- `dvr_ips[i]`; what lies around the table is not known. -/
def dvrIp (ips : List String) (i : Int) : Option String :=
  if 0 ≤ i then ips[i.toNat]? else none

/-- `init_dvr_connect_config`. It uses no `channel_no`. -/
def initDvrConnectConfig (ips : List String) (dvrId : BitVec 64) (frameMode : BitVec 32) :
    Option DvrInfo := do
  let ip ← dvrIp ips (dvrIndex ips.length dvrId)
  some { id := dvrId, ip := ip, port := defaultDvrPort, frameMode := frameMode }

/-- The index is one of a table of this size. -/
def DvrInRange (size : Nat) (dvrId : BitVec 64) : Prop :=
  0 ≤ dvrIndex size dvrId ∧ dvrIndex size dvrId < size

theorem dvrIndex_lt {size : Nat} (hsize : 0 < size) (dvrId : BitVec 64) :
    dvrIndex size dvrId < size :=
  Int.tmod_lt_of_pos _ (by exact_mod_cast hsize)

/-- A negative id has no DVR, unless it leaves no remainder. -/
theorem dvrInRange_iff {size : Nat} (hsize : 0 < size) (dvrId : BitVec 64) :
    DvrInRange size dvrId ↔ 0 ≤ dvrId.toInt ∨ (size : Int) ∣ dvrId.toInt := by
  have hlt := dvrIndex_lt hsize dvrId
  rw [DvrInRange, and_iff_left hlt, dvrIndex]
  constructor
  · intro hge
    rcases Int.le_total 0 dvrId.toInt with hid | hid
    · exact .inl hid
    · -- both the remainder and its negative are not negative
      have hneg := Int.tmod_nonneg (size : Int) (Int.neg_nonneg_of_nonpos hid)
      rw [Int.neg_tmod] at hneg
      exact .inr (Int.dvd_of_tmod_eq_zero (by omega))
  · rintro (hid | hdvd)
    · exact Int.tmod_nonneg _ hid
    · rw [Int.tmod_eq_zero_of_dvd hdvd]

theorem dvrIp_isSome_iff (ips : List String) (i : Int) :
    (dvrIp ips i).isSome ↔ 0 ≤ i ∧ i < ips.length := by
  rw [dvrIp]
  split
  next hi =>
    rw [isSome_getElem?, and_iff_right hi]
    omega
  next hi => simp [hi]

theorem mem_of_dvrIp {ips : List String} {i : Int} {ip : String} (h : dvrIp ips i = some ip) :
    ip ∈ ips := by
  rw [dvrIp] at h
  split at h
  · exact List.mem_of_getElem? h
  · cases h

theorem initDvrConnectConfig_isSome_iff (ips : List String) (dvrId : BitVec 64)
    (frameMode : BitVec 32) :
    (initDvrConnectConfig ips dvrId frameMode).isSome ↔ DvrInRange ips.length dvrId := by
  rw [initDvrConnectConfig, DvrInRange, ← dvrIp_isSome_iff]
  cases dvrIp ips (dvrIndex ips.length dvrId) <;> simp

namespace Server

/-! ## The keys of the sessions -/

section Keys

variable {S : Scope} {w₀ w w' : Server} {s : Nat}

theorem keyOf_of_sessions (h : w'.sessions = w.sessions) : w'.keyOf s = w.keyOf s := by
  rw [Server.keyOf, Server.keyOf, h]

theorem keyOf_setSession (w : Server) (t : Nat) {x : SmtsSession}
    (hx : x.key = (w.sessions t).key) : (w.setSession t x).keyOf s = w.keyOf s := by
  by_cases hs : s = t
  · subst hs
    simp [Server.keyOf, hx]
  · simp [Server.keyOf, Function.update_of_ne hs]

theorem keyOf_stopSmtsClient (w : Server) (c : Nat) : (w.stopSmtsClient c).keyOf s = w.keyOf s := by
  obtain ⟨-, h⟩ | ⟨-, -, h⟩ | ⟨-, t, -, h⟩ := stopSmtsClient_cases w c <;> rw [h]
  · rfl
  · exact keyOf_setSession w t (x := (w.sessions t).leave) rfl

/-- A session that has been made keeps its key, whatever is done. -/
theorem Action.keyOf (ha : Action S w₀ w w') (hs : s < w.nSessions) : w'.keyOf s = w.keyOf s := by
  cases ha with
  | uvCall hr => exact keyOf_of_sessions (MemOnly.uvCall hr).sessions
  | emit _ _ _ _ => rfl
  | encodeNew _ _ _ hr => exact keyOf_of_sessions (MemOnly.encodeNew hr).sessions
  | receive _ => rfl
  | drop _ => rfl
  | addFrame _ _ => rfl
  | increaseRef _ => rfl
  | addRef _ _ => rfl
  | destroy _ => rfl
  | dropRef _ hr => exact keyOf_of_sessions (MemOnly.onSmtsClientSendFrame hr).sessions
  | destroyFrame _ _ => rfl
  | send _ _ _ _ hr => exact keyOf_of_sessions (MemOnly.tcpClientSendMsg hr).sessions
  | sendPreviewRes _ _ _ hr => exact keyOf_of_sessions (MemOnly.tcpClientSendMsg hr).sessions
  | complete _ _ _ => rfl
  | previewResDone _ _ _ _ => rfl
  | relay _ _ => rfl
  | stop _ => exact keyOf_stopSmtsClient w _
  | touch ht => exact keyOf_setSession w _ ht.key
  | delete hr =>
      obtain ⟨m, rfl⟩ := deleteSession_eq hr
      rfl
  | initClient _ => rfl
  | startRead _ _ => rfl
  | close _ _ => rfl
  | closed _ => rfl
  | initSession _ _ => simp [Server.keyOf, Function.update_of_ne hs.ne]
  | attach _ t => exact keyOf_setSession w t (x := { w.sessions t with clientSize := _ }) rfl
  | manage _ _ => rfl
  | abort _ t => exact keyOf_setSession w t (x := { w.sessions t with freed := true }) rfl

theorem Does.keyOf (hd : Does S w₀ w) (hs : s < w₀.nSessions) : w.keyOf s = w₀.keyOf s := by
  induction hd with
  | start => rfl
  | step hd ha ih => rw [ha.keyOf (hs.trans_le hd.grows.nSessions), ih]

theorem freed_setSession (w : Server) (t : Nat) {x : SmtsSession}
    (hx : (w.sessions t).freed = true → x.freed = true) (hf : (w.sessions s).freed = true) :
    ((w.setSession t x).sessions s).freed = true := by
  by_cases hs : s = t
  · subst hs
    simpa using hx hf
  · simpa [Function.update_of_ne hs] using hf

/-- A session that was freed stays freed, whatever is done. -/
theorem Action.freed (ha : Action S w₀ w w') (hs : s < w.nSessions)
    (hf : (w.sessions s).freed = true) : (w'.sessions s).freed = true := by
  have hsame : w'.sessions = w.sessions → (w'.sessions s).freed = true := fun h => h ▸ hf
  cases ha with
  | uvCall hr => exact hsame (MemOnly.uvCall hr).sessions
  | encodeNew _ _ _ hr => exact hsame (MemOnly.encodeNew hr).sessions
  | dropRef _ hr => exact hsame (MemOnly.onSmtsClientSendFrame hr).sessions
  | send _ _ _ _ hr => exact hsame (MemOnly.tcpClientSendMsg hr).sessions
  | sendPreviewRes _ _ _ hr => exact hsame (MemOnly.tcpClientSendMsg hr).sessions
  | @stop c _ =>
      obtain ⟨-, h⟩ | ⟨-, -, h⟩ | ⟨-, t, -, h⟩ := stopSmtsClient_cases w c
      · exact hsame (by rw [h])
      · exact hsame (by rw [h])
      · rw [h]
        exact freed_setSession w t (x := (w.sessions t).leave) id hf
  | touch ht => exact freed_setSession w _ ht.freed hf
  | delete hr =>
      obtain ⟨m, rfl⟩ := deleteSession_eq hr
      exact hf
  | initSession _ _ => simpa [Function.update_of_ne hs.ne] using hf
  | attach _ t => exact freed_setSession w t (x := { w.sessions t with clientSize := _ }) id hf
  | abort _ t => exact freed_setSession w t (x := { w.sessions t with freed := true }) (fun _ => rfl) hf
  | _ => exact hf

theorem Does.freed (hd : Does S w₀ w) (hs : s < w₀.nSessions) (hf : (w₀.sessions s).freed = true) :
    (w.sessions s).freed = true := by
  induction hd with
  | start => exact hf
  | step hd ha ih => exact ha.freed (hs.trans_le hd.grows.nSessions) ih

/-- What libuv returns is given with the run. -/
theorem Action.uv (ha : Action S w₀ w w') : w'.uv = w.uv := by
  cases ha with
  | uvCall hr =>
      obtain ⟨rfl, -⟩ := Prod.mk.inj hr
      rfl
  | encodeNew _ _ _ hr =>
      obtain ⟨⟨h', t'⟩, -, hr⟩ := Option.bind_eq_some_iff.mp hr
      obtain rfl := Option.some.inj hr
      rfl
  | dropRef _ hr => obtain ⟨-, rfl⟩ | ⟨-, f, -, rfl⟩ := onSmtsClientSendFrame_cases hr <;> rfl
  | send _ _ _ _ hr => obtain ⟨-, rfl⟩ | ⟨-, rfl⟩ := tcpClientSendMsg_cases hr <;> rfl
  | sendPreviewRes _ _ _ hr => obtain ⟨-, rfl⟩ | ⟨-, rfl⟩ := tcpClientSendMsg_cases hr <;> rfl
  | @stop c _ => obtain ⟨-, h⟩ | ⟨-, -, h⟩ | ⟨-, s, -, h⟩ := stopSmtsClient_cases w c <;> rw [h]
  | delete hr =>
      obtain ⟨m, rfl⟩ := deleteSession_eq hr
      rfl
  | _ => rfl

theorem Does.uv (hd : Does S w₀ w) : w.uv = w₀.uv := by
  induction hd with
  | start => rfl
  | step _ ha ih => exact ha.uv.trans ih

end Keys

/-! ## Whole runs -/

/-- The event's handler comes to `init_dvr_connect_config` with this key: a
preview request for which there is no session. -/
def LooksUp (w : Server) (e : Event) (key : SessionKey) : Prop :=
  ∃ c bytes junk t fuel, e = .packet c bytes junk ∧
    dispatchDecode (Reader.beyond bytes junk) (w.heap.receive bytes).2
      (BitVec.ofNat 64 bytes.length) (w.garbage w.nCmds) = some (some (t, some .smtsStartPreview)) ∧
    playKey t = key ∧ w.manager.getSession w.keyOf fuel key = some none

/-- What is asked for is not negative, or leaves no remainder. -/
def AsksInRange (size : Nat) (w : Server) (e : Event) : Prop :=
  ∀ key, w.LooksUp e key → 0 ≤ key.dvrId.toInt ∨ (size : Int) ∣ key.dvrId.toInt

/-- Every session that has got as far as its DVR's socket has looked up its DVR
inside the table. -/
def DvrsInRange (size : Nat) (w : Server) : Prop :=
  ∀ s, .uvInit (.dvr s) ∈ w.log → DvrInRange size (w.keyOf s).dvrId

/-- Every session there has been has got as far as its DVR's socket. -/
def LookedUp (w : Server) : Prop :=
  ∀ s, .uvInit (.dvr s) ∈ w.log ↔ s < w.nSessions

section Runs

variable {w w' : Server} {t : Option Nat} {fuel : Nat}

theorem LooksUp.unique {e : Event} {key key' : SessionKey} (h : w.LooksUp e key)
    (h' : w.LooksUp e key') : key' = key := by
  obtain ⟨c, bytes, junk, t, _, rfl, hdec, rfl, -⟩ := h
  obtain ⟨_, _, _, t', _, he, hdec', rfl, -⟩ := h'
  obtain ⟨rfl, rfl, rfl⟩ := Event.packet.inj he
  rw [hdec, Option.some.injEq, Option.some.injEq] at hdec'
  rw [(Prod.mk.inj hdec').1]

theorem dvrsInRange_iff_forall (h : LookedUp w) (size : Nat) :
    DvrsInRange size w ↔ ∀ s < w.nSessions, DvrInRange size (w.keyOf s).dvrId :=
  forall_congr' fun s => by rw [h s]

theorem LookedUp.handles (h : LookedUp w) (hh : Handles t w w')
    (ht : ∀ s, t = some s → s < w.nSessions) : LookedUp w' := by
  obtain ⟨m, hm, hmo⟩ := hh.log
  intro s
  rw [hm, List.mem_append, hh.nSessions, h s]
  refine or_iff_left_of_imp fun hmem => ht s ?_
  by_contra hne
  exact (hmo s hne).notMem rfl hmem

/-- On any way through a start the DVR of the new session is looked up. -/
theorem Starts.log {s c : Nat} {r : Int} (h : Starts fuel w s c w' r) :
    w'.nSessions = w.nSessions ∧ ∃ m, w'.log = w.log ++ .uvInit (.dvr s) :: m ∧
      ∀ o ∈ m, o.session? = some s := by
  cases h with
  | initFails hinit _ =>
      refine ⟨(initSmtsDvrClient_quiet hinit).nSessions, [.free (.session s)], ?_, by simp [Obs.session?]⟩
      simp [initSmtsDvrClient_log hinit]
  | addFails hinit _ _ =>
      refine ⟨(initSmtsDvrClient_quiet hinit).nSessions, [.free (.session s)], ?_, by simp [Obs.session?]⟩
      simp [initSmtsDvrClient_log hinit]
  | connectFails hinit _ hconn hr hdel =>
      have hlog := tcpClientConnect_log hconn
      obtain ⟨m, rfl⟩ := deleteSession_eq hdel
      obtain ⟨w₂, hq, ⟨-, rfl⟩ | ⟨hz, -⟩⟩ := tcpClientConnect_cases hconn
      · refine ⟨hq.nSessions.trans (initSmtsDvrClient_quiet hinit).nSessions,
          [.uvInit (.dvr s), .free (.session s)], ?_, by simp [Obs.session?]⟩
        simp [hlog, initSmtsDvrClient_log hinit]
      · exact absurd hz hr
  | connects hinit _ hconn =>
      have hlog := tcpClientConnect_log hconn
      obtain ⟨w₂, hq, ⟨hne, -⟩ | ⟨-, rfl⟩⟩ := tcpClientConnect_cases hconn
      · exact absurd rfl hne
      · refine ⟨hq.nSessions.trans (initSmtsDvrClient_quiet hinit).nSessions,
          [.uvInit (.dvr s)], ?_, by simp [Obs.session?]⟩
        rw [hlog]
        simp [initSmtsDvrClient_log hinit]

theorem LookedUp.push (h : LookedUp w) {m : List Obs} (hn : w'.nSessions = w.nSessions + 1)
    (hlog : w'.log = w.log ++ m) (hinit : .uvInit (.dvr w.nSessions) ∈ m)
    (hm : ∀ o ∈ m, ∀ s, o.session? = some s → s = w.nSessions) : LookedUp w' := by
  intro s
  rw [hlog, List.mem_append, h s, hn, Nat.lt_succ_iff_lt_or_eq]
  refine or_congr_right ⟨fun hmem => hm _ hmem s rfl, ?_⟩
  rintro rfl
  exact hinit

/-- A session is started with the key, or one with the key is joined. -/
theorem LookedUp.mediaClientStartPreview (h : LookedUp w) {c : Nat} {key : SessionKey} {r : Int}
    (hr : w.mediaClientStartPreview fuel c key = some (w', r)) :
    LookedUp w' ∧
      ((w.manager.getSession w.keyOf fuel key = some none ∧ w'.nSessions = w.nSessions + 1 ∧
          w'.keyOf w.nSessions = key) ∨
        ((∃ s, w.manager.getSession w.keyOf fuel key = some (some s)) ∧
          w'.nSessions = w.nSessions)) := by
  obtain ⟨found, hget, -⟩ := Option.bind_eq_some_iff.mp hr
  cases found with
  | none =>
      have hstart := mediaClientStartPreview_new hget hr
      obtain ⟨hn, m, hlog, hm⟩ := Starts.log hstart
      have hkey := ((Does.start (S := { join := some c })).starts rfl hstart).keyOf
        (show w.nSessions < _ from Nat.lt_succ_self _)
      refine ⟨h.push hn (m := .uvInit (.timer w.nSessions) :: .attach c w.nSessions ::
        .uvInit (.dvr w.nSessions) :: m) (by rw [hlog]; simp) (by simp) ?_,
        .inl ⟨hget, hn, hkey.trans addSmtsClient_keyOf_new⟩⟩
      intro o ho s hs
      simp only [List.mem_cons] at ho
      rcases ho with rfl | rfl | rfl | ho
      · exact (Option.some.inj hs).symm
      · cases hs
      · exact (Option.some.inj hs).symm
      · exact Option.some.inj (hs.symm.trans (hm o ho))
  | some s =>
      obtain ⟨-, hres⟩ := mediaClientStartPreview_found hget hr
      have hd := (Does.start (S := {})).smtsClientSendPreviewRes (.inl trivial) hres
      have hjoin := (Handles.addSmtsClient w s c).trans (hd.handles rfl)
      exact ⟨h.handles hjoin (by rintro s ⟨⟩), .inr ⟨⟨s, hget⟩, hjoin.nSessions⟩⟩

theorem LookedUp.dispatchPreview (h : LookedUp w) {c : Nat} {bytes : List Byte}
    {junk : Int → Byte} (hprev : (Event.packet c bytes junk).preview = some c)
    (hr : w.dispatchPacket fuel c bytes junk = some w') :
    LookedUp w' ∧
      ((∃ key, w.LooksUp (.packet c bytes junk) key ∧ w'.nSessions = w.nSessions + 1 ∧
          w'.keyOf w.nSessions = key) ∨
        ((∀ key, ¬ w.LooksUp (.packet c bytes junk) key) ∧ w'.nSessions = w.nSessions)) := by
  have hno := Event.preview_packet hprev
  obtain ⟨hdec, -⟩ | ⟨t, imp, w₁, hdec, himp, rfl⟩ := dispatchPacket_cases hr
  · exact absurd hdec (dispatchDecode_known hno (by decide))
  obtain ⟨T, hT, hcmd, -⟩ := dispatchDecode_spec hdec
  obtain rfl : imp = some .smtsStartPreview :=
    previewCmd_imp _ hT (Option.some.inj (hcmd.symm.trans hno))
  let w₀ := (w.setHeap (w.heap.receive bytes).1).addCmd t
  obtain ⟨w₂, r, hmedia, hcase⟩ := smtsStartPreview_cases (w := w₀) himp
  have hkey : playKey (w₀.cmds w.nCmds) = playKey t := by simp [w₀]
  have h₀ : LookedUp w₀ := h
  rw [hkey] at hmedia
  obtain ⟨h₂, hlook⟩ := h₀.mediaClientStartPreview hmedia
  -- the response to a failed start starts nothing
  have hrest : Handles none w₂ w₁ ∧ (∀ s < w₂.nSessions, w₁.keyOf s = w₂.keyOf s) := by
    obtain ⟨-, rfl⟩ | ⟨-, w₃, w₄, r', henc, hsend, hw⟩ := hcase
    · exact ⟨.of_log_eq rfl rfl rfl, fun _ _ => rfl⟩
    · have hd := (Does.start (S := {})).errorPreviewRes (c := c) (.inl trivial) henc
      rw [hsend] at hd
      rcases hw with rfl | rfl
      · exact ⟨hd.1.handles rfl, fun _ => hd.1.keyOf⟩
      · exact ⟨hd.2.handles rfl, fun _ => hd.2.keyOf⟩
  have hall : Handles none w₂ (w₁.protoCmdDestroy w.nCmds) := hrest.1.trans (.protoCmdDestroy ..)
  refine ⟨h₂.handles hall (by rintro s ⟨⟩), ?_⟩
  obtain ⟨hget, hn, hnew⟩ | ⟨⟨s, hget⟩, hn⟩ := hlook
  · refine .inl ⟨playKey t, ⟨c, bytes, junk, t, fuel, rfl, hdec, rfl, hget⟩, hall.nSessions.trans hn, ?_⟩
    exact (hrest.2 w.nSessions (hn ▸ Nat.lt_succ_self _)).trans hnew
  · refine .inr ⟨fun key hlook => ?_, hall.nSessions.trans hn⟩
    obtain ⟨_, _, _, t', fuel', he, hdec', rfl, hget'⟩ := hlook
    obtain ⟨rfl, rfl, rfl⟩ := Event.packet.inj he
    rw [hdec, Option.some.injEq, Option.some.injEq] at hdec'
    rw [← (Prod.mk.inj hdec').1] at hget'
    cases SessionManager.getSession_unique hget hget'

/-- A step starts the session that is looked up, or none. -/
theorem LookedUp.step (h : LookedUp w) (hw : Mishandled w) {e : Event} (hstep : Step w e w') :
    LookedUp w' ∧
      ((∃ key, w.LooksUp e key ∧ w'.nSessions = w.nSessions + 1 ∧ w'.keyOf w.nSessions = key) ∨
        ((∀ key, ¬ w.LooksUp e key) ∧ w'.nSessions = w.nSessions)) := by
  cases hprev : e.preview with
  | some c =>
      obtain ⟨bytes, junk, rfl⟩ := Event.preview_eq_some hprev
      obtain ⟨-, fuel, hr⟩ := hstep
      exact h.dispatchPreview hprev hr
  | none =>
      obtain ⟨t, hh, ht⟩ := hw.stepHandles hprev hstep
      refine ⟨h.handles hh ht, .inr ⟨?_, hh.nSessions⟩⟩
      rintro key ⟨c, bytes, junk, t, -, rfl, hdec, -, -⟩
      obtain ⟨T, hT, hcmd, -⟩ := dispatchDecode_spec hdec
      rw [Event.preview, hcmd, smtsStartPreview_cmd _ hT rfl, if_pos rfl] at hprev
      cases hprev

/-- A step changes no session's key. -/
theorem keyOf_step {e : Event} (hstep : Step w e w') {s : Nat} (hs : s < w.nSessions) :
    w'.keyOf s = w.keyOf s := by
  obtain ⟨hen, fuel, hr⟩ := hstep
  exact (handle_does_any hen hr).keyOf hs

/-- All lookups stay in the table over a step just when the step's own does. -/
theorem dvrsInRange_step_iff {size : Nat} (hsize : 0 < size) (h : LookedUp w) (hw : Mishandled w)
    {e : Event} (hstep : Step w e w') :
    DvrsInRange size w' ↔ DvrsInRange size w ∧ w.AsksInRange size e := by
  obtain ⟨h', hlook⟩ := h.step hw hstep
  have hkeep := fun s (hs : s < w.nSessions) => keyOf_step hstep hs
  rw [dvrsInRange_iff_forall h, dvrsInRange_iff_forall h']
  obtain ⟨key, hkey, hn, hnew⟩ | ⟨hnone, hn⟩ := hlook
  · have hasks : w.AsksInRange size e ↔ DvrInRange size key.dvrId := by
      rw [dvrInRange_iff hsize]
      exact ⟨fun hall => hall key hkey, fun hid key' hkey' => hkey.unique hkey' ▸ hid⟩
    rw [hasks, hn]
    constructor
    · intro hall
      refine ⟨fun s hs => hkeep s hs ▸ hall s (hs.trans (Nat.lt_succ_self _)), ?_⟩
      exact hnew ▸ hall w.nSessions (Nat.lt_succ_self _)
    · rintro ⟨hall, hnewRange⟩ s hs
      rcases Nat.lt_succ_iff_lt_or_eq.mp hs with hs | rfl
      · rw [hkeep s hs]
        exact hall s hs
      · rwa [hnew]
  · have hasks : w.AsksInRange size e := fun key hkey => absurd hkey (hnone key)
    rw [and_iff_left hasks, hn]
    exact forall₂_congr fun s hs => by rw [hkeep s hs]

theorem lookedUp_of_run {uv : Nat → Int} {garbage : Nat → Values NvmpName} {es : List Event}
    (h : Transition.Run Step (init uv garbage) es w) : LookedUp w ∧ Mishandled w := by
  refine h.invariant (I := fun w => LookedUp w ∧ Mishandled w)
    (fun _ _ _ ⟨hl, hw⟩ hstep => ⟨(hl.step hw hstep).1, hw.step hstep⟩) ⟨fun s => ?_, init_mishandled uv garbage⟩
  simp [init]

/-- A run in which nothing outside the table is asked for. -/
theorem dvrsInRange_of_run {size : Nat} (hsize : 0 < size) {uv : Nat → Int}
    {garbage : Nat → Values NvmpName} {es : List Event}
    (h : Transition.Run (fun w e w' => w.AsksInRange size e ∧ Step w e w') (init uv garbage) es w) :
    DvrsInRange size w := by
  refine (h.invariant (I := fun w => (LookedUp w ∧ Mishandled w) ∧ DvrsInRange size w) ?_ ?_).2
  · rintro w e w' ⟨⟨hl, hm⟩, hin⟩ ⟨hasks, hstep⟩
    exact ⟨⟨(hl.step hm hstep).1, hm.step hstep⟩,
      (dvrsInRange_step_iff hsize hl hm hstep).mpr ⟨hin, hasks⟩⟩
  · exact ⟨lookedUp_of_run .refl, fun _ hs => absurd hs List.not_mem_nil⟩

/-- **When the table of DVRs is read inside**: over a run, just when each request
for a new session asks for an id that is not negative, or leaves no remainder. -/
theorem dvrsInRange_iff {size : Nat} (hsize : 0 < size) {uv : Nat → Int}
    {garbage : Nat → Values NvmpName} {es : List Event}
    (h : Transition.Run Step (init uv garbage) es w) :
    DvrsInRange size w ↔
      Transition.Run (fun w e w' => w.AsksInRange size e ∧ Step w e w') (init uv garbage) es w := by
  constructor
  · intro hw
    induction h with
    | refl => exact .refl
    | snoc h hstep ih =>
        obtain ⟨hl, hm⟩ := lookedUp_of_run h
        obtain ⟨hbefore, hasks⟩ := (dvrsInRange_step_iff hsize hl hm hstep).mp hw
        exact .snoc (ih hbefore) ⟨hasks, hstep⟩
  · exact dvrsInRange_of_run hsize

/-- In such a run every session has the DVR it was started for: with the id that was
asked for, at an address of the table and the default port. -/
theorem initDvrConnectConfig_of_run {ips : List String} (hips : ips ≠ []) {uv : Nat → Int}
    {garbage : Nat → Values NvmpName} {es : List Event} {s : Nat}
    (h : Transition.Run (fun w e w' => w.AsksInRange ips.length e ∧ Step w e w')
      (init uv garbage) es w)
    (hs : .uvInit (.dvr s) ∈ w.log) :
    ∃ ip ∈ ips, initDvrConnectConfig ips (w.keyOf s).dvrId (w.keyOf s).frameMode
      = some ⟨(w.keyOf s).dvrId, ip, defaultDvrPort, (w.keyOf s).frameMode⟩ := by
  have hrange := dvrsInRange_of_run (List.length_pos_iff.mpr hips) h s hs
  obtain ⟨dvr, hdvr⟩ := Option.isSome_iff_exists.mp ((initDvrConnectConfig_isSome_iff _ _ _).mpr hrange)
  obtain ⟨ip, hip, hinfo⟩ := Option.bind_eq_some_iff.mp hdvr
  obtain rfl := Option.some.inj hinfo
  exact ⟨ip, mem_of_dvrIp hip, hdvr⟩

end Runs

theorem connected0_asksInRange (size : Nat) : connected0.AsksInRange size preview0 := by
  rintro key ⟨c, bytes, junk, t, -, he, hdec, rfl, -⟩
  obtain ⟨rfl, rfl, rfl⟩ := Event.packet.inj he
  have hkey : (dispatchDecode (Reader.beyond zeroPreviewCmd fun _ => 0)
      (connected0.heap.receive zeroPreviewCmd).2 (BitVec.ofNat 64 zeroPreviewCmd.length)
      (connected0.garbage connected0.nCmds)).map (fun found => found.map fun p => (playKey p.1).dvrId)
      = some (some 0) := by
    decide +kernel
  rw [hdec, Option.map_some, Option.map_some, Option.some.injEq, Option.some.injEq] at hkey
  exact .inl (by rw [hkey]; decide)

/-- A request for the DVR of number 0. -/
theorem dvrsInRange_iff_preview0 :
    ∃ w, Transition.Run Step (init (fun _ => 0) fun _ => Values.zero) [.connection, preview0] w ∧
      w.nSessions = 1 ∧ DvrsInRange dvrIps.length w := by
  obtain ⟨w, hw⟩ : ∃ w, connected0.handle 2 preview0 = some w :=
    Option.isSome_iff_exists.mp (by decide +kernel)
  have hval : (connected0.handle 2 preview0).map (·.nSessions) = some 1 := by decide +kernel
  rw [hw, Option.map_some, Option.some.injEq] at hval
  have hstep : Step connected0 preview0 w := ⟨connected0_enabled, 2, hw⟩
  have hconnect : (init (fun _ => 0) fun _ => Values.zero).AsksInRange dvrIps.length .connection := by
    rintro key ⟨_, _, _, _, _, he, -⟩
    cases he
  refine ⟨w, .snoc (.snoc .refl connected0_step) hstep, hval, ?_⟩
  exact (dvrsInRange_iff (by decide) (.snoc (.snoc .refl connected0_step) hstep)).mpr
    (.snoc (.snoc .refl ⟨hconnect, connected0_step⟩) ⟨connected0_asksInRange _, hstep⟩)

/-- A `preview_cmd` whose `dvr_id` is -1. -/
def previewMinusOne : Event :=
  .packet 0 ([0, 0, 0, 162, 0, 5, 1, 4] ++ List.replicate 140 0 ++ List.replicate 8 255 ++
    List.replicate 6 0) fun _ => 0

/-- The address in front of the table is taken for the DVR's. -/
theorem not_dvrsInRange_minusOne :
    ∃ w, Transition.Run Step (init (fun _ => 0) fun _ => Values.zero)
        [.connection, previewMinusOne] w ∧
      w.nSessions = 1 ∧ dvrIndex dvrIps.length (w.keyOf 0).dvrId = -1 ∧
      ¬ DvrsInRange dvrIps.length w := by
  obtain ⟨w, hw⟩ : ∃ w, connected0.handle 2 previewMinusOne = some w :=
    Option.isSome_iff_exists.mp (by decide +kernel)
  have hval : (connected0.handle 2 previewMinusOne).map (fun w =>
      (w.nSessions, dvrIndex dvrIps.length (w.keyOf 0).dvrId, w.log.contains (.uvInit (.dvr 0))))
      = some (1, -1, true) := by
    decide +kernel
  rw [hw] at hval
  obtain ⟨hn, hindex, hlog⟩ := by simpa using hval
  have hen : connected0.Enabled previewMinusOne :=
    ⟨by decide, by decide, by decide, by decide +kernel, by decide +kernel, by decide +kernel⟩
  refine ⟨w, .snoc (.snoc .refl connected0_step) ⟨hen, 2, hw⟩, hn, hindex, fun hall => ?_⟩
  have hge := (hall 0 hlog).1
  rw [hindex] at hge
  exact absurd hge (by decide)

end Server

end Smts
