import Smts.Server.Channel
import Smts.Server.Delivery
import Smts.Server.Relay
import Smts.Server.Truth

/-!
# Server — what is put on the wire

Every `uv_write` of the server, and its bytes: responses and acknowledgements
that depend on a status only, the DVR's preview command, and packets that are
passed on. Which of them a callback may send depends on the event, and what all
of them together come to is the conversation that one client hears.
-/

namespace Smts

open Circular

/-! ## The server's own packets -/

/-- The packet that consists of these 32-bit words. -/
def wordsPacket (words : List (BitVec 32)) : List Byte := words.flatMap (BigEndian.bytes 4)

/-- The words are found where they were put. -/
theorem wordOf_wordsPacket (words : List (BitVec 32)) (rest : List Byte) {i : Nat}
    (hi : i < words.length) : wordOf (wordsPacket words ++ rest) (4 * i) = words[i] := by
  induction words generalizing i with
  | nil => exact absurd hi (Nat.not_lt_zero i)
  | cons x words ih =>
      have hcons : wordsPacket (x :: words) ++ rest
          = BigEndian.bytes 4 x ++ (wordsPacket words ++ rest) := by
        simp [wordsPacket]
      rw [hcons]
      cases i with
      | zero =>
          show BigEndian.value 32 ((BigEndian.bytes 4 x ++ (wordsPacket words ++ rest)).take 4) = x
          rw [List.take_left' (BigEndian.length_bytes 4 _)]
          exact BigEndian.value_bytes (n := 4) x
      | succ i =>
          have hdrop : (BigEndian.bytes 4 x ++ (wordsPacket words ++ rest)).drop (4 * (i + 1))
              = (wordsPacket words ++ rest).drop (4 * i) := by
            rw [Nat.mul_succ, Nat.add_comm, ← List.drop_drop, List.drop_left' (BigEndian.length_bytes 4 _)]
          rw [wordOf, hdrop]
          exact ih (Nat.lt_of_succ_lt_succ hi)

/-- A `common_res` as `msg_channel` sends it. -/
def ackPacket : List Byte := wordsPacket [24, commonResCmdNo, 0, 0, 0, 0]

/-- A `preview_cmd_res` with the status `r`. -/
def responsePacket (r : Int) : List Byte :=
  wordsPacket [40, previewResCmdNo, 0, 0, 0, BitVec.ofInt 32 r, 0, 0, 0, 0]

/-- The `mock_dvr_preview` of `smts_dvr_client_preview`. -/
def dvrPreviewPacket : List Byte :=
  wordsPacket [16, mockDvrPreview.cmd, Server.defaultDvrBitrate, Server.defaultDvrFramerate]

theorem serFixed_user (t : NvmpCmd) (names : List NvmpName) :
    serFixed t.stamped.vals (names.map fun n => ⟨.int32, .user n⟩)
      = wordsPacket (names.map fun n => t.vals ⟨.int32, .user n⟩) := by
  induction names with
  | nil => rfl
  | cons n names ih =>
      have hkeep : t.stamped.vals ⟨.int32, .user n⟩ = t.vals ⟨.int32, .user n⟩ :=
        t.stamped_vals (by simp) (by simp)
      show BigEndian.bytes 4 (t.stamped.vals ⟨.int32, .user n⟩) ++ _ = BigEndian.bytes 4 _ ++ _
      rw [hkeep]
      exact congrArg _ ih

/-- A packet that declares nothing but 32-bit words is these, behind the two
that are stamped on it. -/
theorem serFixed_words {t : NvmpCmd} (names : List NvmpName)
    (hT : t.type.fields = protocolTopFiled ++ names.map fun n => ⟨.int32, .user n⟩) :
    serFixed t.stamped.vals t.type.fields
      = wordsPacket (t.len :: t.type.cmd :: names.map fun n => t.vals ⟨.int32, .user n⟩) := by
  rw [hT]
  show BigEndian.bytes 4 (t.stamped.vals packetLen) ++ (BigEndian.bytes 4 (t.stamped.vals cmd)
      ++ serFixed t.stamped.vals (names.map fun n => ⟨.int32, .user n⟩)) = _
  rw [serFixed_user, Cmd.stamped_packetLen, Cmd.stamped_cmd]
  rfl

/-! ## What libuv takes -/

/-- A write to `t` that was queued, with the callback it was queued for. -/
def Obs.taken (t : Target) : Obs → Option (SendCb × List Byte)
  | .uvWrite u _ cb bytes r => if u = t ∧ r = 0 then bytes.map fun b => (cb, b) else none
  | _ => none

theorem Obs.taken_eq_some {o : Obs} {t : Target} {x : SendCb × List Byte} (hx : o.taken t = some x) :
    ∃ p, o = .uvWrite t p x.1 (some x.2) 0 := by
  cases o with
  | uvWrite u p cb b r =>
      rw [Obs.taken] at hx
      split at hx
      next h =>
        obtain ⟨b, rfl, rfl⟩ := Option.map_eq_some_iff.mp hx
        obtain ⟨rfl, rfl⟩ := h
        exact ⟨p, rfl⟩
      next h => cases hx
  | _ => cases hx

/-- All that was queued for `t`, in turn. -/
def hears (t : Target) (log : List Obs) : List (SendCb × List Byte) := log.filterMap (Obs.taken t)

@[simp]
theorem hears_append (t : Target) (l m : List Obs) : hears t (l ++ m) = hears t l ++ hears t m :=
  List.filterMap_append

theorem Obs.taken_of_isWrite {o : Obs} (h : o.isWrite = false) (t : Target) : o.taken t = none := by
  cases o <;> first | rfl | cases h

theorem hears_eq_nil {m : List Obs} (hm : ∀ o ∈ m, o.isWrite = false) (t : Target) :
    hears t m = [] :=
  List.filterMap_eq_nil_iff.mpr fun o ho => Obs.taken_of_isWrite (hm o ho) t

theorem sent_eq_nil {m : List Obs} (hm : ∀ o ∈ m, ∀ c f, o ≠ .frameSent c f) (c : Nat) :
    sent c m = [] := by
  refine List.filterMap_eq_nil_iff.mpr fun o ho => ?_
  cases o with
  | frameSent d f => exact absurd rfl (hm _ ho d f)
  | _ => rfl

namespace Server

/-- Nothing that was in the struct before is sent. -/
theorem ackBytes_eq (w : Server) (r : Int) : w.ackBytes r = ackPacket :=
  serFixed_words [.seqno, .srcAddr, .destAddr, .status] rfl

theorem previewResBytes_eq (w : Server) (r : Int) : w.previewResBytes r = responsePacket r :=
  serFixed_words (t := w.previewRes r)
    [.seqno, .srcAddr, .destAddr, .status, .brightness, .contrast, .saturation, .hue] rfl

/-- `smts_dvr_client_preview` encodes the preview command with the default
bitrate and frame rate. -/
theorem encodeNew_dvrPreview {w w' : Server}
    (henc : w.encodeNew (((w.initCmd mockDvrPreview).set bitrate defaultDvrBitrate).set frameRate
      defaultDvrFramerate) = some w') :
    (w'.cmds w.nCmds).wire w'.heap = some dvrPreviewPacket := by
  let t := ((w.initCmd mockDvrPreview).set bitrate defaultDvrBitrate).set frameRate defaultDvrFramerate
  obtain ⟨v, hv, hwire⟩ := w.encodeNew_flat (t := t) (show mockDvrPreview ∈ payloadFreeTypes by decide)
  obtain rfl := Option.some.inj (henc.symm.trans hv)
  rw [hwire]
  exact congrArg some (serFixed_words (t := t) [.bitrate, .frameRate] rfl)

/-! ## Writes of a callback -/

/-- Whatever is written is one of `K`'s packets, and all of it is there. No
frame is. -/
def Writes (K : Target → SendCb → List Byte → Prop) (w w' : Server) : Prop :=
  ∃ m, w'.log = w.log ++ m ∧ ∀ o ∈ m, (∀ t p cb b r, o = .uvWrite t p cb b r →
    ∃ bytes, b = some bytes ∧ K t cb bytes) ∧ ∀ c f, o ≠ .frameSent c f

namespace Writes

variable {K : Target → SendCb → List Byte → Prop} {w w' : Server} {m : List Obs}

/-- A callback that writes nothing writes nothing that is not `K`'s. -/
theorem of_log (hlog : w'.log = w.log ++ m) (hm : ∀ o ∈ m, o.isWrite = false)
    (hf : ∀ o ∈ m, ∀ c f, o ≠ .frameSent c f) : Writes K w w' := by
  refine ⟨m, hlog, fun o ho => ⟨?_, hf o ho⟩⟩
  rintro t p cb b r rfl
  cases hm _ ho

theorem of_log_eq (hlog : w'.log = w.log) : Writes K w w' :=
  of_log (m := []) (by rw [hlog, List.append_nil]) (by simp) (by simp)

theorem refl (w : Server) : Writes K w w := of_log_eq rfl

theorem trans {v : Server} (h : Writes K w v) (h' : Writes K v w') : Writes K w w' := by
  obtain ⟨l, hl, hlo⟩ := h
  obtain ⟨m, hm, hmo⟩ := h'
  refine ⟨l ++ m, by rw [hm, hl, List.append_assoc], fun o ho => ?_⟩
  exact (List.mem_append.mp ho).elim (hlo o) (hmo o)

theorem emit (w : Server) {o : Obs} (ho : o.isWrite = false) (hf : ∀ c f, o ≠ .frameSent c f) :
    Writes K w (w.emit o) :=
  of_log (m := [o]) rfl (by simpa using ho) (by simpa using hf)

theorem protoCmdDestroy (w : Server) (p : Nat) : Writes K w (w.protoCmdDestroy p) :=
  of_log (protoCmdDestroy_log w p) (by simp [Obs.isWrite]) (by simp)

theorem encodeNew {t : NvmpCmd} (hr : w.encodeNew t = some w') : Writes K w w' :=
  of_log_eq (encodeNew_log hr)

theorem destroySmtsFrame (w : Server) (f : Nat) : Writes K w (w.destroySmtsFrame f) :=
  (protoCmdDestroy w _).trans (emit _ rfl (by simp))

theorem onSmtsClientSendFrame {p : Nat} (hr : w.onSmtsClientSendFrame p = some w') :
    Writes K w w' := by
  have hset : Writes K w (w.setCmd p { w.cmds p with ref := (w.cmds p).ref - 1 }) := of_log_eq rfl
  obtain ⟨-, rfl⟩ | ⟨-, f, -, rfl⟩ := onSmtsClientSendFrame_cases hr
  · exact hset
  · exact (hset.trans (protoCmdDestroy ..)).trans (destroySmtsFrame ..)

theorem tcpClientSendMsg {t : Target} {p : Nat} {cb : SendCb} {r : Int} {bytes : List Byte}
    (hwire : (w.cmds p).wire w.heap = some bytes) (hK : K t cb bytes)
    (hr : w.tcpClientSendMsg t p cb = (w', r)) : Writes K w w' := by
  have hlog := tcpClientSendMsg_log hr
  rw [hwire] at hlog
  refine ⟨_, hlog, fun o ho => ?_⟩
  obtain rfl := List.mem_singleton.mp ho
  refine ⟨?_, by simp⟩
  rintro t' p' cb' b r' ⟨⟩
  exact ⟨bytes, rfl, hK⟩

theorem deleteSession {fuel s : Nat} (hr : w.deleteSession fuel s = some w') : Writes K w w' := by
  obtain ⟨m, rfl⟩ := deleteSession_eq hr
  exact of_log_eq rfl

theorem stopSmtsClient (w : Server) (c : Nat) : Writes K w (w.stopSmtsClient c) := by
  obtain ⟨-, h⟩ | ⟨-, -, h⟩ | ⟨-, s, -, h⟩ := stopSmtsClient_cases w c
  · rw [h]
    exact refl w
  · exact of_log (m := [.stop c, .uvClose (.client c)]) (by rw [h]) (by simp [Obs.isWrite]) (by simp)
  · exact of_log (m := [.stop c, .uvClose (.client c)]) (by rw [h]) (by simp [Obs.isWrite]) (by simp)

end Writes

section Handlers

variable {K : Target → SendCb → List Byte → Prop} {w w' : Server} {fuel c s p k : Nat} {r status : Int}
  {bytes : List Byte} {junk : Int → Byte}

theorem smtsClientSendPreviewRes_wire (hK : ∀ r, K (.client c) .previewResSlient (responsePacket r))
    (hr : w.smtsClientSendPreviewRes c status = some w') : Writes K w w' := by
  obtain ⟨-, w₁, w₂, r, henc, hsend, hcase⟩ | ⟨-, hcase⟩ := smtsClientSendPreviewRes_cases hr
  · obtain ⟨v, hv, hwire⟩ := w.encodeNew_flat (t := w.previewRes status)
      (show previewCmdRes ∈ payloadFreeTypes by decide)
    obtain rfl := Option.some.inj (henc.symm.trans hv)
    have hwire : (w₁.cmds w.nCmds).wire w₁.heap = some (responsePacket status) :=
      hwire.trans (congrArg some (previewResBytes_eq w status))
    have h₁ : Writes K w (w₁.setClient c { w₁.clients c with status := .onSendPreviewRes }) :=
      (Writes.encodeNew henc).trans (.of_log_eq rfl)
    have h₂ : Writes K w w₂ := h₁.trans (.tcpClientSendMsg (by exact hwire) (hK _) hsend)
    obtain ⟨-, rfl⟩ | ⟨-, rfl⟩ := hcase
    · exact h₂
    · exact (h₂.trans (.protoCmdDestroy ..)).trans (.stopSmtsClient ..)
  · obtain ⟨-, rfl⟩ | ⟨-, rfl⟩ := hcase
    · exact .stopSmtsClient ..
    · exact .refl _

/-- A loop over the clients of a session. -/
theorem forEachClient_wire {body : Nat → Server → Option Server}
    (hbody : ∀ c a b, body c a = some b → Writes K a b)
    (hr : w.forEachClient fuel s body = some w') : Writes K w w' := by
  refine Links.forEach_within (P := fun _ => True) (I := Writes K w) (fun _ _ => ⟨?_, ?_⟩)
    (fun q a b _ ha hb => ?_) trivial (.refl w) hr
  · simp
  · simp
  · cases q with
    | head t => cases hb
    | client c => exact ha.trans (hbody c a b hb)

theorem stopMediaSession_wire (hK : ∀ c r, K (.client c) .previewResSlient (responsePacket r))
    (hr : w.stopMediaSession fuel s = some w') : Writes K w w' := by
  obtain ⟨v, hdel, hloop⟩ := Option.bind_eq_some_iff.mp hr
  refine (Writes.deleteSession hdel).trans (forEachClient_wire (fun c a b hb => ?_) hloop)
  obtain ⟨u, hres, hb⟩ := Option.bind_eq_some_iff.mp hb
  obtain rfl := Option.some.inj hb
  exact (smtsClientSendPreviewRes_wire (hK c) hres).trans (.stopSmtsClient u c)

theorem tearDown_wire (hK : ∀ c r, K (.client c) .previewResSlient (responsePacket r))
    (hr : (w.setExitCode s r).stopMediaSession fuel s = some w') : Writes K w w' := by
  have h₁ : Writes K w (w.setExitCode s r) := .of_log_eq rfl
  exact h₁.trans (stopMediaSession_wire hK hr)

theorem onSmtsDvrClientSendPreview_wire
    (hK : ∀ c r, K (.client c) .previewResSlient (responsePacket r))
    (hr : w.onSmtsDvrClientSendPreview fuel s status = some w') : Writes K w w' := by
  rw [onSmtsDvrClientSendPreview] at hr
  split at hr
  · exact tearDown_wire hK hr
  · obtain ⟨v, hres, hr⟩ := Option.bind_eq_some_iff.mp hr
    have h₁ : Writes K w v := by
      rw [sendPreviewResponses] at hres
      split at hres
      · exact forEachClient_wire (fun c a b hb => smtsClientSendPreviewRes_wire (hK c) hb) hres
      · obtain rfl := Option.some.inj hres
        exact .refl w
    let u := (v.setSession s { v.sessions s with status := .running }).smtsDvrClientStartReadFrames s
    have h₂ : Writes K w u.1 := h₁.trans (.of_log_eq (by rfl))
    have hr : (if u.2 ≠ 0 then (u.1.setExitCode s u.2).stopMediaSession fuel s else some u.1)
        = some w' := hr
    split at hr
    · exact h₂.trans (tearDown_wire (w := u.1) hK hr)
    · obtain rfl := Option.some.inj hr
      exact h₂

theorem smtsDvrClientPreview_wire (hdvr : K (.dvr s) .dvrPreview dvrPreviewPacket)
    (hK : ∀ c r, K (.client c) .previewResSlient (responsePacket r))
    (hr : w.smtsDvrClientPreview fuel s = some (w', r)) : Writes K w w' := by
  obtain ⟨w₁, w₂, henc, hsend, hcase⟩ := smtsDvrClientPreview_cases hr
  have h₂ : Writes K w w₂ := (Writes.encodeNew henc).trans
    (.tcpClientSendMsg (encodeNew_dvrPreview henc) hdvr hsend)
  obtain ⟨-, rfl⟩ | ⟨-, hres⟩ := hcase
  · exact h₂
  · exact h₂.trans (onSmtsDvrClientSendPreview_wire hK hres)

theorem onTcpClientConnectCb_wire (hdvr : K (.dvr s) .dvrPreview dvrPreviewPacket)
    (hK : ∀ c r, K (.client c) .previewResSlient (responsePacket r))
    (hr : w.onTcpClientConnectCb fuel s status = some w') : Writes K w w' := by
  obtain ⟨v, hconn, hr⟩ := Option.bind_eq_some_iff.mp hr
  obtain rfl := Option.some.inj hr
  have h₁ : Writes K w (w.connectDone s) := .of_log_eq rfl
  refine (h₁.trans ?_).trans (.emit v rfl (by simp))
  have hconn : (w.connectDone s).onConnectedToDvr fuel s status = some v := hconn
  rw [onConnectedToDvr] at hconn
  split at hconn
  · exact tearDown_wire hK hconn
  · obtain ⟨⟨u, r⟩, hprev, hconn⟩ := Option.bind_eq_some_iff.mp hconn
    have h₂ := smtsDvrClientPreview_wire hdvr hK hprev
    dsimp only at hconn
    split at hconn
    · exact h₂.trans (tearDown_wire hK hconn)
    · obtain rfl := Option.some.inj hconn
      exact h₂

theorem onDvrClientReadError_wire (hK : ∀ c r, K (.client c) .previewResSlient (responsePacket r))
    (hr : w.onDvrClientReadError fuel s = some w') : Writes K w w' := by
  have hr : (w.readDone s).onSmtsDvrClientRecvFrame fuel s none dvrRecvFrameError = some w' := hr
  rw [onSmtsDvrClientRecvFrame, if_pos (by decide)] at hr
  have h₁ : Writes K w (w.readDone s) := .of_log_eq rfl
  exact h₁.trans (tearDown_wire hK hr)

/-- Callbacks of writes write nothing, but for the preview command's. -/
theorem sendCb_wire {req : WriteReq} (hK : ∀ c r, K (.client c) .previewResSlient (responsePacket r))
    (hr : w.sendCb fuel req status = some w') : Writes K w w' := by
  have hdestroy : Writes K w (w.protoCmdDestroy req.packet) := .protoCmdDestroy w _
  obtain ⟨i, target, p, cb⟩ := req
  cases target with
  | client c =>
      cases cb with
      | previewResSlient =>
          obtain rfl := Option.some.inj hr
          exact (hdestroy.trans (.emit _ rfl (by simp))).trans (.of_log_eq rfl)
      | errorPreviewRes =>
          obtain rfl := Option.some.inj hr
          exact hdestroy.trans (.stopSmtsClient _ c)
      | sendFrame =>
          obtain ⟨v, hdrop, hr⟩ := Option.bind_eq_some_iff.mp hr
          have h₁ : Writes K w v := .onSmtsClientSendFrame hdrop
          split at hr <;> obtain rfl := Option.some.inj hr
          · exact h₁.trans (.stopSmtsClient v c)
          · exact h₁
      | commonRes =>
          obtain rfl := Option.some.inj hr
          exact hdestroy
      | dvrPreview => cases hr
      | sendCmdToDvr => cases hr
  | dvr s =>
      cases cb with
      | dvrPreview => exact hdestroy.trans (onSmtsDvrClientSendPreview_wire hK hr)
      | sendCmdToDvr =>
          obtain rfl := Option.some.inj hr
          exact hdestroy
      | _ => cases hr

theorem tcpClientSendMsgCb_wire (hK : ∀ c r, K (.client c) .previewResSlient (responsePacket r))
    (hr : w.tcpClientSendMsgCb fuel k status = some w') : Writes K w w' := by
  obtain ⟨req, -, hr⟩ := Option.bind_eq_some_iff.mp hr
  obtain ⟨v, hcb, hr⟩ := Option.bind_eq_some_iff.mp hr
  obtain rfl := Option.some.inj hr
  have h₁ : Writes K w (w.eraseWrite k) := .of_log_eq rfl
  exact (h₁.trans (sendCb_wire hK hcb)).trans (.emit v rfl (by simp))

theorem closeClient_wire (w : Server) (c : Nat) : Writes K w (w.closeClient c) :=
  .of_log (m := [.uvClose (.client c)]) rfl (by simp [Obs.isWrite]) (by simp)

theorem clientOnConnection_wire (w : Server) : Writes K w w.clientOnConnection := by
  have hinit : Writes K w w.initSmtsClient :=
    .of_log (initSmtsClient_log w) (by simp [Obs.isWrite]) (by simp)
  have h₁ : Writes K w w.initSmtsClient.uvCall.1 := hinit.trans (.of_log_eq rfl)
  have h₂ : Writes K w w.initSmtsClient.uvCall.1.uvCall.1 := h₁.trans (.of_log_eq rfl)
  rw [clientOnConnection]
  dsimp only
  split
  · exact h₁.trans (closeClient_wire ..)
  split
  · exact h₂.trans (closeClient_wire ..)
  · exact h₂.trans (.of_log_eq rfl)

theorem clientCloseCb_wire (w : Server) (c : Nat) : Writes K w (w.clientCloseCb c) :=
  (Writes.emit w rfl (by simp)).trans ((Writes.of_log_eq rfl).trans (.emit _ rfl (by simp)))

theorem onDvrClientCloseCb_wire (w : Server) (s : Nat) : Writes K w (w.onDvrClientCloseCb s) :=
  (Writes.emit w rfl (by simp)).trans ((Writes.of_log_eq rfl).trans (.emit _ rfl (by simp)))

theorem sessionExitCb_wire (hr : w.sessionExitCb fuel s = some w') : Writes K w w' := by
  rw [sessionExitCb] at hr
  have h₁ : Writes K w (w.setSession s { w.sessions s with waitExitTimer := false }) := .of_log_eq rfl
  split at hr
  · obtain ⟨v, hdel, hr⟩ := Option.bind_eq_some_iff.mp hr
    obtain rfl := Option.some.inj hr
    refine (h₁.trans (.deleteSession hdel)).trans ?_
    exact .of_log (m := [.uvClose (.dvr s)]) rfl (by simp [Obs.isWrite]) (by simp)
  · obtain rfl := Option.some.inj hr
    exact h₁.trans (.of_log_eq rfl)

/-- The client gets an acknowledgement, and its DVR the packet. -/
theorem msgChannel_wire (hack : K (.client c) .commonRes ackPacket)
    (hcmd : ∀ s, (w.clients c).session = some s → K (.dvr s) .sendCmdToDvr bytes)
    (hwire : (w.cmds p).wire w.heap = some bytes) (hr : w.msgChannel c p = some w') : Writes K w w' := by
  have h₁ : Writes K w (w.mediaClientSendCmd c p).1 := by
    cases hs : (w.clients c).session with
    | none =>
        rw [mediaClientSendCmd_none hs]
        exact .refl w
    | some s =>
        obtain ⟨v, hsend, hres⟩ := mediaClientSendCmd_some hs (p := p)
        have href : Writes K w (w.protoCmdIncreaseRef p) := .of_log_eq rfl
        have hsame : ((w.protoCmdIncreaseRef p).cmds p).wire (w.protoCmdIncreaseRef p).heap
            = some bytes := by
          rw [protoCmdIncreaseRef_cmds, Function.update_self]
          exact hwire
        -- one use more changes nothing of what the packet's bytes are
        have hv : Writes K w v := href.trans (.tcpClientSendMsg hsame (hcmd s hs) hsend)
        rw [hres]
        dsimp only
        split
        · exact hv
        · exact hv.trans (.protoCmdDestroy v p)
  rw [msgChannel] at hr
  dsimp only at hr
  generalize w.mediaClientSendCmd c p = sent at h₁ hr
  obtain ⟨w₁, r⟩ := sent
  obtain ⟨v, hv, hres⟩ := w₁.encodeNew_flat (t := Cmd.init commonRes
    (Function.update (w₁.garbage w₁.nCmds) status (BitVec.ofInt 32 r)))
    (show commonRes ∈ payloadFreeTypes by decide)
  have hres : (v.cmds w₁.nCmds).wire v.heap = some ackPacket :=
    hres.trans (congrArg some (ackBytes_eq w₁ r))
  obtain ⟨u, henc, hr⟩ := Option.bind_eq_some_iff.mp hr
  obtain rfl := Option.some.inj (henc.symm.trans hv)
  generalize hsend : u.tcpClientSendMsg (.client c) w₁.nCmds .commonRes = send at hr
  obtain ⟨w₂, r₂⟩ := send
  have h₂ : Writes K w w₂ := (h₁.trans (.encodeNew henc)).trans (.tcpClientSendMsg hres hack hsend)
  split at hr <;> obtain rfl := Option.some.inj hr
  · exact h₂.trans (.protoCmdDestroy ..)
  · exact h₂

theorem msgChannel_cmd : ∀ e ∈ protocolMap, e.2 = some .msgChannel → e.1.cmd = testPTZCmd.cmd := by
  decide

theorem dispatchPacket_wire (hmax : bytes.length ≤ maxPacketLen)
    (hprev : (Event.packet c bytes junk).preview = none)
    (hack : K (.client c) .commonRes ackPacket)
    (hcmd : decodeInt32 (Reader.beyond bytes junk) 4 = some testPTZCmd.cmd →
      ∀ s, (w.clients c).session = some s → K (.dvr s) .sendCmdToDvr bytes)
    (hr : w.dispatchPacket fuel c bytes junk = some w') : Writes K w w' := by
  obtain ⟨-, rfl⟩ | ⟨t, imp, v, hdec, himp, rfl⟩ := dispatchPacket_cases hr
  · have h₁ : Writes K w (w.setHeap (w.heap.receive bytes).1) := .of_log_eq rfl
    exact h₁.trans (.emit _ rfl (by simp))
  · obtain ⟨T, hT, hno, hdecode⟩ := dispatchDecode_spec hdec
    have h₁ : Writes K w ((w.setHeap (w.heap.receive bytes).1).addCmd t) := .of_log_eq rfl
    refine Writes.trans ?_ (.protoCmdDestroy v w.nCmds)
    cases imp with
    | none =>
        obtain rfl := Option.some.inj himp
        exact h₁
    | some imp =>
        cases imp with
        | smtsStartPreview =>
            rw [Event.preview, hno, smtsStartPreview_cmd _ hT rfl, if_pos rfl] at hprev
            cases hprev
        | mockDvrPreviewImpl => cases himp
        | msgChannel =>
            have himp : ((w.setHeap (w.heap.receive bytes).1).addCmd t).msgChannel c w.nCmds = some v :=
              himp
            have hwire : t.wire (w.heap.receive bytes).1 = some bytes := by
              refine decode_wire (b := w.heap.blocks.length) (by simp [Heap.receive]) ?_ hdecode
              exact lt_of_le_of_lt hmax (by decide)
            have hptz := hno.trans (congrArg some (msgChannel_cmd _ hT rfl))
            refine h₁.trans (msgChannel_wire hack (hcmd hptz) ?_ himp)
            simpa only [addCmd_cmds, setHeap_nCmds, Function.update_self, addCmd_heap, setHeap_heap]
              using hwire

/-- A session that is started, or not, tells nobody anything. -/
theorem mediaClientStartPreview_wire {key : SessionKey}
    (hK : ∀ r, K (.client c) .previewResSlient (responsePacket r))
    (hr : w.mediaClientStartPreview fuel c key = some (w', r)) : Writes K w w' := by
  obtain ⟨found, hget, -⟩ := Option.bind_eq_some_iff.mp hr
  cases found with
  | some s =>
      have hadd : Writes K w (w.addSmtsClient s c) :=
        .of_log (m := [.attach c s]) rfl (by simp [Obs.isWrite]) (by simp)
      exact hadd.trans (smtsClientSendPreviewRes_wire hK (mediaClientStartPreview_found hget hr).2)
  | none =>
      obtain ⟨⟨k, hlog⟩, -⟩ := (mediaClientStartPreview_new hget hr).spec
      have hadd : Writes K w ((w.initMediaSession key).addSmtsClient w.nSessions c) :=
        .of_log (m := [.uvInit (.timer w.nSessions), .attach c w.nSessions])
          (by simp [initMediaSession_log]) (by simp [Obs.isWrite]) (by simp)
      refine hadd.trans (.of_log (by rw [hlog, List.append_assoc]) (fun o ho => ?_) fun o ho => ?_)
      · rcases List.mem_append.mp ho with ho | ho
        · rw [(List.mem_replicate.mp ho).2]
          rfl
        · split at ho
          · cases ho
          · rw [List.mem_singleton.mp ho]
            rfl
      · rcases List.mem_append.mp ho with ho | ho
        · simp [(List.mem_replicate.mp ho).2]
        · split at ho
          · cases ho
          · simp [List.mem_singleton.mp ho]

theorem dispatchPreview_wire (hprev : (Event.packet c bytes junk).preview = some c)
    (hslient : ∀ r, K (.client c) .previewResSlient (responsePacket r))
    (herror : ∀ r, K (.client c) .errorPreviewRes (responsePacket r))
    (hr : w.dispatchPacket fuel c bytes junk = some w') : Writes K w w' := by
  obtain ⟨t, w₁, -, hstart, rfl⟩ := dispatchPacket_decoded hprev hr
  have h₁ : Writes K w ((w.setHeap (w.heap.receive bytes).1).addCmd t) := .of_log_eq rfl
  refine (h₁.trans ?_).trans (.protoCmdDestroy w₁ w.nCmds)
  obtain ⟨w₂, r, hmedia, hcase⟩ := smtsStartPreview_cases hstart
  have h₂ := mediaClientStartPreview_wire hslient hmedia
  obtain ⟨-, rfl⟩ | ⟨-, w₃, w₄, r', henc, hsend, hw₁⟩ := hcase
  · exact h₂
  · obtain ⟨v, hv, hwire⟩ := w₂.encodeNew_flat (t := w₂.previewRes r)
      (show previewCmdRes ∈ payloadFreeTypes by decide)
    obtain rfl := Option.some.inj (henc.symm.trans hv)
    have hwire : (w₃.cmds w₂.nCmds).wire w₃.heap = some (responsePacket r) :=
      hwire.trans (congrArg some (previewResBytes_eq w₂ r))
    have h₄ := (h₂.trans (.encodeNew henc)).trans (.tcpClientSendMsg hwire (herror r) hsend)
    rcases hw₁ with rfl | rfl
    · exact h₄
    · exact h₄.trans (.protoCmdDestroy ..)

end Handlers

/-! ## Frames -/

/-- What is written is the frame `f`, in the packet `bytes`, and to clients that
are ready for it. -/
structure Relays (f : Nat) (bytes : List Byte) (w w' : Server) : Prop where
  ready : ∀ c, (w'.clients c).status = .onSendFrames → (w.clients c).status = .onSendFrames
  log : ∃ m, w'.log = w.log ++ m ∧
    (∀ t p cb b r, .uvWrite t p cb b r ∈ m → ∃ c, t = .client c ∧ cb = .sendFrame ∧
      b = some bytes ∧ (w.clients c).status = .onSendFrames) ∧
    ∀ c, hears (.client c) m = (sent c m).map (fun _ => (.sendFrame, bytes)) ∧
      ∀ g ∈ sent c m, g = f

namespace Relays

variable {f p : Nat} {bytes : List Byte} {w w' : Server}

/-- A callback that writes nothing, and makes nobody ready, relays as it should. -/
theorem of_log {m : List Obs} (hready : ∀ c, (w'.clients c).status = .onSendFrames →
      (w.clients c).status = .onSendFrames)
    (hlog : w'.log = w.log ++ m) (hm : ∀ o ∈ m, o.isWrite = false)
    (hf : ∀ o ∈ m, ∀ c g, o ≠ .frameSent c g) : Relays f bytes w w' := by
  refine ⟨hready, m, hlog, fun t q cb b r ho => ?_, fun c => ?_⟩
  · cases hm _ ho
  · rw [hears_eq_nil hm, sent_eq_nil hf]
    exact ⟨rfl, by simp⟩

theorem of_clients {m : List Obs} (hclients : w'.clients = w.clients) (hlog : w'.log = w.log ++ m)
    (hm : ∀ o ∈ m, o.isWrite = false) (hf : ∀ o ∈ m, ∀ c g, o ≠ .frameSent c g) :
    Relays f bytes w w' :=
  of_log (fun _ hc => hclients ▸ hc) hlog hm hf

theorem refl (w : Server) : Relays f bytes w w :=
  of_clients (m := []) rfl (List.append_nil _).symm (by simp) (by simp)

theorem trans {v : Server} (h : Relays f bytes w v) (h' : Relays f bytes v w') :
    Relays f bytes w w' := by
  obtain ⟨l, hl, hlw, hls⟩ := h.log
  obtain ⟨m, hm, hmw, hms⟩ := h'.log
  refine ⟨fun c hc => h.ready c (h'.ready c hc), l ++ m, by rw [hm, hl, List.append_assoc],
    fun t q cb b r ho => ?_, fun d => ⟨?_, fun g hg => ?_⟩⟩
  · rcases List.mem_append.mp ho with ho | ho
    · exact hlw t q cb b r ho
    · obtain ⟨c, ht, hcb, hb, hc⟩ := hmw t q cb b r ho
      exact ⟨c, ht, hcb, hb, h.ready c hc⟩
  · rw [hears_append, sent_append, List.map_append, (hls d).1, (hms d).1]
  · rw [sent_append] at hg
    exact (List.mem_append.mp hg).elim ((hls d).2 g) ((hms d).2 g)

theorem emit (w : Server) {o : Obs} (ho : o.isWrite = false) (hf : ∀ c g, o ≠ .frameSent c g) :
    Relays f bytes w (w.emit o) :=
  of_clients (m := [o]) rfl rfl (by simpa using ho) (by simpa using hf)

theorem protoCmdDestroy (w : Server) (q : Nat) : Relays f bytes w (w.protoCmdDestroy q) :=
  of_clients rfl (protoCmdDestroy_log w q) (by simp [Obs.isWrite]) (by simp)

theorem onSmtsClientSendFrame {q : Nat} (hr : w.onSmtsClientSendFrame q = some w') :
    Relays f bytes w w' := by
  have hset : Relays f bytes w (w.setCmd q { w.cmds q with ref := (w.cmds q).ref - 1 }) :=
    of_clients (m := []) rfl (List.append_nil _).symm (by simp) (by simp)
  obtain ⟨-, rfl⟩ | ⟨-, g, -, rfl⟩ := onSmtsClientSendFrame_cases hr
  · exact hset
  · exact ((hset.trans (protoCmdDestroy ..)).trans (protoCmdDestroy ..)).trans (emit _ rfl (by simp))

theorem stopSmtsClient (w : Server) (c : Nat) : Relays f bytes w (w.stopSmtsClient c) := by
  have hready : ∀ d, ((w.stopSmtsClient c).clients d).status = .onSendFrames →
      (w.clients d).status = .onSendFrames := fun d hd => by
    by_cases hdc : d = c
    · rw [hdc, stopSmtsClient_status] at hd
      cases hd
    · rwa [(stopSmtsClient_tame w c).clients d hdc] at hd
  obtain ⟨-, h⟩ | ⟨-, -, h⟩ | ⟨-, s, -, h⟩ := stopSmtsClient_cases w c
  · rw [h]
    exact refl w
  · exact of_log (m := [.stop c, .uvClose (.client c)]) hready (by rw [h]) (by simp [Obs.isWrite])
      (by simp)
  · exact of_log (m := [.stop c, .uvClose (.client c)]) hready (by rw [h]) (by simp [Obs.isWrite])
      (by simp)

/-- The frame is written, and seen to be if the write is queued. -/
theorem send {c : Nat} {r : Int} {v : Server} (hc : (w.clients c).status = .onSendFrames)
    (hwire : (w.cmds p).wire w.heap = some bytes) (hdata : (w.cmds p).data = some f)
    (hr : w.tcpClientSendMsg (.client c) p .sendFrame = (v, r)) :
    Relays f bytes w (if r = 0 then v.emit (.frameSent c (v.cmds p).data) else v) := by
  have hlog := tcpClientSendMsg_log hr
  rw [hwire] at hlog
  have hv : v.clients = w.clients ∧ (v.cmds p).data = some f := by
    obtain ⟨-, rfl⟩ | ⟨-, rfl⟩ := tcpClientSendMsg_cases hr <;> exact ⟨rfl, hdata⟩
  rw [hv.2]
  split
  next hz =>
    refine ⟨fun d hd => ?_, [.uvWrite (.client c) p .sendFrame (some bytes) r, .frameSent c (some f)],
      by simp [hlog], fun t q cb b r' ho => ?_, fun d => ?_⟩
    · exact hv.1 ▸ hd
    · obtain ⟨rfl, -, rfl, rfl, -⟩ := by simpa using ho
      exact ⟨c, rfl, rfl, rfl, hc⟩
    · by_cases hdc : c = d
      · simp [hears, sent, List.filterMap_cons, Obs.taken, Obs.frameTo, hdc, hz]
      · simp [hears, sent, List.filterMap_cons, Obs.taken, Obs.frameTo, hdc]
  next hz =>
    refine ⟨fun d hd => hv.1 ▸ hd, [.uvWrite (.client c) p .sendFrame (some bytes) r], hlog,
      fun t q cb b r' ho => ?_, fun d => ?_⟩
    · obtain ⟨rfl, -, rfl, rfl, -⟩ := by simpa using ho
      exact ⟨c, rfl, rfl, rfl, hc⟩
    · simp [hears, sent, List.filterMap_cons, Obs.taken, Obs.frameTo, hz]

end Relays

section Relay

variable {f p : Nat} {bytes : List Byte} {junk : Int → Byte} {w w' : Server} {fuel c s : Nat}

/-- One round of the loop relays the frame, and leaves the packet as it was. -/
theorem smtsClientSendFrame_relays (hwire : (w.cmds p).wire w.heap = some bytes)
    (hdata : (w.cmds p).data = some f) (hr : w.smtsClientSendFrame c p = some w') :
    Relays f bytes w w' ∧ (w'.cmds p).wire w'.heap = some bytes ∧ (w'.cmds p).data = some f := by
  have hwires := ((Sends.smtsClientSendFrame hr).wires p).trans hwire
  have h₁ : Relays f bytes w (w.emit (.sendFrame c p)) := .emit w rfl (by simp)
  obtain ⟨hc, v, r, hsend, hcase⟩ | ⟨hc, hdrop⟩ := smtsClientSendFrame_cases hr
  · have h₂ := Relays.send (f := f) (w := w.emit (.sendFrame c p)) hc hwire hdata hsend
    have hv : (v.cmds p).data = some f := by
      obtain ⟨-, rfl⟩ | ⟨-, rfl⟩ := tcpClientSendMsg_cases hsend <;> exact hdata
    obtain ⟨hz, rfl⟩ | ⟨hne, u, hdrop, rfl⟩ := hcase
    · rw [if_pos hz] at h₂
      exact ⟨h₁.trans h₂, hwires, hv⟩
    · rw [if_neg hne] at h₂
      refine ⟨((h₁.trans h₂).trans (.onSmtsClientSendFrame hdrop)).trans (.stopSmtsClient u c), hwires, ?_⟩
      rw [(NetOnly.stopSmtsClient u c).cmds, onSmtsClientSendFrame_data hdrop, hv]
  · refine ⟨h₁.trans (.onSmtsClientSendFrame hdrop), hwires, ?_⟩
    rw [onSmtsClientSendFrame_data hdrop]
    exact hdata

/-- **A frame on its way**: it is received, and what is written is the frame,
to clients that are ready for it. -/
theorem onDvrClientReadFrameCb_relays (hlo : 24 ≤ bytes.length) (hmax : bytes.length ≤ maxPacketLen)
    (hlw : lenWord bytes = BitVec.ofNat 32 bytes.length)
    (hr : w.onDvrClientReadFrameCb fuel s bytes junk = some w') :
    ∃ v, v.clients = w.clients ∧ v.log = w.log ++ [.recvFrame s w.nFrames] ∧
      Relays w.nFrames (relayed bytes) v w' := by
  obtain ⟨t, hdec, hrecv⟩ := onDvrClientReadFrameCb_eq w s bytes junk
  rw [hrecv] at hr
  by_cases hpos : 0 < (w.sessions s).clientSize
  · obtain ⟨w₁, henc, hloop⟩ := onSmtsDvrClientRecvFrame_relay (w := w.arrived bytes t)
      (f := w.nFrames) hpos
    have hwire := relaying_wire hlo hmax hlw hdec henc
    obtain ⟨t', hv⟩ := relaying_spec henc
    rw [hloop] at hr
    generalize (w.arrived bytes t).relaying w₁ s = v at hv hr hwire
    have hdata : (v.cmds (w.nCmds + 1)).data = some w.nFrames := by
      rw [hv.cmds, Function.update_self]
      exact hv.data
    refine ⟨v, hv.clients, hv.log, ?_⟩
    -- round by round: the response keeps its bytes and its frame
    let I : Server → Prop := fun u => Relays w.nFrames (relayed bytes) v u ∧
      (u.cmds (w.nCmds + 1)).wire u.heap = some (relayed bytes) ∧
      (u.cmds (w.nCmds + 1)).data = some w.nFrames
    have hI : I w' := by
      refine Links.forEach_within (P := fun _ => True) (I := I) (fun _ _ => ⟨?_, ?_⟩)
        (fun q a b _ ha hb => ?_) trivial ⟨.refl v, hwire, hdata⟩ hr
      · simp
      · simp
      · cases q with
        | head t => cases hb
        | client c =>
            obtain ⟨hround, hwire', hdata'⟩ := smtsClientSendFrame_relays ha.2.1 ha.2.2 hb
            exact ⟨ha.1.trans hround, hwire', hdata'⟩
    exact hI.1
  · obtain ⟨hpos', -⟩ | ⟨-, rfl⟩ := onSmtsDvrClientRecvFrame_cases hr
    · exact absurd hpos' hpos
    · refine ⟨(w.arrived bytes t).emit (.recvFrame s w.nFrames), rfl, rfl, ?_⟩
      exact (Relays.protoCmdDestroy _ _).trans (.emit _ rfl (by simp))

end Relay

/-! ## One callback -/

/-- What may be written in a callback for `e`. -/
def Says : Event → Target → SendCb → List Byte → Prop
  | .packet c bytes junk => fun t cb b =>
      (t = .client c ∧ (Event.packet c bytes junk).preview = some c ∧
        (cb = .previewResSlient ∨ cb = .errorPreviewRes) ∧ ∃ r, b = responsePacket r) ∨
      (t = .client c ∧ (Event.packet c bytes junk).preview = none ∧ cb = .commonRes ∧ b = ackPacket) ∨
      ∃ s, t = .dvr s ∧ cb = .sendCmdToDvr ∧ b = bytes ∧
        decodeInt32 (Reader.beyond bytes junk) 4 = some testPTZCmd.cmd
  | .dvrPacket _ bytes _ => fun t cb b => ∃ c, t = .client c ∧ cb = .sendFrame ∧ b = relayed bytes
  | .dvrConnected s _ => fun t cb b =>
      (∃ c r, t = .client c ∧ cb = .previewResSlient ∧ b = responsePacket r) ∨
      (t = .dvr s ∧ cb = .dvrPreview ∧ b = dvrPreviewPacket)
  | _ => fun t cb b => ∃ c r, t = .client c ∧ cb = .previewResSlient ∧ b = responsePacket r

/-- What a callback writes that relays no frame is one of the packets `Says`
allows. -/
theorem step_writes {w w' : Server} {e : Event} (hrelay : (w.scope e).relay = false)
    (hstep : Step w e w') : Writes (Says e) w w' := by
  obtain ⟨hen, fuel, hr⟩ := hstep
  cases e with
  | connection =>
      obtain rfl := Option.some.inj hr
      exact clientOnConnection_wire w
  | packet c bytes junk =>
      obtain ⟨-, -, -, -, hmax, -⟩ := hen
      cases hprev : (Event.packet c bytes junk).preview with
      | none =>
          exact dispatchPacket_wire hmax hprev (.inr (.inl ⟨rfl, hprev, rfl, rfl⟩))
            (fun hptz s _ => .inr (.inr ⟨s, rfl, rfl, rfl, hptz⟩)) hr
      | some d =>
          obtain ⟨bytes', junk', heq⟩ := Event.preview_eq_some hprev
          obtain rfl : c = d := (Event.packet.inj heq).1
          exact dispatchPreview_wire hprev (fun r => .inl ⟨rfl, hprev, .inl rfl, r, rfl⟩)
            (fun r => .inl ⟨rfl, hprev, .inr rfl, r, rfl⟩) hr
  | readError c status =>
      obtain rfl := Option.some.inj hr
      exact .stopSmtsClient w c
  | dvrConnected s status =>
      exact onTcpClientConnectCb_wire (.inr ⟨rfl, rfl, rfl⟩) (fun c r => .inl ⟨c, r, rfl, rfl, rfl⟩) hr
  | dvrPacket s bytes junk => cases hrelay
  | dvrReadError s status =>
      exact onDvrClientReadError_wire (fun c r => ⟨c, r, rfl, rfl, rfl⟩) hr
  | writeDone k status =>
      exact tcpClientSendMsgCb_wire (fun c r => ⟨c, r, rfl, rfl, rfl⟩) hr
  | timer s => exact sessionExitCb_wire hr
  | clientClosed c =>
      obtain rfl := Option.some.inj hr
      exact clientCloseCb_wire w c
  | dvrClosed s =>
      obtain rfl := Option.some.inj hr
      exact onDvrClientCloseCb_wire w s

/-- Whatever a step writes has bytes, and these are what `Says` allows. -/
theorem step_says {w w' : Server} {e : Event}
    (hlong : ∀ s bytes junk, e = .dvrPacket s bytes junk → 24 ≤ bytes.length)
    (hstep : Step w e w') :
    ∃ m, w'.log = w.log ++ m ∧ ∀ t p cb b r, .uvWrite t p cb b r ∈ m →
      ∃ bytes, b = some bytes ∧ Says e t cb bytes := by
  by_cases hrelay : (w.scope e).relay = true
  · cases e with
    | dvrPacket s bytes junk =>
        obtain ⟨⟨-, -, -, -, hmax, hlw⟩, fuel, hr⟩ := hstep
        obtain ⟨v, -, hv, hrelays⟩ :=
          onDvrClientReadFrameCb_relays (hlong s bytes junk rfl) hmax hlw hr
        obtain ⟨m, hm, hmo, -⟩ := hrelays.log
        refine ⟨.recvFrame s w.nFrames :: m, by rw [hm, hv, List.append_assoc]; rfl,
          fun t p cb b r ho => ?_⟩
        obtain ho | ho := List.mem_cons.mp ho
        · cases ho
        · obtain ⟨c, rfl, rfl, rfl, -⟩ := hmo t p cb b r ho
          exact ⟨relayed bytes, rfl, c, rfl, rfl, rfl⟩
    | _ => cases hrelay
  · obtain ⟨m, hm, hmo⟩ := step_writes (Bool.eq_false_iff.mpr hrelay) hstep
    exact ⟨m, hm, fun t p cb b r ho => (hmo _ ho).1 t p cb b r rfl⟩

end Server

end Smts
