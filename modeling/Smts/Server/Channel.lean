import Smts.Server.Messages
import Smts.Server.Rings

/-!
# Server — the transparent channel

`msg_channel` passes a client's packet on to its session's DVR and tells the
client how that went.
-/

namespace Smts

/-- A `common_res` given to `uv_write`. -/
def Obs.isCommonRes : Obs → Bool
  | .uvWrite _ _ .commonRes _ _ => true
  | _ => false

namespace Server

/-! ## What is passed on -/

section SendCmd

variable {w : Server} {c p : Nat}

/-- A client without a session is told so, and nothing is sent. -/
theorem mediaClientSendCmd_none (hs : (w.clients c).session = none) :
    w.mediaClientSendCmd c p = (w, smtsClientNoStart) := by
  rw [mediaClientSendCmd, hs]

theorem tcpClientSendMsg_snd (w : Server) (t : Target) (p : Nat) (cb : SendCb) :
    (w.tcpClientSendMsg t p cb).2 = w.uv w.nUv := by
  rw [tcpClientSendMsg]
  change (if w.uv w.nUv = 0 then _ else _ : Server × Int).2 = w.uv w.nUv
  split <;> rfl

theorem encodeNew_uvCall {w' : Server} {t : NvmpCmd} (h : w.encodeNew t = some w') :
    w'.uv w'.nUv = w.uv w.nUv := by
  obtain ⟨⟨h', t'⟩, -, h⟩ := Option.bind_eq_some_iff.mp h
  obtain rfl := Option.some.inj h
  rfl

/-- `smts_dvr_client_preview` returns what `uv_write` returns for its packet. -/
theorem smtsDvrClientPreview_result {w' : Server} {fuel s : Nat} {r : Int}
    (hr : w.smtsDvrClientPreview fuel s = some (w', r)) : r = w.uv w.nUv := by
  obtain ⟨w₁, w₂, henc, hsend, -⟩ := smtsDvrClientPreview_cases hr
  have hresult := tcpClientSendMsg_snd w₁ (.dvr s) w.nCmds .dvrPreview
  rw [hsend, encodeNew_uvCall henc] at hresult
  exact hresult

/-- The packet gets a reference for the write, and loses it when there is
none. -/
theorem mediaClientSendCmd_some {s : Nat} (hs : (w.clients c).session = some s) :
    ∃ w₁, (w.protoCmdIncreaseRef p).tcpClientSendMsg (.dvr s) p .sendCmdToDvr
        = (w₁, w.uv w.nUv) ∧
      w.mediaClientSendCmd c p
        = (if w.uv w.nUv = 0 then w₁ else w₁.protoCmdDestroy p, w.uv w.nUv) := by
  have hres := tcpClientSendMsg_snd (w.protoCmdIncreaseRef p) (.dvr s) p .sendCmdToDvr
  rw [mediaClientSendCmd, hs]
  dsimp only
  generalize (w.protoCmdIncreaseRef p).tcpClientSendMsg (.dvr s) p .sendCmdToDvr = send at hres ⊢
  obtain ⟨w₁, r⟩ := send
  obtain rfl : r = w.uv w.nUv := hres
  refine ⟨w₁, rfl, ?_⟩
  by_cases hz : w.uv w.nUv = 0
  · simp [hz]
  · simp [hz]

/-- `media_client_send_cmd` returns `SMTS_CLIENT_NO_START` without a session,
and else what `uv_write` returns. -/
theorem mediaClientSendCmd_result (w : Server) (c p : Nat) :
    (w.mediaClientSendCmd c p).2
      = if (w.clients c).session = none then smtsClientNoStart else w.uv w.nUv := by
  cases hs : (w.clients c).session with
  | none => rw [mediaClientSendCmd_none hs, if_pos rfl]
  | some s =>
      obtain ⟨w₁, -, hsend⟩ := mediaClientSendCmd_some hs (p := p)
      simp [hsend]

/-- The command waits in the queue of the DVR of its sender's session:
`uv_write` took it. -/
def Queued (w w' : Server) (c p : Nat) : Prop :=
  ∃ s, (w.clients c).session = some s ∧
    w'.writes = w.writes ++ [⟨w.nWrites, .dvr s, p, .sendCmdToDvr⟩]

/-- It returns 0 just when the command was queued. -/
theorem mediaClientSendCmd_result_eq_zero (w : Server) (c p : Nat) :
    (w.mediaClientSendCmd c p).2 = 0 ↔ Queued w (w.mediaClientSendCmd c p).1 c p := by
  rw [Queued]
  cases hs : (w.clients c).session with
  | none => simp [mediaClientSendCmd_none hs]
  | some s =>
      obtain ⟨w₁, hsend, hres⟩ := mediaClientSendCmd_some hs (p := p)
      rw [hres]
      obtain ⟨hz, rfl⟩ | ⟨hne, rfl⟩ := tcpClientSendMsg_cases hsend
      · simp [hz]
      · simp [hne]

theorem protoCmdDestroy_noCommonRes (w : Server) (p : Nat) :
    ∃ m, (w.protoCmdDestroy p).log = w.log ++ m ∧ m.filter Obs.isCommonRes = [] :=
  ⟨_, protoCmdDestroy_log w p, by simp [Obs.isCommonRes]⟩

/-- `media_client_send_cmd` itself sends no response. -/
theorem mediaClientSendCmd_log (w : Server) (c p : Nat) :
    ∃ m, (w.mediaClientSendCmd c p).1.log = w.log ++ m ∧ m.filter Obs.isCommonRes = [] := by
  cases hs : (w.clients c).session with
  | none => exact ⟨[], by simp [mediaClientSendCmd_none hs]⟩
  | some s =>
      obtain ⟨w₁, hsend, hres⟩ := mediaClientSendCmd_some hs (p := p)
      rw [hres]
      obtain ⟨hz, rfl⟩ | ⟨hne, rfl⟩ := tcpClientSendMsg_cases hsend
      · simp [hz, Obs.isCommonRes]
      · simp [hne, Obs.isCommonRes]

end SendCmd

/-! ## What is answered -/

/-- Only the `common_res` itself is sent, with the bytes it was encoded to. -/
theorem msgChannel_log (w : Server) (c p : Nat) :
    ∃ w' m q r, w.msgChannel c p = some w' ∧ w'.log = w.log ++ m ∧
      m.filter Obs.isCommonRes = [.uvWrite (.client c) q .commonRes
        (some ((w.mediaClientSendCmd c p).1.ackBytes (w.mediaClientSendCmd c p).2)) r] := by
  obtain ⟨m, hlog, hm⟩ := mediaClientSendCmd_log w c p
  rw [msgChannel]
  dsimp only
  generalize w.mediaClientSendCmd c p = sent at hlog ⊢
  obtain ⟨w₁, r⟩ := sent
  obtain ⟨w₂, henc, hwire⟩ := w₁.encodeNew_flat (t := Cmd.init commonRes
    (Function.update (w₁.garbage w₁.nCmds) status (BitVec.ofInt 32 r)))
    (show commonRes ∈ payloadFreeTypes by decide)
  rw [henc]
  simp only [Option.bind_eq_bind, Option.bind_some]
  generalize hsend : w₂.tcpClientSendMsg (.client c) w₁.nCmds .commonRes = send
  obtain ⟨w₃, r₃⟩ := send
  have hlog₂ : w₂.log = w.log ++ m := (encodeNew_log henc).trans hlog
  let ack : Obs := .uvWrite (.client c) w₁.nCmds .commonRes (some (w₁.ackBytes r)) r₃
  have hack : (m ++ [ack]).filter Obs.isCommonRes = [ack] := by
    rw [List.filter_append, hm]
    rfl
  have hlog₃ : w₃.log = w.log ++ (m ++ [ack]) := by
    have hwire : (w₂.cmds w₁.nCmds).wire w₂.heap = some (w₁.ackBytes r) := hwire
    rw [tcpClientSendMsg_log hsend, hlog₂, hwire, List.append_assoc]
  split
  · obtain ⟨n, hn, hno⟩ := protoCmdDestroy_noCommonRes w₃ w₁.nCmds
    refine ⟨_, m ++ [ack] ++ n, w₁.nCmds, r₃, rfl, ?_, ?_⟩
    · rw [hn, hlog₃, List.append_assoc]
    · rw [List.filter_append, hack, hno]
      rfl
  · exact ⟨_, m ++ [ack], w₁.nCmds, r₃, rfl, hlog₃, hack⟩

/-- The client is told once how its command went: what is on the wire is what
`media_client_send_cmd` returned, 0 just when the command was queued. -/
def Acknowledges (w : Server) (c p : Nat) : Prop :=
  ∃ w' m q bytes r, w.msgChannel c p = some w' ∧ w'.log = w.log ++ m ∧
    m.filter Obs.isCommonRes = [.uvWrite (.client c) q .commonRes (some bytes) r] ∧
    (wireStatus bytes).toInt = (w.mediaClientSendCmd c p).2 ∧
    ((wireStatus bytes).toInt = 0 ↔ Queued w (w.mediaClientSendCmd c p).1 c p) ∧
    (wireStatus bytes).toInt
      = if (w.clients c).session = none then smtsClientNoStart else w.uv w.nUv

/-- The status that goes out with an acknowledgement is 0. -/
theorem Acknowledges.result_eq_zero {w : Server} {c p : Nat} (h : w.Acknowledges c p) :
    (w.mediaClientSendCmd c p).2 = 0 := by
  obtain ⟨w', m, q, r, hchan, hlog, hm⟩ := msgChannel_log w c p
  have hwire := wireStatus_ackBytes (w.mediaClientSendCmd c p).1 (w.mediaClientSendCmd c p).2
  obtain ⟨w'', m', q', bytes, r', hchan', hlog', hm', hstatus, -⟩ := h
  obtain rfl := Option.some.inj (hchan.symm.trans hchan')
  obtain rfl := List.append_cancel_left (hlog.symm.trans hlog')
  rw [hm] at hm'
  obtain ⟨-, rfl, -⟩ := by simpa using hm'
  rw [hwire] at hstatus
  exact hstatus.symm

/-- **The acknowledgement tells the truth only when there is nothing to
report**: the status is set before the response is initialised. -/
theorem acknowledges_iff (w : Server) (c p : Nat) :
    w.Acknowledges c p ↔ (w.clients c).session ≠ none ∧ w.uv w.nUv = 0 := by
  have hres := mediaClientSendCmd_result w c p
  constructor
  · intro h
    rw [h.result_eq_zero] at hres
    by_cases hs : (w.clients c).session = none
    · rw [if_pos hs] at hres
      cases hres
    · rw [if_neg hs] at hres
      exact ⟨hs, hres.symm⟩
  · rintro ⟨hs, hz⟩
    rw [if_neg hs, hz] at hres
    obtain ⟨w', m, q, r, hchan, hlog, hm⟩ := msgChannel_log w c p
    have hwire := wireStatus_ackBytes (w.mediaClientSendCmd c p).1 (w.mediaClientSendCmd c p).2
    refine ⟨w', m, q, _, r, hchan, hlog, hm, ?_, ?_, ?_⟩
    · rw [hwire, hres]
      rfl
    · rw [← mediaClientSendCmd_result_eq_zero, hwire, hres]
      exact Iff.rfl
    · rw [hwire, if_neg hs, hz]
      rfl

/-- A `test_PTZ_cmd` with all its fields zero. -/
def zeroPTZCmd : List Byte := [0, 0, 0, 24, 0, 1, 128, 16] ++ List.replicate 16 0

/-- A client that never asked for a preview is told that its command was
sent. -/
theorem not_acknowledges_zeroPTZCmd :
    ∃ t, dispatchDecode (Reader.beyond zeroPTZCmd fun _ => 0) ⟨0, 0⟩ 24 (connected0.garbage 0)
        = some (some (t, some .msgChannel)) ∧
      ¬ ((connected0.setHeap (connected0.heap.receive zeroPTZCmd).1).addCmd t).Acknowledges 0 0 := by
  have himp : (dispatchDecode (Reader.beyond zeroPTZCmd fun _ => 0) ⟨0, 0⟩ 24
      (connected0.garbage 0)).map (fun found => found.map Prod.snd)
      = some (some (some .msgChannel)) := by
    decide +kernel
  obtain ⟨found, hdec, himp⟩ := Option.map_eq_some_iff.mp himp
  obtain ⟨⟨t, imp⟩, rfl, rfl⟩ := Option.map_eq_some_iff.mp himp
  refine ⟨t, hdec, fun hack => ?_⟩
  have hres := hack.result_eq_zero
  have hs : (((connected0.setHeap (connected0.heap.receive zeroPTZCmd).1).addCmd t).clients
      0).session = none := (by decide +kernel : (connected0.clients 0).session = none)
  rw [mediaClientSendCmd_none hs] at hres
  cases hres

end Server

end Smts
