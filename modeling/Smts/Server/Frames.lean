import Smts.Server.Received
import Smts.Server.Teardown

/-!
# Server — frames that are shared

A frame is sent to all clients of a session in one packet, which points into
the buffer the frame came in. Its `ref` counts the clients in advance; who is
not ready, whose send fails and whose send completes each count down, and the
last one frees all that is behind the frame.
-/

namespace Smts

open Circular

/-- The packet `d` a frame came in and the one it is sent in, the frame `f`,
the buffer `b` it came in and that of the response. -/
def Objects.relayed (d f b : Nat) : Objects :=
  ⟨fun p => p = d ∨ p = d + 1, (· = f), fun x => x = b ∨ x = b + 1⟩

/-- The packet `d`, the frame `f` and the buffer `b` alone. -/
def Objects.arrived (d f b : Nat) : Objects := ⟨(· = d), (· = f), (· = b)⟩

namespace Server

/-- What is freed with the frame `f`: the DVR's packet, its slots and buffer,
and the frame itself. -/
def frameObjects (d f b : Nat) : List Obj := [.block ⟨b, 0⟩, .slots d, .cmd d, .frame f]

/-- What is freed with the response that carries it. -/
def resObjects (d f b : Nat) : List Obj :=
  [.block ⟨b + 1, 0⟩, .slots (d + 1), .cmd (d + 1)] ++ frameObjects d f b

/-- The response `d + 1` carries the frame `f` to `n` more clients, besides
those it is on its way to. -/
structure Shared (w : Server) (d f b n : Nat) : Prop
    extends Counted (.relayed d f b) (d + 1) (resObjects d f b) w n where
  res : (w.cmds (d + 1)).frees = [.block ⟨b + 1, 0⟩, .slots, .struct]
  data : (w.cmds (d + 1)).data = some f
  ref : (w.cmds (d + 1)).ref = n + (w.writesOf (d + 1)).length
  frame : (w.frames f).data = d
  dvr : (w.cmds d).ref = 0 ∧ (w.cmds d).frees = [.block ⟨b, 0⟩, .slots, .struct]
  alone : w.writesOf d = []
  sends : ∀ req ∈ w.writesOf (d + 1), ∃ c, req.client = .client c ∧ req.cb = .sendFrame

section Shared

variable {w w' : Server} {d f b n : Nat}

theorem resObjects_relayed {x : Obj} (hx : x ∈ resObjects d f b) :
    (Obs.free x).ofMemory = true ∧ (Objects.relayed d f b).Within (.free x) := by
  simp only [resObjects, frameObjects, List.cons_append, List.nil_append, List.mem_cons,
    List.not_mem_nil, or_false] at hx
  rcases hx with rfl | rfl | rfl | rfl | rfl | rfl | rfl
  all_goals simp [Obs.ofMemory, Objects.Within, Objects.relayed]

theorem Shared.spares (h : Shared w d f b n) (hs : Spares (.relayed d f b) w w') :
    Shared w' d f b n := by
  have hres : w'.cmds (d + 1) = w.cmds (d + 1) := hs.kept.cmds _ (.inr rfl)
  have hdvr : w'.cmds d = w.cmds d := hs.kept.cmds _ (.inl rfl)
  have hwrites : w'.writesOf (d + 1) = w.writesOf (d + 1) := hs.kept.writes _ (.inr rfl)
  refine ⟨h.toCounted.spares hs, hres ▸ h.res, hres ▸ h.data, ?_, ?_, hdvr ▸ h.dvr, ?_,
    hwrites ▸ h.sends⟩
  · rw [hres, hwrites, h.ref]
  · rw [hs.kept.frames f rfl, h.frame]
  · rw [hs.kept.writes d (.inl rfl), h.alone]

/-- Nothing else refers to the packet a frame came in. -/
theorem destroySmtsFrame_last (hframe : (w.frames f).data = d) (href : (w.cmds d).ref = 0)
    (hfrees : (w.cmds d).frees = [.block ⟨b, 0⟩, .slots, .struct]) :
    w.destroySmtsFrame f = { w with log := w.log ++ (frameObjects d f b).map .free } := by
  rw [destroySmtsFrame, hframe, protoCmdDestroy_last href, hfrees, emit]
  simp only [List.append_assoc]
  rfl

/-- The last one to count down frees the response, and the frame with it. -/
theorem Shared.drop (h : Shared w d f b (n + 1)) :
    ∃ w', w.onSmtsClientSendFrame (d + 1) = some w' ∧ Shared w' d f b n := by
  have href := h.ref
  let w₁ := w.setCmd (d + 1) { w.cmds (d + 1) with ref := (w.cmds (d + 1)).ref - 1 }
  have hres : w₁.cmds (d + 1) = { w.cmds (d + 1) with ref := (w.cmds (d + 1)).ref - 1 } :=
    Function.update_self ..
  have hdvr : w₁.cmds d = w.cmds d := Function.update_of_ne (by omega) ..
  have hdrop : w.onSmtsClientSendFrame (d + 1) = if (w₁.cmds (d + 1)).ref = 0 then
      some ((w₁.protoCmdDestroy (d + 1)).destroySmtsFrame f) else some w₁ := by
    rw [onSmtsClientSendFrame]
    change (if (w₁.cmds (d + 1)).ref = 0 then _ else _) = _
    rw [hres, h.data]
    rfl
  -- the count is 0 just when no client is left and no write of the response is under way
  by_cases hz : n + (w.writesOf (d + 1)).length = 0
  · have hz₁ : (w₁.cmds (d + 1)).ref = 0 := by
      rw [hres]
      push_cast at href
      dsimp only
      omega
    obtain rfl : n = 0 := by omega
    have hnil : w.writesOf (d + 1) = [] := List.eq_nil_of_length_eq_zero (by omega)
    have hw : (w₁.protoCmdDestroy (d + 1)).destroySmtsFrame f
        = { w₁ with log := w.log ++ (resObjects d f b).map .free } := by
      have hfrees : (w₁.cmds (d + 1)).frees = [.block ⟨b + 1, 0⟩, .slots, .struct] := by
        rw [hres]
        exact h.res
      have hframe : ∀ m, ({ w₁ with log := m } : Server).destroySmtsFrame f
          = { w₁ with log := m ++ (frameObjects d f b).map .free } := fun m => by
        refine destroySmtsFrame_last h.frame ?_ ?_
        · exact hdvr ▸ h.dvr.1
        · exact hdvr ▸ h.dvr.2
      rw [protoCmdDestroy_last hz₁, hfrees, hframe, List.append_assoc]
      rfl
    refine ⟨_, hdrop.trans (if_pos hz₁), ?_⟩
    rw [hw]
    -- what is freed was made for this frame, so that nothing else can be among it
    have hlog : ∀ o ∈ (resObjects d f b).map Obs.free, (w.rest .none).Within o := fun o ho => by
      obtain ⟨x, hx, rfl⟩ := List.mem_map.mp ho
      exact (resObjects_relayed hx).2.mono (fun q hq => ⟨h.apart.packets q hq, id⟩)
        (fun q hq => ⟨h.apart.frames q hq, id⟩) fun q hq => ⟨h.apart.blocks q hq, id⟩
    refine ⟨h.toCounted.last hnil rfl ?_ rfl (fun x hx => ?_) (by simp) (fun q hq _ => ?_), ?_, ?_,
      ?_, h.frame, ?_, h.alone, h.sends⟩
    · refine h.apart.own rfl rfl rfl (fun q hq => ?_) rfl h.apart.written rfl hlog
      exact Function.update_of_ne (fun heq => hq (.inr heq)) ..
    · simp only [resObjects, frameObjects, List.cons_append, List.nil_append, List.mem_cons,
        List.not_mem_nil, or_false] at hx
      rcases hx with rfl | rfl | rfl | rfl | rfl | rfl | rfl <;> simp [resObjects, frameObjects]
    · obtain ⟨x, hx, heq⟩ := List.mem_map.mp hq
      obtain rfl := Obs.free.inj heq
      have hq : q = ⟨b + 1, 0⟩ ∨ q = ⟨b, 0⟩ := by simpa [resObjects, frameObjects] using hx
      rcases hq with rfl | rfl <;> rfl
    · change (w₁.cmds (d + 1)).frees = _
      rw [hres]
      exact h.res
    · change (w₁.cmds (d + 1)).data = _
      rw [hres]
      exact h.data
    · change (w₁.cmds (d + 1)).ref = (0 : Nat) + ((w.writesOf (d + 1)).length : Int)
      rw [hz₁, hnil]
      rfl
    · change (w₁.cmds d).ref = 0 ∧ (w₁.cmds d).frees = _
      rw [hdvr]
      exact h.dvr
  · have hz₁ : (w₁.cmds (d + 1)).ref ≠ 0 := by
      rw [hres]
      push_cast at href
      dsimp only
      omega
    refine ⟨_, hdrop.trans (if_neg hz₁), h.toCounted.setRef hz, ?_, ?_, ?_, h.frame, ?_, h.alone,
      h.sends⟩
    · rw [hres]
      exact h.res
    · rw [hres]
      exact h.data
    · change (w₁.cmds (d + 1)).ref = n + ((w.writesOf (d + 1)).length : Int)
      rw [hres]
      push_cast at href
      dsimp only
      omega
    · rw [hdvr]
      exact h.dvr

theorem Shared.send {c : Nat} {r : Int} (h : Shared w d f b (n + 1))
    (hr : w.tcpClientSendMsg (.client c) (d + 1) .sendFrame = (w', r)) :
    (r = 0 → Shared w' d f b n) ∧ (r ≠ 0 → Shared w' d f b (n + 1)) := by
  have hcmds : w'.cmds = w.cmds ∧ w'.frames = w.frames := by
    obtain ⟨-, rfl⟩ | ⟨-, rfl⟩ := tcpClientSendMsg_cases hr <;> exact ⟨rfl, rfl⟩
  have halone : w'.writesOf d = [] := by
    obtain ⟨-, rfl⟩ | ⟨-, rfl⟩ := tcpClientSendMsg_cases hr
    · have := h.alone
      simp_all [writesOf]
    · exact h.alone
  obtain ⟨hqueued, hfailed⟩ := h.toCounted.send hr
  have href := h.ref
  refine ⟨fun hz => ?_, fun hne => ?_⟩
  · obtain ⟨hc, i, hwrites⟩ := hqueued hz
    refine ⟨hc, hcmds.1 ▸ h.res, hcmds.1 ▸ h.data, ?_, hcmds.2 ▸ h.frame, hcmds.1 ▸ h.dvr, halone,
      fun req hreq => ?_⟩
    · rw [hcmds.1, hwrites, List.length_append, List.length_singleton]
      push_cast at href ⊢
      omega
    · rw [hwrites] at hreq
      rcases List.mem_append.mp hreq with hreq | hreq
      · exact h.sends req hreq
      · obtain rfl := List.mem_singleton.mp hreq
        exact ⟨c, rfl, rfl⟩
  · obtain ⟨hc, hwrites⟩ := hfailed hne
    exact ⟨hc, hcmds.1 ▸ h.res, hcmds.1 ▸ h.data, by rw [hcmds.1, hwrites, href],
      hcmds.2 ▸ h.frame, hcmds.1 ▸ h.dvr, halone, hwrites ▸ h.sends⟩

theorem Shared.eraseWrite {k : Nat} {req : WriteReq} (h : Shared w d f b n)
    (hk : w.writes[k]? = some req) (hreq : req.packet = d + 1) :
    Shared (w.eraseWrite k) d f b (n + 1) := by
  have hlen : ((w.eraseWrite k).writesOf (d + 1)).length + 1 = (w.writesOf (d + 1)).length :=
    length_filter_eraseIdx hk (by simpa using hreq)
  refine ⟨h.toCounted.eraseWrite hk hreq, h.res, h.data, ?_, h.frame, h.dvr, ?_,
    fun req hreq => h.sends req (((List.eraseIdx_sublist ..).filter _).subset hreq)⟩
  · have href := h.ref
    simp only [eraseWrite_cmds]
    omega
  · exact (filter_eraseIdx hk (by simp [hreq])).trans h.alone

/-- `smts_client_send_frame` is entered while the client is counted. -/
theorem Shared.emitSend (h : Shared w d f b (n + 1)) (c : Nat) :
    Shared (w.emit (.sendFrame c (d + 1))) d f b (n + 1) := by
  refine ⟨h.toCounted.own (by omega) (by omega) ?_ rfl (by simp), h.res, h.data, h.ref, h.frame,
    h.dvr, h.alone, h.sends⟩
  refine h.apart.own rfl rfl rfl (fun _ _ => rfl) rfl h.apart.written rfl fun o ho => ?_
  obtain rfl := List.mem_singleton.mp ho
  exact ⟨h.apart.packets _ (.inr rfl), id⟩

/-- One client less, whatever becomes of the send. -/
theorem Shared.smtsClientSendFrame (h : Shared w d f b (n + 1)) (c : Nat) :
    ∃ w', w.smtsClientSendFrame c (d + 1) = some w' ∧ Shared w' d f b n := by
  have h₁ := h.emitSend c
  rw [Server.smtsClientSendFrame]
  dsimp only
  split
  · generalize hsend : (w.emit (.sendFrame c (d + 1))).tcpClientSendMsg (.client c) (d + 1)
      .sendFrame = send
    obtain ⟨w₂, r⟩ := send
    obtain ⟨hz, hne⟩ := h₁.send hsend
    dsimp only
    split
    next hr =>
      obtain ⟨w₃, hdrop, h₃⟩ := (hne hr).drop
      rw [hdrop]
      exact ⟨_, rfl, h₃.spares (h₃.apart.netOnly (.stopSmtsClient ..) (stopSmtsClient_nSessions ..).ge)⟩
    next hr =>
      have h₂ := hz (not_not.mp hr)
      exact ⟨_, rfl, h₂.spares (h₂.apart.emit trivial)⟩
  · exact h₁.drop

/-- The loop over the clients runs to its end, and each client takes its share
of the frame. -/
theorem Shared.foldlM {l : List Nat} (h : Shared w d f b l.length) :
    ∃ w', l.foldlM (fun w c => w.smtsClientSendFrame c (d + 1)) w = some w' ∧
      Shared w' d f b 0 := by
  obtain ⟨w', hrun, hw'⟩ := Links.foldlM_total (I := fun rest w => Shared w d f b rest.length)
    (f := fun w c => w.smtsClientSendFrame c (d + 1))
    (fun c rest w hw => hw.smtsClientSendFrame c) h
  exact ⟨w', hrun, hw'⟩

/-- Later only writes of the response concern the frame. -/
theorem Shared.step {e : Event} (h : Shared w d f b 0) (hstep : Step w e w') : Shared w' d f b 0 := by
  by_cases he : Completes (.relayed d f b) w e
  · obtain ⟨k, status, req, rfl, hk, hp⟩ := he
    have hreq : req.packet = d + 1 := by
      refine hp.resolve_left fun hd => ?_
      have hmem : req ∈ w.writesOf d := List.mem_filter.mpr ⟨List.mem_of_getElem? hk, by simpa using hd⟩
      rw [h.alone] at hmem
      cases hmem
    obtain ⟨-, fuel, hr⟩ := hstep
    obtain ⟨req', hk', hr⟩ := Option.bind_eq_some_iff.mp hr
    obtain rfl := Option.some.inj (hk.symm.trans hk')
    obtain ⟨w₁, hcb, hr⟩ := Option.bind_eq_some_iff.mp hr
    obtain rfl := Option.some.inj hr
    have hmem : req ∈ w.writesOf (d + 1) :=
      List.mem_filter.mpr ⟨List.mem_of_getElem? hk, by simpa using hreq⟩
    obtain ⟨c, hc, hcmd⟩ := h.sends req hmem
    obtain ⟨w₂, hdrop, h₂⟩ := (h.eraseWrite hk hreq).drop
    rw [sendCb, hc, hcmd] at hcb
    simp only [hreq, hdrop, Option.bind_eq_bind, Option.bind_some] at hcb
    have h₁ : Shared w₁ d f b 0 := by
      split at hcb <;> obtain rfl := Option.some.inj hcb
      · exact h₂.spares (h₂.apart.netOnly (.stopSmtsClient ..) (stopSmtsClient_nSessions ..).ge)
      · exact h₂
    exact h₁.spares (h₁.apart.emit trivial)
  · exact h.spares (h.apart.step he hstep)

end Shared

/-! ## A frame arrives -/

/-- The packet was decoded, and the frame points to it. -/
@[simps!]
def arrived (w : Server) (bytes : List Byte) (t : NvmpCmd) : Server :=
  ((w.setHeap (w.heap.receive bytes).1).addCmd t).addFrame (smtsFrameOf w.nCmds t)

section Arrival

variable {w : Server} {s : Nat} {bytes : List Byte} {junk : Int → Byte} {t : NvmpCmd}

/-- The reference the frame takes is the one the decoder gives up. -/
theorem increaseRef_destroy {p : Nat} (h : (w.cmds p).ref = 0) :
    (w.protoCmdIncreaseRef p).protoCmdDestroy p = w := by
  have hcmd : (w.protoCmdIncreaseRef p).cmds p = { w.cmds p with ref := 1 } := by
    rw [protoCmdIncreaseRef_cmds, Function.update_self, Cmd.increaseRef, h]
    rfl
  have hback : ({ w.cmds p with ref := 1 - 1 } : NvmpCmd) = w.cmds p := by
    rw [show (1 : Int) - 1 = (w.cmds p).ref by rw [h]; rfl]
  rw [protoCmdDestroy_shared (by rw [hcmd]; exact one_ne_zero), hcmd]
  change (w.protoCmdIncreaseRef p).setCmd p { w.cmds p with ref := 1 - 1 } = w
  have hcmds : Function.update (w.protoCmdIncreaseRef p).cmds p (w.cmds p) = w.cmds := by
    rw [show (w.protoCmdIncreaseRef p).cmds = Function.update w.cmds p _ from rfl,
      Function.update_idem, Function.update_eq_self]
  rw [hback, setCmd, hcmds]
  rfl

theorem onDvrClientReadFrameCb_eq (w : Server) (s : Nat) (bytes : List Byte) (junk : Int → Byte) :
    ∃ t, dvrDecode (Reader.beyond bytes junk) ⟨w.heap.blocks.length, 0⟩
        (BitVec.ofNat 64 bytes.length) (w.garbage w.nCmds) = some t ∧
      ∀ fuel, w.onDvrClientReadFrameCb fuel s bytes junk
        = (w.arrived bytes t).onSmtsDvrClientRecvFrame fuel s (some w.nFrames) 0 := by
  obtain ⟨t, hdec, -⟩ := dvrDecode_beyond bytes junk ⟨w.heap.blocks.length, 0⟩
    (BitVec.ofNat 64 bytes.length) (w.garbage w.nCmds)
  obtain ⟨href, -⟩ := decode_ledger hdec
  have hcmd : (w.arrived bytes t).cmds w.nCmds = t := by simp [arrived]
  refine ⟨t, hdec, fun fuel => ?_⟩
  have hback := increaseRef_destroy (w := w.arrived bytes t) (p := w.nCmds) (by rw [hcmd, href])
  conv_rhs => rw [← hback]
  have hdec : dvrDecode (Reader.beyond bytes junk) (w.heap.receive bytes).2
    (BitVec.ofNat 64 bytes.length) ((w.setHeap (w.heap.receive bytes).1).garbage
      (w.setHeap (w.heap.receive bytes).1).nCmds) = some t := hdec
  rw [Server.onDvrClientReadFrameCb]
  dsimp only
  rw [hdec]
  rfl

/-- The response is encoded and counts the clients. -/
@[simps!]
def relaying (w w' : Server) (s : Nat) : Server :=
  w'.setCmd w.nCmds { w'.cmds w.nCmds with
    ref := (w'.cmds w.nCmds).ref + (w'.sessions s).clientSize }

theorem onSmtsDvrClientRecvFrame_relay {f : Nat} (hpos : 0 < (w.sessions s).clientSize) :
    ∃ w', (w.emit (.recvFrame s f)).encodeNew (w.frameRes f) = some w' ∧
      ∀ fuel, w.onSmtsDvrClientRecvFrame fuel s (some f) 0
        = (w.relaying w' s).forEachClient fuel s fun c v => v.smtsClientSendFrame c w.nCmds := by
  obtain ⟨block, c, henc, -⟩ := encode_frees (w.emit (.recvFrame s f)).heap (t := w.frameRes f)
    (protocolMap_wellFormed (e := (smtsFrameRes, none)) (by decide))
  obtain ⟨w', hw'⟩ : ∃ w', (w.emit (.recvFrame s f)).encodeNew (w.frameRes f) = some w' := by
    rw [encodeNew, henc]
    exact ⟨_, rfl⟩
  refine ⟨w', hw', fun fuel => ?_⟩
  rw [Server.onSmtsDvrClientRecvFrame, if_neg (by decide)]
  simp only [Option.bind_eq_bind, Option.bind_some]
  rw [if_pos (show 0 < ((w.emit (.recvFrame s f)).sessions s).clientSize from hpos)]
  change ((w.emit (.recvFrame s f)).encodeNew (w.frameRes f)).bind _ = _
  rw [hw']
  rfl

/-- What there is when the loop over the clients begins. -/
structure Relaying (w : Server) (s : Nat) (t t' : NvmpCmd) (v : Server) : Prop
    extends SameNet w v where
  nCmds : v.nCmds = w.nCmds + 2
  nFrames : v.nFrames = w.nFrames + 1
  cmds : v.cmds = Function.update (Function.update w.cmds w.nCmds t) (w.nCmds + 1)
    { t' with ref := (w.sessions s).clientSize }
  frames : v.frames = Function.update w.frames w.nFrames (smtsFrameOf w.nCmds t)
  heap : v.heap.blocks.length = w.heap.blocks.length + 2
  writes : v.writes = w.writes
  log : v.log = w.log ++ [.recvFrame s w.nFrames]
  data : t'.data = some w.nFrames
  frees : t'.frees = [.block ⟨w.heap.blocks.length + 1, 0⟩, .slots, .struct]

theorem relaying_spec {w' : Server}
    (henc : ((w.arrived bytes t).emit (.recvFrame s w.nFrames)).encodeNew
      ((w.arrived bytes t).frameRes w.nFrames) = some w') :
    ∃ t', Relaying w s t t' ((w.arrived bytes t).relaying w' s) := by
  obtain ⟨block, t', rfl, -, hdata, href, hfrees, -⟩ := encodeNew_spec
    (protocolMap_wellFormed (e := (smtsFrameRes, none)) (by decide)) henc
  refine ⟨t', ⟨⟨?_, by simp, ?_, by simp, by simp, by simp⟩, by simp, by simp, ?_, ?_, by simp, by simp,
    by simp, by rw [hdata]; simp [frameRes], by simpa [Heap.receive] using hfrees⟩⟩
  · funext c
    simp
  · funext u
    simp
  · funext q
    by_cases hq : q = w.nCmds + 1
    · subst hq
      simp [href]
    · simp only [relaying_cmds, arrived_nCmds, setHeap_nCmds, emit_nCmds,
        Function.update_of_ne hq, addCmd_cmds, setHeap_cmds, emit_cmds, arrived_cmds]
      rfl
  · funext f
    simp only [relaying_frames, addCmd_frames, setHeap_frames, emit_frames, arrived_frames]
    rfl

/-- Everything that was made for the frame is the frame's. -/
theorem Apart.relaying {v : Server} {t' : NvmpCmd} {n : Nat} (h : Apart .none w)
    (hdec : dvrDecode (Reader.beyond bytes junk) ⟨w.heap.blocks.length, 0⟩
      (BitVec.ofNat 64 bytes.length) (w.garbage w.nCmds) = some t)
    (hsize : (w.sessions s).clientSize = n) (hn : n ≠ 0) (hv : Relaying w s t t' v) :
    Shared v w.nCmds w.nFrames w.heap.blocks.length n := by
  obtain ⟨href, -, hfrees, -⟩ := decode_ledger hdec
  have hg : Grows w v := ⟨hv.nSessions.ge, by rw [hv.nCmds]; omega, by rw [hv.nFrames]; omega,
    by rw [hv.heap]; omega⟩
  have hres : v.cmds (w.nCmds + 1) = { t' with ref := n } := by
    rw [hv.cmds, Function.update_self, hsize]
  have hdvr : v.cmds w.nCmds = t := by
    rw [hv.cmds, Function.update_of_ne (by omega), Function.update_self]
  have hold : ∀ q < w.nCmds, v.cmds q = w.cmds q := fun q hq => by
    rw [hv.cmds, Function.update_of_ne (by omega), Function.update_of_ne (by omega)]
  -- a packet that was made just now is in no write
  have hnone : ∀ q, w.nCmds ≤ q → v.writesOf q = [] := fun q hq =>
    List.filter_eq_nil_iff.mpr fun req hreq => by
      have hlt := h.written req (hv.writes ▸ hreq)
      simpa using (hlt.trans_le hq).ne
  have happart : Apart (.relayed w.nCmds w.nFrames w.heap.blocks.length) v := by
    refine h.since hg (fun q => ?_) (fun f => ?_) (fun q => ?_) hold (fun f hf => ?_)
      (fun req hreq => (h.written req (hv.writes ▸ hreq)).trans_le hg.nCmds) fun o ho => ?_
    · simp only [Objects.relayed, hv.nCmds]
      omega
    · simp only [Objects.relayed, hv.nFrames]
      omega
    · simp only [Objects.relayed, hv.heap]
      omega
    · rw [hv.frames, Function.update_of_ne hf.ne]
    · rw [hv.log] at ho
      rcases List.mem_append.mp ho with ho | ho
      · exact hg.rest _ (h.logged o ho)
      · obtain rfl := List.mem_singleton.mp ho
        trivial
  refine ⟨.fresh h (fun q hq => ?_) (fun f hf => hf.ge) (fun q hq => ?_) happart (.inr rfl)
    (fun _ => resObjects_relayed) hv.log (by simp [Obs.ofMemory]) (by omega), ?_, ?_, ?_, ?_, ?_,
    hnone _ le_rfl, ?_⟩
  · rcases hq with rfl | rfl <;> omega
  · rcases hq with rfl | rfl <;> omega
  · rw [hres]
    exact hv.frees
  · rw [hres]
    exact hv.data
  · rw [hres, hnone _ (Nat.le_succ _)]
    simp
  · rw [hv.frames, Function.update_self, smtsFrameOf]
  · rw [hdvr]
    exact ⟨href, hfrees⟩
  · rw [hnone _ (Nat.le_succ _)]
    simp

/-- Without clients the frame is destroyed at once. -/
structure Unshared (w : Server) (d f b : Nat) : Prop
    extends Counted (.arrived d f b) d (frameObjects d f b) w 0 where
  alone : w.writesOf d = []

theorem frameObjects_arrived {d f b : Nat} {x : Obj} (hx : x ∈ frameObjects d f b) :
    (Obs.free x).ofMemory = true ∧ (Objects.arrived d f b).Within (.free x) := by
  simp only [frameObjects, List.mem_cons, List.not_mem_nil, or_false] at hx
  rcases hx with rfl | rfl | rfl | rfl <;> simp [Obs.ofMemory, Objects.Within, Objects.arrived]

theorem Apart.unshared (h : Apart .none w)
    (hdec : dvrDecode (Reader.beyond bytes junk) ⟨w.heap.blocks.length, 0⟩
      (BitVec.ofNat 64 bytes.length) (w.garbage w.nCmds) = some t) :
    Unshared (((w.arrived bytes t).emit (.recvFrame s w.nFrames)).destroySmtsFrame w.nFrames)
      w.nCmds w.nFrames w.heap.blocks.length := by
  obtain ⟨href, -, hfrees, -⟩ := decode_ledger hdec
  let v := (w.arrived bytes t).emit (.recvFrame s w.nFrames)
  have hnCmds : v.nCmds = w.nCmds + 1 := by simp [v]
  have hnFrames : v.nFrames = w.nFrames + 1 := by simp [v]
  have hheap : v.heap.blocks.length = w.heap.blocks.length + 1 := by simp [v]
  have hwrites : v.writes = w.writes := by simp [v]
  have hlog : v.log = w.log ++ [.recvFrame s w.nFrames] := by simp [v]
  have hcmd : v.cmds w.nCmds = t := by simp [v]
  have hframe : (v.frames w.nFrames).data = w.nCmds := by simp [v, smtsFrameOf]
  -- what was there before is as it was
  have hold : ∀ q < w.nCmds, v.cmds q = w.cmds q := fun q hq => by
    simp only [v, emit_cmds, arrived_cmds, Function.update_of_ne hq.ne]
    rfl
  have holdf : ∀ g < w.nFrames, v.frames g = w.frames g := fun g hg => by
    simp only [v, emit_frames, arrived_frames, Function.update_of_ne hg.ne]
    rfl
  have hg : Grows w v := ⟨by simp [v], by omega, by omega, by omega⟩
  have hnil : v.writesOf w.nCmds = [] := List.filter_eq_nil_iff.mpr fun req hreq => by
    simpa using (h.written req (hwrites ▸ hreq)).ne
  have happart : Apart (.arrived w.nCmds w.nFrames w.heap.blocks.length) v := by
    refine h.since hg (fun q => ?_) (fun g => ?_) (fun q => ?_) hold holdf
      (fun req hreq => (h.written req (hwrites ▸ hreq)).trans_le hg.nCmds) fun o ho => ?_
    · simp only [Objects.arrived, hnCmds]
      omega
    · simp only [Objects.arrived, hnFrames]
      omega
    · simp only [Objects.arrived, hheap]
      omega
    · rw [hlog] at ho
      rcases List.mem_append.mp ho with ho | ho
      · exact hg.rest _ (h.logged o ho)
      · obtain rfl := List.mem_singleton.mp ho
        trivial
  have hfresh : Counted (.arrived w.nCmds w.nFrames w.heap.blocks.length) w.nCmds
      (frameObjects w.nCmds w.nFrames w.heap.blocks.length) v 1 :=
    .fresh h (fun q hq => hq.ge) (fun g hg => hg.ge) (fun q hq => hq.ge) happart rfl
      (fun _ => frameObjects_arrived) hlog (by simp [Obs.ofMemory]) (by omega)
  -- the packet has the one use that the frame makes of it, so all goes at once
  change Unshared (v.destroySmtsFrame w.nFrames) ..
  clear_value v
  rw [destroySmtsFrame_last hframe (by rw [hcmd, href]) (by rw [hcmd, hfrees])]
  refine ⟨hfresh.last hnil rfl ?_ rfl (fun x hx => ?_) (by simp) (fun q hq _ => ?_), hnil⟩
  · refine happart.own rfl rfl rfl (fun _ _ => rfl) rfl happart.written rfl fun o ho => ?_
    obtain ⟨x, hx, rfl⟩ := List.mem_map.mp ho
    exact (frameObjects_arrived hx).2.mono (fun q hq => ⟨happart.packets q hq, id⟩)
      (fun g hg => ⟨happart.frames g hg, id⟩) fun q hq => ⟨happart.blocks q hq, id⟩
  · simp only [frameObjects, List.mem_cons, List.not_mem_nil, or_false] at hx
    rcases hx with rfl | rfl | rfl | rfl <;> simp [frameObjects]
  · obtain rfl : q = ⟨w.heap.blocks.length, 0⟩ := by simpa [frameObjects] using hq
    rfl

theorem Unshared.step {w' : Server} {d f b : Nat} {e : Event} (h : Unshared w d f b)
    (hstep : Step w e w') : Unshared w' d f b := by
  have hs : Spares (.arrived d f b) w w' := h.apart.step (fun he => ?_) hstep
  · exact ⟨h.toCounted.spares hs, (hs.kept.writes d rfl).trans h.alone⟩
  · obtain ⟨k, status, req, -, hk, hp⟩ := he
    have hmem : req ∈ w.writesOf d :=
      List.mem_filter.mpr ⟨List.mem_of_getElem? hk, decide_eq_true hp⟩
    rw [h.alone] at hmem
    cases hmem

/-! ## Freed once -/

/-- A write whose packet is of `V`, or points to it. -/
def Refers (w : Server) (V : Objects) (req : WriteReq) : Prop :=
  V.packets req.packet ∨ (∃ q, V.blocks q ∧ (w.cmds req.packet).Uses q) ∨
    ∃ g, V.frames g ∧ (w.cmds req.packet).data = some g

theorem Apart.packets_of_refers {V : Objects} (h : Apart V w) {req : WriteReq}
    (hreq : req ∈ w.writes) (hrefers : w.Refers V req) : V.packets req.packet := by
  rcases hrefers with hp | ⟨q, hq, huses⟩ | ⟨g, hg, hdata⟩
  · exact hp
  · exact h.uses_of_write hreq hq huses
  · by_contra hV
    exact (h.data _ ⟨h.written req hreq, hV⟩ g hdata).2 hg

theorem Shared.freedOnce {d f b : Nat} (h : Shared w d f b 0) :
    FreedOnce w (resObjects d f b) b (w.Refers (.relayed d f b)) := by
  have hiff : ∀ req ∈ w.writes, w.Refers (.relayed d f b) req → req ∈ w.writesOf (d + 1) :=
    fun req hreq hrefers => by
      rcases h.apart.packets_of_refers hreq hrefers with hp | hp
      · have hmem : req ∈ w.writesOf d := List.mem_filter.mpr ⟨hreq, by simpa using hp⟩
        rw [h.alone] at hmem
        cases hmem
      · exact List.mem_filter.mpr ⟨hreq, by simpa using hp⟩
  refine ⟨fun ⟨req, hreq, hrefers⟩ x hx => ?_, fun hnone x hx => ?_, fun q hq hb => ?_⟩
  · have hpos := List.length_pos_of_mem (hiff req hreq hrefers)
    rw [h.freed x hx, if_neg (by omega)]
  · have hnil : w.writesOf (d + 1) = [] := List.filter_eq_nil_iff.mpr fun req hreq heq =>
      hnone req hreq (.inl (.inr (by simpa using heq)))
    rw [h.freed x hx, hnil]
    rfl
  · have hoff := h.start q hq (.inl hb)
    rw [← hb, ← hoff]

theorem Unshared.freedOnce {d f b : Nat} (h : Unshared w d f b) :
    FreedOnce w (frameObjects d f b) b (w.Refers (.arrived d f b)) ∧
      ∀ req ∈ w.writes, ¬ w.Refers (.arrived d f b) req := by
  have hnone : ∀ req ∈ w.writes, ¬ w.Refers (.arrived d f b) req := fun req hreq hrefers => by
    have hmem : req ∈ w.writesOf d :=
      List.mem_filter.mpr ⟨hreq, decide_eq_true (h.apart.packets_of_refers hreq hrefers)⟩
    rw [h.alone] at hmem
    cases hmem
  refine ⟨⟨fun ⟨req, hreq, hrefers⟩ => absurd hrefers (hnone req hreq), fun _ x hx => ?_,
    fun q hq hb => ?_⟩, hnone⟩
  · rw [h.freed x hx, h.alone]
    rfl
  · have hoff := h.start q hq hb
    rw [← hb, ← hoff]

theorem onSmtsDvrClientRecvFrame_alone {f : Nat} (hsize : (w.sessions s).clientSize = 0)
    (fuel : Nat) : w.onSmtsDvrClientRecvFrame fuel s (some f) 0
      = some ((w.emit (.recvFrame s f)).destroySmtsFrame f) := by
  rw [Server.onSmtsDvrClientRecvFrame, if_neg (by decide)]
  simp only [Option.bind_eq_bind, Option.bind_some]
  exact if_neg (by simp [hsize])

/-- What the callback leaves, if the ring of `s` holds `l`. -/
theorem onDvrClientReadFrameCb_shares {l : List Nat} (bytes : List Byte) (junk : Int → Byte)
    (h : Apart .none w)
    (hring : w.rings.IsRing (.head s) (l.map .client))
    (hsize : (w.sessions s).clientSize = l.length) :
    (∃ fuel w₁, w.onDvrClientReadFrameCb fuel s bytes junk = some w₁) ∧
      ∀ fuel w₁, w.onDvrClientReadFrameCb fuel s bytes junk = some w₁ →
        (l = [] → Unshared w₁ w.nCmds w.nFrames w.heap.blocks.length) ∧
        (l ≠ [] → Shared w₁ w.nCmds w.nFrames w.heap.blocks.length 0) := by
  obtain ⟨t, hdec, hrecv⟩ := onDvrClientReadFrameCb_eq w s bytes junk
  have hsize₁ : ((w.arrived bytes t).sessions s).clientSize = l.length := hsize
  cases l with
  | nil =>
      have halone := onSmtsDvrClientRecvFrame_alone (f := w.nFrames) hsize₁
      refine ⟨⟨0, _, (hrecv 0).trans (halone 0)⟩, fun fuel w₁ hr => ⟨fun _ => ?_, absurd rfl⟩⟩
      rw [hrecv, halone] at hr
      obtain rfl := Option.some.inj hr
      exact h.unshared hdec
  | cons c l =>
      have hpos : 0 < ((w.arrived bytes t).sessions s).clientSize := by
        rw [hsize₁, List.length_cons]
        omega
      obtain ⟨w', henc, hloop⟩ := onSmtsDvrClientRecvFrame_relay (f := w.nFrames) hpos
      obtain ⟨t', hv⟩ := relaying_spec henc
      generalize (w.arrived bytes t).relaying w' s = v at hv hloop
      have hshared := h.relaying hdec hsize (by simp) hv
      have hring : v.rings.IsRing (.head s) ((c :: l).map .client) := hv.rings ▸ hring
      have hbody : ∀ (d : Nat) (a a' : Server), a.smtsClientSendFrame d (w.nCmds + 1) = some a' →
          a'.rings = a.rings ∨ a'.rings = a.rings.remove (.client d) :=
        fun d a a' hd => (smtsClientSendFrame_tame hd).rings
      obtain ⟨w₂, hfold, hw₂⟩ := hshared.foldlM
      refine ⟨⟨(c :: l).length + 1, w₂, ?_⟩, fun fuel w₁ hr =>
        ⟨fun hnil => absurd hnil (List.cons_ne_nil c l), fun _ => ?_⟩⟩
      · rw [hrecv, hloop]
        exact (forEachClient_eq_foldlM hring (Nat.lt_succ_self _) hbody).trans hfold
      · rw [hrecv, hloop] at hr
        have hfold₁ := foldlM_of_forEachClient hring hbody hr
        obtain rfl := Option.some.inj (hfold.symm.trans hfold₁)
        exact hw₂

/-- **A frame is freed once**, with all that is behind it: when the loop is
done with it and the last write queued for it has completed, and at once if
the session has no clients. -/
theorem frame_freedOnce {uv : Nat → Int} {garbage : Nat → Values NvmpName} {es : List Event}
    {w : Server} {s : Nat} {bytes : List Byte} {junk : Int → Byte} {l : List Nat}
    (h : Transition.Run Step (init uv garbage) es w) (hen : w.Enabled (.dvrPacket s bytes junk))
    (hring : w.rings.IsRing (.head s) (l.map .client))
    (hsize : (w.sessions s).clientSize = l.length) :
    let d := w.nCmds
    let f := w.nFrames
    let b := w.heap.blocks.length
    (∃ w₁, Step w (.dvrPacket s bytes junk) w₁) ∧
    ∀ w₁ es' w₂, Step w (.dvrPacket s bytes junk) w₁ → Transition.Run Step w₁ es' w₂ →
      (l = [] → FreedOnce w₂ (frameObjects d f b) b (w₂.Refers (.arrived d f b)) ∧
        ∀ req ∈ w₂.writes, ¬ w₂.Refers (.arrived d f b) req) ∧
      (l ≠ [] → FreedOnce w₂ (resObjects d f b) b (w₂.Refers (.relayed d f b)) ∧
        (∀ q, .free (.block q) ∈ w₂.log → q.block = b + 1 → q = ⟨b + 1, 0⟩) ∧
        w₂.log.Pairwise fun o o' =>
          (∃ x ∈ resObjects d f b, o = .free x) → o'.packet? ≠ some (d + 1)) := by
  intro d f b
  obtain ⟨⟨fuel, w₁, hr⟩, hshares⟩ := onDvrClientReadFrameCb_shares bytes junk (apart_of_run h) hring hsize
  refine ⟨⟨w₁, hen, fuel, hr⟩, fun w₁ es' w₂ hstep hrun => ?_⟩
  obtain ⟨-, fuel, hr⟩ := hstep
  obtain ⟨hnil, hcons⟩ := hshares fuel w₁ hr
  refine ⟨fun hl => ?_, fun hl => ?_⟩
  · exact (hrun.invariant (I := fun w => Unshared w d f b) (fun _ _ _ hu hstep => hu.step hstep)
      (hnil hl)).freedOnce
  · have hw₂ := hrun.invariant (I := fun w => Shared w d f b 0) (fun _ _ _ hs hstep => hs.step hstep)
      (hcons hl)
    refine ⟨hw₂.freedOnce, fun q hq hb => ?_, hw₂.order⟩
    have hoff := hw₂.start q hq (.inr hb)
    rw [← hb, ← hoff]

/-- A DVR's packet with a frame of two bytes in it, all of its fields zero. -/
def zeroDvrFrame : List Byte := [0, 0, 0, 26] ++ List.replicate 22 0

/-- That packet arrives from the DVR of the session `s`. -/
def frameOf (s : Nat) : Event := .dvrPacket s zeroDvrFrame fun _ => 0

/-- The DVR has been told, too, and the answer to the first client is under way. -/
theorem threeClients_spec :
    ∃ w, (init (brokenPipe 17) fun _ => Values.zero).follow 4 (threeClients ++ [.writeDone 0 0]) = some w ∧
      w.Enabled (frameOf 0) ∧ w.rings.IsRing (.head 0) ([2, 1, 0].map .client) ∧
      (w.sessions 0).clientSize = 3 ∧
      [2, 1, 0].map (fun c => (w.clients c).status) = [.onSendFrames, .onSendFrames, .onSendPreviewRes] := by
  have hval : ((init (brokenPipe 17) fun _ => Values.zero).follow 4 (threeClients ++ [.writeDone 0 0])).map
      (fun w => decide (w.Enabled (frameOf 0)) &&
        decide (w.rings.IsRing (.head 0) ([2, 1, 0].map .client)) &&
        decide ((w.sessions 0).clientSize = 3) &&
        decide ([2, 1, 0].map (fun c => (w.clients c).status)
          = [.onSendFrames, .onSendFrames, .onSendPreviewRes]))
      = some true := by
    decide +kernel
  obtain ⟨w, hw, hval⟩ := Option.map_eq_some_iff.mp hval
  simp only [Bool.and_eq_true, decide_eq_true_eq] at hval
  obtain ⟨⟨⟨hen, hring⟩, hsize⟩, hstatuses⟩ := hval
  exact ⟨w, hw, hen, hring, hsize, hstatuses⟩

/-- The write to the last client fails, and the first one is not ready for frames.
The frame is freed when it has been written to the second one. -/
theorem frame_freedOnce_threeClients :
    ∃ w w₁ w₂, (init (brokenPipe 17) fun _ => Values.zero).follow 4
        (threeClients ++ [.writeDone 0 0]) = some w ∧
      Step w (frameOf 0) w₁ ∧ Transition.Run Step w₁ [.writeDone 1 0] w₂ ∧ .stop 2 ∈ w₁.log ∧
      .free (.frame w.nFrames) ∉ w₁.log ∧ .free (.frame w.nFrames) ∈ w₂.log ∧
      FreedOnce w₂ (resObjects w.nCmds w.nFrames w.heap.blocks.length) w.heap.blocks.length
        (w₂.Refers (.relayed w.nCmds w.nFrames w.heap.blocks.length)) := by
  obtain ⟨w, hw, hen, hring, hsize, -⟩ := threeClients_spec
  have hval : ((init (brokenPipe 17) fun _ => Values.zero).follow 4
      (threeClients ++ [.writeDone 0 0])).bind (fun w =>
        (w.follow 4 [frameOf 0]).bind fun w₁ => (w₁.follow 4 [.writeDone 1 0]).map fun w₂ =>
          (w₁.log.contains (.stop 2), w₁.log.contains (.free (.frame w.nFrames)),
            w₂.log.contains (.free (.frame w.nFrames))))
      = some (true, false, true) := by
    decide +kernel
  rw [hw, Option.bind_some] at hval
  obtain ⟨w₁, hw₁, hval⟩ := Option.bind_eq_some_iff.mp hval
  obtain ⟨w₂, hw₂, hval⟩ := Option.map_eq_some_iff.mp hval
  obtain ⟨hstop, hpending, hdone⟩ := by simpa using hval
  have hstep := Transition.Run.single_iff.mp (run_of_follow hw₁)
  have hrun := run_of_follow hw₂
  obtain ⟨-, hfreed⟩ := frame_freedOnce (run_of_follow hw) hen hring hsize
  have hfree := ((hfreed w₁ _ w₂ hstep hrun).2 (by simp)).1
  exact ⟨w, w₁, w₂, hw, hstep, hrun, hstop, hpending, hdone, hfree⟩

end Arrival

end Server

end Smts
