import Smts.Server.Frames
import Smts.Server.Startup
import Smts.Tcp.Framing

/-!
# Server — what a frame becomes

A frame of the DVR's is decoded, kept in an `smts_frame_t` and sent in another
packet, whose second slot points back into the buffer the frame came in. What
is written to the clients is followed from the bytes of the one to the bytes
of the other.
-/

namespace Smts

open Circular

/-- The big-endian word in the four bytes from `k` on. -/
def wordOf (bytes : List Byte) (k : Nat) : BitVec 32 := BigEndian.value 32 ((bytes.drop k).take 4)

/-- What clients are to get for the DVR's packet: another head, of the same
length, before the same payload. -/
def relayed (bytes : List Byte) : List Byte :=
  [BitVec.ofNat 32 bytes.length, sendFrameCmdNo, wordOf bytes 8, 0, 0, wordOf bytes 12].flatMap
    (BigEndian.bytes 4) ++ bytes.drop 24

/-- The target of a write. -/
def Obs.writtenTo : Obs → Option Target
  | .uvWrite t .. => some t
  | _ => none

theorem Obs.isWrite_eq (o : Obs) : o.isWrite = o.writtenTo.isSome := by
  cases o <;> rfl

/-- A word of the packet, where it was read. -/
theorem wordOf_serFixed {ν : Type} (vals : Values ν) (F G : List (Field ν)) (name : FieldName ν) :
    wordOf (serFixed vals (F ++ ⟨.int32, name⟩ :: G)) (prefixLen F) = vals ⟨.int32, name⟩ := by
  have hcons : serFixed vals (⟨.int32, name⟩ :: G)
      = BigEndian.bytes 4 (vals ⟨.int32, name⟩ : BitVec 32) ++ serFixed vals G := rfl
  rw [wordOf, serFixed_append, List.drop_left' (length_serFixed ..), hcons,
    List.take_left' (BigEndian.length_bytes 4 _)]
  exact BigEndian.value_bytes (n := 4) _

theorem wordOf_take (bytes : List Byte) {k n : Nat} (h : k + 4 ≤ n) :
    wordOf (bytes.take n) k = wordOf bytes k := by
  rw [wordOf, wordOf, List.drop_take, List.take_take, Nat.min_eq_left (by omega)]

section Relayed

variable {bytes : List Byte}

theorem length_relayed (hlo : 24 ≤ bytes.length) : (relayed bytes).length = bytes.length := by
  simp [relayed]
  omega

theorem lenWord_relayed (bytes : List Byte) : lenWord (relayed bytes) = BitVec.ofNat 32 bytes.length := by
  rw [lenWord, relayed, List.flatMap_cons, List.append_assoc, List.take_left' (BigEndian.length_bytes 4 _)]
  exact BigEndian.value_bytes (n := 4) _

/-- What is passed on is itself a packet that a client's framing layer can
deliver. -/
theorem relayed_isPacket (hlo : 24 ≤ bytes.length) (hhi : bytes.length ≤ maxPacketLen) :
    IsPacket (relayed bytes) := by
  have hlen := length_relayed hlo
  refine ⟨?_, by omega, by rw [lenWord_relayed, hlen]⟩
  rw [hlen, packetLenFieldSize]
  omega

end Relayed

namespace Server

/-! ## From the DVR's packet to the clients' -/

section Bytes

variable {w : Server} {s : Nat} {bytes : List Byte} {junk : Int → Byte} {t : NvmpCmd}

/-- The fields of a decoded frame: the words of the packet, and the payload
behind its 24 bytes. -/
theorem dvrDecode_vals {base : Ptr} {garbage : Values NvmpName} {len : BitVec 64}
    (hlo : 24 ≤ bytes.length) (hlw : lenWord bytes = BitVec.ofNat 32 bytes.length)
    (hdec : dvrDecode (Reader.beyond bytes junk) base len garbage = some t) :
    t.vals seqno = wordOf bytes 8 ∧ t.vals frameType = wordOf bytes 12 ∧
      t.vals dvrFrame = { base := some (base.add 24)
                          len := (BitVec.ofNat 32 bytes.length - 24).signExtend 64 } := by
  have htake : (Reader.beyond bytes junk).take 0 (prefixLen mockDvrFrame.head)
      = some (bytes.take 24) := Reader.take_beyond junk (Reader.take_within_zero bytes hlo)
  obtain ⟨d, hd, -, hser, hu⟩ := decode_payload_of_take (t := Cmd.init mockDvrFrame garbage)
    mockDvrFrame_endsInPayload.fields_eq mockDvrFrame.head_fixed
    mockDvrFrame_endsInPayload.wellFormed.nodup htake base len
  obtain rfl := Option.some.inj (hd.symm.trans hdec)
  have hhead : mockDvrFrame.head = [packetLen, cmd, seqno, frameType, frameSt] := rfl
  rw [hhead] at hser
  have hword : ∀ (F G : List NvmpField) (name : FieldName NvmpName),
      F ++ ⟨.int32, name⟩ :: G = [packetLen, cmd, seqno, frameType, frameSt] →
      prefixLen F + 4 ≤ 24 → d.vals ⟨.int32, name⟩ = wordOf bytes (prefixLen F) :=
    fun F G name hF hle => by
      rw [← wordOf_take bytes hle, ← hser, ← hF, wordOf_serFixed]
  refine ⟨hword [packetLen, cmd] [frameType, frameSt] _ rfl (by decide),
    hword [packetLen, cmd, seqno] [frameSt] _ rfl (by decide), ?_⟩
  have hplen : d.vals packetLen = BitVec.ofNat 32 bytes.length := by
    rw [hword [] [cmd, seqno, frameType, frameSt] _ rfl (by decide), ← hlw]
    rfl
  rw [hu, hplen]
  rfl

/-- The response that is made of a frame sends the payload behind its own head. -/
theorem encodeNew_frameRes {w' : Server} {f : Nat} {p : Ptr} {payload : List Byte}
    (hdata : (w.frames f).frameData
      = { base := some p, len := (BitVec.ofNat 32 bytes.length - 24).signExtend 64 })
    (hlo : 24 ≤ bytes.length) (hhi : bytes.length < 2 ^ 31) (hblk : p.block < w.heap.blocks.length)
    (hload : w.heap.loadBytes p (bytes.length - 24) = some payload)
    (henc : w.encodeNew (w.frameRes f) = some w') :
    (w'.cmds w.nCmds).wire w'.heap = some ([BitVec.ofNat 32 bytes.length, sendFrameCmdNo,
      (w.frames f).seqno, 0, 0, (w.frames f).type].flatMap (BigEndian.bytes 4) ++ payload) := by
  have hT : (w.frameRes f).type.fields = smtsFrameRes.head ++ [resFrame] :=
    smtsFrameRes_endsInPayload.fields_eq
  have hu : (w.frameRes f).vals resFrame
      = { base := some p, len := (BitVec.ofNat 32 bytes.length - 24).signExtend 64 } := by
    rw [← hdata]
    simp [frameRes, Cmd.set]
  have hul : ((BitVec.ofNat 32 bytes.length - 24).signExtend 64).toNat = bytes.length - 24 :=
    payloadLen_toNat hlo hhi
  obtain ⟨h', t', henc', hwire⟩ := encode_ref_wire w.heap (w.frameRes f) hT smtsFrameRes.head_fixed
    smtsFrameRes_endsInPayload.wellFormed.head_ne_nil hu rfl hblk (by decide)
  rw [encodeNew, henc'] at henc
  obtain rfl := Option.some.inj henc
  simp only [hul, hload, Option.map_some] at hwire
  -- the head, word by word
  have hlen : (w.frameRes f).len = BitVec.ofNat 32 bytes.length := by
    rw [(w.frameRes f).len_ref hT smtsFrameRes.head_fixed hu (Option.some_ne_none _)]
    simp only [hul]
    rw [show prefixLen smtsFrameRes.head + (bytes.length - 24) = bytes.length by
      rw [show prefixLen smtsFrameRes.head = 24 by decide]; omega]
  have hstamped : (w.frameRes f).stamped.vals packetLen = BitVec.ofNat 32 bytes.length ∧
      (w.frameRes f).stamped.vals cmd = sendFrameCmdNo ∧
      (w.frameRes f).stamped.vals seqno = (w.frames f).seqno ∧
      (w.frameRes f).stamped.vals srcAddr = 0 ∧ (w.frameRes f).stamped.vals destAddr = 0 ∧
      (w.frameRes f).stamped.vals frameType = (w.frames f).type := by
    have hkeep : ∀ g : NvmpField, g ≠ packetLen → g ≠ cmd →
        (w.frameRes f).stamped.vals g = (w.frameRes f).vals g :=
      fun g h₁ h₂ => (w.frameRes f).stamped_vals h₁ h₂
    refine ⟨by rw [Cmd.stamped_packetLen, hlen], by rw [Cmd.stamped_cmd]; rfl, ?_, ?_, ?_, ?_⟩
    all_goals rw [hkeep _ (by decide) (by decide)]
    · rfl
    · rfl
    · rfl
    · rfl
  obtain ⟨h₁, h₂, h₃, h₄, h₅, h₆⟩ := hstamped
  have hser : serFixed (w.frameRes f).stamped.vals smtsFrameRes.head
      = [BitVec.ofNat 32 bytes.length, sendFrameCmdNo, (w.frames f).seqno, 0, 0,
        (w.frames f).type].flatMap (BigEndian.bytes 4) := by
    generalize (w.frameRes f).stamped.vals = vals at *
    calc serFixed vals smtsFrameRes.head
        = [vals packetLen, vals cmd, vals seqno, vals srcAddr, vals destAddr, vals frameType].flatMap
            (BigEndian.bytes 4) := rfl
      _ = _ := by rw [h₁, h₂, h₃, h₄, h₅, h₆]
  rw [addCmd_cmds, setHeap_nCmds, Function.update_self, addCmd_heap, setHeap_heap, hwire, hser]

/-- **The bytes of a frame**, when the loop over the clients begins. -/
theorem relaying_wire {w' : Server} (hlo : 24 ≤ bytes.length) (hmax : bytes.length ≤ maxPacketLen)
    (hlw : lenWord bytes = BitVec.ofNat 32 bytes.length)
    (hdec : dvrDecode (Reader.beyond bytes junk) ⟨w.heap.blocks.length, 0⟩
      (BitVec.ofNat 64 bytes.length) (w.garbage w.nCmds) = some t)
    (henc : ((w.arrived bytes t).emit (.recvFrame s w.nFrames)).encodeNew
      ((w.arrived bytes t).frameRes w.nFrames) = some w') :
    let v := (w.arrived bytes t).relaying w' s
    (v.cmds (w.nCmds + 1)).wire v.heap = some (relayed bytes) := by
  intro v
  obtain ⟨hseqno, htype, hframe⟩ := dvrDecode_vals hlo hlw hdec
  let u := (w.arrived bytes t).emit (.recvFrame s w.nFrames)
  have hx : u.frames w.nFrames = smtsFrameOf w.nCmds t := Function.update_self ..
  have hheap : u.heap = (w.heap.receive bytes).1 := rfl
  have hblock : u.heap.blocks[w.heap.blocks.length]? = some (bytes.map some) := by
    rw [hheap]
    exact w.heap.receive_block bytes
  have hload := Heap.loadBytes_of_block hblock 24 (bytes.length - 24) (by omega)
  rw [List.take_of_length_le (by rw [List.length_drop])] at hload
  have henc : u.encodeNew (u.frameRes w.nFrames) = some w' := henc
  have hwire := encodeNew_frameRes (p := ⟨w.heap.blocks.length, 24⟩) (by rw [hx]; exact hframe) hlo
    (lt_of_le_of_lt hmax (by decide)) (by simp [u]) hload henc
  have hv : v.heap = w'.heap ∧ (v.cmds (w.nCmds + 1)).wire v.heap
      = (w'.cmds (w.nCmds + 1)).wire w'.heap := by
    refine ⟨rfl, ?_⟩
    simp only [v, relaying_cmds, arrived_nCmds, Function.update_self, relaying_heap]
    rfl
  have hrelayed : relayed bytes = [BitVec.ofNat 32 bytes.length, sendFrameCmdNo,
      (u.frames w.nFrames).seqno, 0, 0, (u.frames w.nFrames).type].flatMap (BigEndian.bytes 4)
        ++ bytes.drop 24 := by
    rw [relayed, ← hseqno, ← htype, hx]
    rfl
  rw [hv.2, hrelayed]
  exact hwire

end Bytes

/-! ## The loop over the clients -/

/-- The clients `cs` are sent the packet `p`, one after the other, and the
bytes of no packet are changed. -/
structure Sends (p : Nat) (cs : List Nat) (w w' : Server) : Prop where
  wires : ∀ q, (w'.cmds q).wire w'.heap = (w.cmds q).wire w.heap
  log : ∃ m, w'.log = w.log ++ m ∧ m.filterMap Obs.writtenTo = cs.map .client ∧
    ∀ o ∈ m, o.isWrite = true →
      ∃ c r, o = .uvWrite (.client c) p .sendFrame ((w.cmds p).wire w.heap) r

namespace Sends

variable {p : Nat} {cs ds : List Nat} {w w' : Server}

theorem quiet (hwires : ∀ q, (w'.cmds q).wire w'.heap = (w.cmds q).wire w.heap) {m : List Obs}
    (hlog : w'.log = w.log ++ m) (hm : ∀ o ∈ m, o.isWrite = false) : Sends p [] w w' := by
  refine ⟨hwires, m, hlog, ?_, fun o ho hw => ?_⟩
  · refine List.filterMap_eq_nil_iff.mpr fun o ho => ?_
    simpa [Obs.isWrite_eq] using hm o ho
  · rw [hm o ho] at hw
    cases hw

theorem trans {a b c : Server} (h : Sends p cs a b) (h' : Sends p ds b c) :
    Sends p (cs ++ ds) a c := by
  obtain ⟨m, hlog, hto, hm⟩ := h.log
  obtain ⟨m', hlog', hto', hm'⟩ := h'.log
  refine ⟨fun q => (h'.wires q).trans (h.wires q), m ++ m', ?_, ?_, fun o ho hw => ?_⟩
  · rw [hlog', hlog, List.append_assoc]
  · rw [List.filterMap_append, hto, hto', List.map_append]
  · rcases List.mem_append.mp ho with ho | ho
    · exact hm o ho hw
    · obtain ⟨d, r, rfl⟩ := hm' o ho hw
      exact ⟨d, r, by rw [h.wires p]⟩

theorem emit {o : Obs} (ho : o.isWrite = false) : Sends p [] w (w.emit o) :=
  quiet (fun _ => rfl) rfl (by simpa using ho)

theorem netOnly (h : NetOnly w w') : Sends p [] w w' := by
  obtain ⟨m, hlog, hm⟩ := h.log
  exact quiet (fun q => by rw [h.cmds, h.heap]) hlog fun o ho => Obs.isWrite_of_ofMemory (hm o ho)

theorem setRef (q : Nat) (n : Int) : Sends p [] w (w.setCmd q { w.cmds q with ref := n }) := by
  refine quiet (fun x => ?_) (List.append_nil _).symm (by simp)
  by_cases hx : x = q
  · subst hx
    rw [setCmd_cmds, Function.update_self]
    rfl
  · rw [setCmd_cmds, Function.update_of_ne hx]
    rfl

theorem protoCmdDestroy (q : Nat) : Sends p [] w (w.protoCmdDestroy q) := by
  obtain ⟨n, hn⟩ := protoCmdDestroy_eq w q
  rw [hn]
  refine (setRef q n).trans (quiet (fun _ => rfl) rfl fun o ho => ?_)
  obtain ⟨x, -, rfl⟩ := List.mem_map.mp ho
  rfl

theorem onSmtsClientSendFrame {q : Nat} (hr : w.onSmtsClientSendFrame q = some w') :
    Sends p [] w w' := by
  have h₁ : Sends p [] w (w.setCmd q { w.cmds q with ref := (w.cmds q).ref - 1 }) := setRef q _
  obtain ⟨-, rfl⟩ | ⟨-, f, -, rfl⟩ := onSmtsClientSendFrame_cases hr
  · exact h₁
  · exact h₁.trans ((protoCmdDestroy q).trans ((protoCmdDestroy _).trans (emit rfl)))

theorem tcpClientSendMsg {c : Nat} {r : Int}
    (hr : w.tcpClientSendMsg (.client c) p .sendFrame = (w', r)) : Sends p [c] w w' := by
  refine ⟨fun q => ?_, _, tcpClientSendMsg_log hr, rfl, fun o ho _ => ?_⟩
  · obtain ⟨-, rfl⟩ | ⟨-, rfl⟩ := tcpClientSendMsg_cases hr <;> rfl
  · obtain rfl := List.mem_singleton.mp ho
    exact ⟨c, r, rfl⟩

/-- A client is sent the frame if it is ready for frames. -/
theorem smtsClientSendFrame {c : Nat} (hr : w.smtsClientSendFrame c p = some w') :
    Sends p ([c].filter fun d => (w.clients d).status = .onSendFrames) w w' := by
  have h₁ : Sends p [] w (w.emit (.sendFrame c p)) := emit rfl
  obtain ⟨hc, w₂, r, hsend, hcase⟩ | ⟨hc, hdrop⟩ := smtsClientSendFrame_cases hr
  · rw [List.filter_cons_of_pos (by simpa using hc), List.filter_nil]
    have h₂ := h₁.trans (tcpClientSendMsg hsend)
    obtain ⟨-, rfl⟩ | ⟨-, w₃, hdrop, rfl⟩ := hcase
    · exact h₂.trans (emit rfl)
    · exact h₂.trans ((onSmtsClientSendFrame hdrop).trans (netOnly (.stopSmtsClient ..)))
  · rw [List.filter_cons_of_neg (by simpa using hc), List.filter_nil]
    exact h₁.trans (onSmtsClientSendFrame hdrop)

theorem forEachClient {fuel s : Nat}
    (hr : w.forEachClient fuel s (fun c v => v.smtsClientSendFrame c p) = some w') :
    ∃ cs, Sends p cs w w' := by
  refine Links.forEach_preserves (R := fun a b => ∃ cs, Sends p cs a b)
    (fun a => ⟨[], quiet (fun _ => rfl) (List.append_nil _).symm (by simp)⟩)
    (fun ⟨_, h⟩ ⟨_, h'⟩ => ⟨_, h.trans h'⟩) (fun q a b hq => ?_) hr
  cases q with
  | head t => cases hq
  | client c => exact ⟨_, smtsClientSendFrame hq⟩

/-- The loop writes to those who are ready when it begins: no client's status
depends on another's turn. -/
theorem foldlM {l : List Nat} (hl : l.Nodup)
    (hr : l.foldlM (fun w c => w.smtsClientSendFrame c p) w = some w') :
    Sends p (l.filter fun c => (w.clients c).status = .onSendFrames) w w' := by
  induction l generalizing w with
  | nil =>
      obtain rfl := Option.some.inj hr
      exact quiet (fun _ => rfl) (List.append_nil _).symm (by simp)
  | cons c l ih =>
      obtain ⟨w₁, hround, hr⟩ := Option.bind_eq_some_iff.mp hr
      obtain ⟨hc, hl⟩ := List.nodup_cons.mp hl
      have hsame : l.filter (fun d => (w₁.clients d).status = .onSendFrames)
          = l.filter fun d => (w.clients d).status = .onSendFrames :=
        List.filter_congr fun d hd => by
          rw [(smtsClientSendFrame_tame hround).clients d (ne_of_mem_of_not_mem hd hc)]
      have h := (smtsClientSendFrame hround).trans (hsame ▸ ih hl hr)
      rwa [← List.filter_append, List.singleton_append] at h

end Sends

/-! ## Frame by frame -/

section Frame

variable {w w₁ : Server} {fuel s : Nat} {bytes : List Byte} {junk : Int → Byte}

/-- What is written while a frame is passed on. -/
theorem onDvrClientReadFrameCb_sends (hlo : 24 ≤ bytes.length) (hmax : bytes.length ≤ maxPacketLen)
    (hlw : lenWord bytes = BitVec.ofNat 32 bytes.length)
    (hr : w.onDvrClientReadFrameCb fuel s bytes junk = some w₁) :
    ∃ m cs, w₁.log = w.log ++ m ∧ m.filterMap Obs.writtenTo = cs.map .client ∧
      (∀ o ∈ m, o.isWrite = true →
        ∃ c r, o = .uvWrite (.client c) (w.nCmds + 1) .sendFrame (some (relayed bytes)) r) ∧
      ∀ l : List Nat, w.rings.IsRing (.head s) (l.map .client) →
        (w.sessions s).clientSize = l.length →
        cs = l.filter fun c => (w.clients c).status = .onSendFrames := by
  obtain ⟨t, hdec, hrecv⟩ := onDvrClientReadFrameCb_eq w s bytes junk
  rw [hrecv] at hr
  -- with nobody attached the frame is destroyed, and nothing written
  by_cases hpos : 0 < (w.sessions s).clientSize
  · obtain ⟨w', henc, hloop⟩ := onSmtsDvrClientRecvFrame_relay (w := w.arrived bytes t)
      (f := w.nFrames) hpos
    have hwire := relaying_wire hlo hmax hlw hdec henc
    obtain ⟨t', hv⟩ := relaying_spec henc
    rw [hloop] at hr
    generalize (w.arrived bytes t).relaying w' s = v at hv hr hwire
    have hr : v.forEachClient fuel s (fun c u => u.smtsClientSendFrame c (w.nCmds + 1)) = some w₁ := hr
    obtain ⟨cs, hsends⟩ := Sends.forEachClient hr
    have hlog : ∃ m, w₁.log = w.log ++ m ∧ m.filterMap Obs.writtenTo = cs.map .client ∧
        ∀ o ∈ m, o.isWrite = true →
          ∃ c r, o = .uvWrite (.client c) (w.nCmds + 1) .sendFrame (some (relayed bytes)) r := by
      obtain ⟨m, hm, hto, hmo⟩ := hsends.log
      refine ⟨.recvFrame s w.nFrames :: m, by rw [hm, hv.log]; simp, hto, fun o ho hw => ?_⟩
      rcases List.mem_cons.mp ho with rfl | ho
      · cases hw
      · exact hwire ▸ hmo o ho hw
    obtain ⟨m, hm, hto, hmo⟩ := hlog
    refine ⟨m, cs, hm, hto, hmo, fun l hring _ => ?_⟩
    have hring : v.rings.IsRing (.head s) (l.map .client) := hv.rings ▸ hring
    -- the loop goes around the ring, where each client is once
    have hfold := foldlM_of_forEachClient hring (fun c a b hb => (smtsClientSendFrame_tame hb).rings) hr
    have hexact := Sends.foldlM (List.Nodup.of_map _ hring.nodes_nodup) hfold
    obtain ⟨m₁, hm₁, hto₁, -⟩ := hsends.log
    obtain ⟨m₂, hm₂, hto₂, -⟩ := hexact.log
    obtain rfl := List.append_cancel_left (hm₁.symm.trans hm₂)
    rw [← hv.clients]
    exact List.map_injective_iff.mpr (fun _ _ => Target.client.inj) (hto₁.symm.trans hto₂)
  · obtain ⟨hpos', -⟩ | ⟨-, rfl⟩ := onSmtsDvrClientRecvFrame_cases hr
    · exact absurd hpos' hpos
    · have hsends : Sends (w.nCmds + 1) [] (w.arrived bytes t)
          (((w.arrived bytes t).emit (.recvFrame s w.nFrames)).destroySmtsFrame w.nFrames) :=
        (Sends.emit rfl).trans ((Sends.protoCmdDestroy _).trans (Sends.emit rfl))
      obtain ⟨m, hm, hto, -⟩ := hsends.log
      rw [arrived_log] at hm
      refine ⟨m, [], hm, hto, fun o ho hw => ?_, fun l _ hsize => ?_⟩
      · rw [Obs.isWrite_eq, List.filterMap_eq_nil_iff.mp hto o ho] at hw
        cases hw
      · have hnil : l = [] := List.eq_nil_of_length_eq_zero (by omega)
        rw [hnil, List.filter_nil]

/-- **Clients get the DVR's frames.** Whatever a frame causes to be written is
written to a client and is the frame, in a packet that can be received again;
in a session whose ring is as it should be, every client that is ready for
frames gets it once, in the order of the ring. -/
theorem frame_relayed {uv : Nat → Int} {garbage : Nat → Values NvmpName} {es : List Event}
    (h : Transition.Run Step (init uv garbage) es w) (hen : w.Enabled (.dvrPacket s bytes junk))
    (hlo : 24 ≤ bytes.length) :
    IsPacket (relayed bytes) ∧ (relayed bytes).length = bytes.length ∧
    (∀ w₁, Step w (.dvrPacket s bytes junk) w₁ → ∃ m, w₁.log = w.log ++ m ∧
      (∀ o ∈ m, o.isWrite = true →
        ∃ c r, o = .uvWrite (.client c) (w.nCmds + 1) .sendFrame (some (relayed bytes)) r) ∧
      ∀ l : List Nat, w.rings.IsRing (.head s) (l.map .client) →
        (w.sessions s).clientSize = l.length →
        m.filterMap Obs.writtenTo
          = (l.filter fun c => (w.clients c).status = .onSendFrames).map .client) ∧
    ∀ l : List Nat, w.rings.IsRing (.head s) (l.map .client) →
      (w.sessions s).clientSize = l.length → ∃ w₁, Step w (.dvrPacket s bytes junk) w₁ := by
  have ⟨_, _, _, _, hmax, hlw⟩ := hen
  refine ⟨relayed_isPacket hlo hmax, length_relayed hlo, fun w₁ ⟨_, fuel, hr⟩ => ?_,
    fun l hring hsize => ?_⟩
  · obtain ⟨m, cs, hlog, hto, hm, hcs⟩ := onDvrClientReadFrameCb_sends hlo hmax hlw hr
    exact ⟨m, hlog, hm, fun l hring hsize => by rw [hto, hcs l hring hsize]⟩
  · obtain ⟨⟨fuel, w₁, hr⟩, -⟩ := onDvrClientReadFrameCb_shares bytes junk (apart_of_run h) hring hsize
    exact ⟨w₁, hen, fuel, hr⟩

/-- The two clients that are ready for frames are written to, though the first of
these writes fails. -/
theorem frame_relayed_threeClients :
    ∃ w w₁ m, (init (brokenPipe 17) fun _ => Values.zero).follow 4
        (threeClients ++ [.writeDone 0 0]) = some w ∧
      Step w (frameOf 0) w₁ ∧ w₁.log = w.log ++ m ∧ .stop 2 ∈ w₁.log ∧
      m.filterMap Obs.writtenTo = [.client 2, .client 1] := by
  obtain ⟨w, hw, hen, hring, hsize, hstatuses⟩ := threeClients_spec
  have hval : ((init (brokenPipe 17) fun _ => Values.zero).follow 4
      (threeClients ++ [.writeDone 0 0])).bind (fun w =>
        (w.follow 4 [frameOf 0]).map fun w₁ => w₁.log.contains (.stop 2)) = some true := by
    decide +kernel
  rw [hw, Option.bind_some] at hval
  obtain ⟨w₁, hw₁, hstop⟩ := Option.map_eq_some_iff.mp hval
  have hstep := Transition.Run.single_iff.mp (run_of_follow hw₁)
  obtain ⟨-, -, hsends, -⟩ := frame_relayed (run_of_follow hw) hen (by decide)
  obtain ⟨m, hlog, -, hto⟩ := hsends w₁ hstep
  refine ⟨w, w₁, m, hw, hstep, hlog, by simpa using hstop, ?_⟩
  obtain ⟨h₂, h₁, h₀⟩ := by simpa using hstatuses
  rw [hto [2, 1, 0] hring hsize]
  simp [h₂, h₁, h₀]

end Frame

end Server

end Smts
