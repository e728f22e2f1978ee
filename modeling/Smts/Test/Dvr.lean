import Smts.Server.Arith
import Smts.Test.Client

/-!
# Test — the mock DVR

`test_mock_dvr.c`: a DVR that sends frames, numbered from 0, once it is asked
for a preview, and ignores every other command.
-/

namespace Smts

open Checked

/-- `FRAME_TYPE_INDEX`. -/
def frameTypeIndex : BitVec 32 := 1

/-- `FRAME_TYPE_PB`. -/
def frameTypePb : BitVec 32 := 2

namespace TestMockDvr

/-- The next frame is an I frame: one of every `iframe_interval_num`. -/
def Iframe (d : TestMockDvr) : Prop := d.seqno.tmod iframeIntervalNum = 0

instance (d : TestMockDvr) : Decidable d.Iframe := inferInstanceAs (Decidable (_ = _))

/-- The length of the data that the next frame is sent with. -/
def binLen (d : TestMockDvr) : Int := if d.Iframe then d.iframeBinLen else d.frameBinLen

theorem binLen_le (d : TestMockDvr) : d.binLen ≤ max d.iframeBinLen d.frameBinLen := by
  rw [binLen]
  split
  next => exact le_max_left ..
  next => exact le_max_right ..

/-- The `mock_dvr_frame_t` that `dvr_send_frame0` makes of its counter and the
frame's bytes. -/
def nextFrame (d : TestMockDvr) (bin : UvBuf) (st : Int) (garbage : Values NvmpName) : NvmpCmd :=
  let frame := Cmd.init mockDvrFrame garbage
  let frame := frame.set Smts.seqno (BitVec.ofInt 32 d.seqno)
  let frame := frame.set frameType (if d.Iframe then frameTypeIndex else frameTypePb)
  let frame := frame.set dvrFrame bin
  frame.set frameSt (BitVec.ofInt 64 st)

end TestMockDvr

/-- A connection of the mock DVR: its `test_mock_dvr_t`, once there was a preview
command, and what became of its socket. -/
structure MockDvr where
  dvr : Option TestMockDvr
  reading : Bool
  closed : Bool
  /-- the packets that were sent -/
  sent : List (List Byte)
deriving DecidableEq, Repr

namespace MockDvr

/-- `on_mock_dvr_connect_cb`. -/
def init : MockDvr := { dvr := none, reading := true, closed := false, sent := [] }

/-- `destroy_test_mock_dvr`. -/
def destroy (x : MockDvr) : MockDvr := { x with closed := true }

/-- `mock_dvr_dispatch_packet`, with an error. -/
def mockDvrReadError (x : MockDvr) : MockDvr := { x with reading := false }

/-- `mock_dvr_dispatch_packet`, with a packet. It has no result when it reads
beyond the packet or its arithmetic goes wrong. -/
def mockDvrDispatchPacket (x : MockDvr) (packet : List Byte) (garbage : Values NvmpName) :
    Option MockDvr := do
  let cmd ← decodeInt32 (Reader.within packet) 4
  if cmd = mockDvrPreview.cmd then
    let t ← decodeAs mockDvrPreview packet garbage
    let d ← (mockDvrPreviewImpl (t.vals bitrate) (t.vals frameRate)).toOption
    some { x with dvr := some d }
  else some x

/-- `dvr_send_frame0`, when libuv takes the frame; `bin` is what is in its
buffer. It has no result when a number does not fit its type. -/
def dvrSendFrame0 (x : MockDvr) (bin : List Byte) (garbage : Values NvmpName) : Option MockDvr := do
  let d ← x.dvr
  let st ← (mul 32 d.seqno d.interval).toOption
  let u : UvBuf := { base := some ⟨0, 0⟩, len := BitVec.ofNat 64 bin.length }
  let bytes ← wireOf ⟨[bin.map some]⟩ (d.nextFrame u st garbage)
  let next ← (add 32 d.seqno 1).toOption
  some { x with dvr := some { d with seqno := next }, sent := x.sent ++ [bytes] }

/-- What the server's preview command makes of it, `n` frames later. -/
def sending (n : Nat) : TestMockDvr :=
  { bitrate := 1000, frameRate := 25, seqno := n, interval := 40
    frameBinLen := 29585, iframeBinLen := 593620 }

section Specs

variable {x : MockDvr} {d : TestMockDvr} {packet bin : List Byte} {garbage : Values NvmpName}

/-- The preview command that the server sends starts it. -/
theorem mockDvrDispatchPacket_preview (x : MockDvr) (garbage : Values NvmpName) :
    x.mockDvrDispatchPacket dvrPreviewPacket garbage = some { x with dvr := some (sending 0) } := by
  have hpacket : dvrPreviewPacket = wordsPacket _ ++ [] := (List.append_nil _).symm
  have hcmd : decodeInt32 (Reader.within dvrPreviewPacket) 4 = some mockDvrPreview.cmd := by
    rw [hpacket]
    exact TestSmtsClient.decodeInt32_wordsPacket rfl
  obtain ⟨t, ht, hser⟩ := decodeAs_flat (T := mockDvrPreview) (by decide) dvrPreviewPacket (by decide)
    garbage
  have hbitrate : t.vals bitrate = 1000 := by
    rw [word_of_serFixed (F := protocolTopFiled) hser rfl (by decide), hpacket]
    exact wordOf_wordsPacket _ _ (i := 2) (by simp)
  have hrate : t.vals frameRate = 25 := by
    rw [word_of_serFixed (F := protocolTopFiled ++ [bitrate]) hser rfl (by decide), hpacket]
    exact wordOf_wordsPacket _ _ (i := 3) (by simp)
  have himpl : (mockDvrPreviewImpl 1000 25).toOption = some (sending 0) := by decide +kernel
  rw [mockDvrDispatchPacket]
  simp only [hcmd, ht, hbitrate, hrate, himpl, Option.bind_eq_bind, Option.bind_some, if_true]

/-- Nothing else is of interest to it. -/
theorem mockDvrDispatchPacket_other (hlen : 8 ≤ packet.length)
    (hcmd : cmdWord packet ≠ mockDvrPreview.cmd) :
    x.mockDvrDispatchPacket packet garbage = some x := by
  have hdec : decodeInt32 (Reader.within packet) 4 = some (cmdWord packet) := by
    rw [decodeInt32_cmd (by rw [packetLenFieldSize]; omega), if_pos hlen]
  rw [mockDvrDispatchPacket]
  simp only [hdec, Option.bind_eq_bind, Option.bind_some, if_neg hcmd]

/-- A frame on the wire: its head, with its number, before what is in the buffer. -/
theorem wireOf_nextFrame (d : TestMockDvr) (st : Int) (garbage : Values NvmpName)
    (hbin : bin.length < 2 ^ 64) :
    ∃ p, wireOf ⟨[bin.map some]⟩ (d.nextFrame
        { base := some ⟨0, 0⟩, len := BitVec.ofNat 64 bin.length } st garbage) = some p ∧
      24 ≤ p.length ∧ wordOf p 8 = BitVec.ofInt 32 d.seqno := by
  let u : UvBuf := { base := some ⟨0, 0⟩, len := BitVec.ofNat 64 bin.length }
  let vals := (d.nextFrame u st garbage).stamped.vals
  have hT : (d.nextFrame u st garbage).type.fields = mockDvrFrame.head ++ [dvrFrame] :=
    mockDvrFrame_endsInPayload.fields_eq
  have hu : (d.nextFrame u st garbage).vals dvrFrame = u := by
    simp [TestMockDvr.nextFrame, Cmd.set]
  obtain ⟨h', t', henc, hwire⟩ := encode_ref_wire ⟨[bin.map some]⟩ (d.nextFrame u st garbage) hT
    mockDvrFrame.head_fixed mockDvrFrame_endsInPayload.wellFormed.head_ne_nil hu rfl
    Nat.zero_lt_one (by decide)
  have hload : (⟨[bin.map some]⟩ : Heap).loadBytes ⟨0, 0⟩ u.len.toNat = some bin := by
    have hlen : u.len.toNat = bin.length := by
      rw [BitVec.toNat_ofNat, Nat.mod_eq_of_lt hbin]
    rw [hlen]
    exact (Heap.loadBytes_of_block rfl 0 bin.length (by omega)).trans (by simp)
  rw [hload] at hwire
  have hhead : mockDvrFrame.head = [packetLen, cmd] ++ Smts.seqno :: [frameType, frameSt] := rfl
  have hlen : (serFixed vals mockDvrFrame.head).length = 24 := length_serFixed ..
  have hseqno : vals Smts.seqno = BitVec.ofInt 32 d.seqno := by
    show (d.nextFrame u st garbage).stamped.vals Smts.seqno = _
    rw [(d.nextFrame u st garbage).stamped_vals (by decide) (by decide)]
    simp [TestMockDvr.nextFrame, Cmd.set]
  refine ⟨serFixed vals mockDvrFrame.head ++ bin, ?_, ?_, ?_⟩
  · rw [wireOf, henc]
    exact hwire
  · rw [List.length_append, hlen]
    omega
  · rw [← wordOf_take _ (n := 24) (by decide), List.take_left' hlen, hhead]
    exact (wordOf_serFixed vals [packetLen, cmd] _ _).trans hseqno

/-- The next frame has the next number, unless its time or the number after it
does not fit. -/
theorem dvrSendFrame0_eq (hd : x.dvr = some d) (hbin : bin.length < 2 ^ 64)
    (garbage : Values NvmpName) :
    ∃ p, 24 ≤ p.length ∧ wordOf p 8 = BitVec.ofInt 32 d.seqno ∧ x.dvrSendFrame0 bin garbage =
      if Fits 32 (d.seqno * d.interval) ∧ Fits 32 (d.seqno + 1) then
        some { x with dvr := some { d with seqno := d.seqno + 1 }, sent := x.sent ++ [p] }
      else none := by
  obtain ⟨p, hp, hlen, hword⟩ := wireOf_nextFrame d (d.seqno * d.interval) garbage hbin
  refine ⟨p, hlen, hword, ?_⟩
  rw [dvrSendFrame0, hd]
  dsimp only [Option.bind_eq_bind, Option.bind_some]
  by_cases hst : Fits 32 (d.seqno * d.interval)
  · rw [mul_ok hst]
    dsimp only [Except.toOption, Option.bind_some]
    rw [hp]
    dsimp only [Option.bind_some]
    by_cases hnext : Fits 32 (d.seqno + 1)
    · rw [add_ok hnext, if_pos ⟨hst, hnext⟩]
      rfl
    · rw [if_neg fun h => hnext h.2, add, fit, if_neg hnext]
      rfl
  · rw [if_neg fun h => hst h.1, mul, fit, if_neg hst]
    rfl

end Specs

end MockDvr

end Smts
