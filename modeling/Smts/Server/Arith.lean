import Smts.Lib.Checked
import Smts.Server.Dvrs

/-!
# Server — the arithmetic of a dispatched packet

What the handlers divide, multiply and allocate, up to the first fault. The
handler of `mock_dvr_preview`, in `test_mock_dvr.c`, is the only one that
computes with numbers the client chose.
-/

namespace Smts

open Checked

/-! ## test_mock_dvr.c -/

/-- `IFRAME_INTERVAL_NUM`. -/
def iframeIntervalNum : Int := 50

/-- `IFRAME_TIMES_OF_P_FREAME`. -/
def iframeTimesOfPFreame : Int := 20

/-- What `mock_dvr_preview_impl` leaves in a `test_mock_dvr_t`; of the two
buffers, the lengths. -/
structure TestMockDvr where
  bitrate : BitVec 32
  frameRate : BitVec 32
  seqno : Int
  interval : Int
  frameBinLen : Int
  iframeBinLen : Int
deriving DecidableEq, Repr

/-- `mock_dvr_preview_impl`, up to `dvr_start_send_frame`. -/
def mockDvrPreviewImpl (bitrate frameRate : BitVec 32) : Except Fault TestMockDvr := do
  let bytes ← mul 32 bitrate.toInt 1024
  let frames ← div iframeIntervalNum frameRate.toInt
  let total ← mul 32 bytes frames
  let pFrameBitreate ← div total (iframeTimesOfPFreame + iframeIntervalNum - 1)
  let iFrameBitrate ← mul 32 pFrameBitreate iframeTimesOfPFreame
  let interval ← div 1000 frameRate.toInt
  malloc (pFrameBitreate - 64 - 32)
  malloc iFrameBitrate
  .ok
    { bitrate := bitrate, frameRate := frameRate, seqno := 0, interval := interval
      frameBinLen := pFrameBitreate - 64 - 32, iframeBinLen := iFrameBitrate }

example : mockDvrPreviewImpl 1000 25 = .ok
    { bitrate := 1000, frameRate := 25, seqno := 0, interval := 40
      frameBinLen := 29585, iframeBinLen := 593620 } := by decide +kernel

example : mockDvrPreviewImpl 1000 0 = .error .divisionByZero := by decide +kernel

/-- What a client can ask the mock DVR for: frames that are neither too large
for an `int` nor too small for their own head. -/
def Affordable (bitrate frameRate : BitVec 32) : Prop :=
  frameRate.toInt ≠ 0 ∧ 7 ≤ bitrate.toInt * iframeIntervalNum.tdiv frameRate.toInt ∧
    bitrate.toInt * iframeIntervalNum.tdiv frameRate.toInt < 2 ^ 21

/-- A factor of a positive number is no larger. -/
theorem natAbs_le_of_mul_pos {b q : Int} (h : 0 < b * q) : b.natAbs ≤ (b * q).natAbs := by
  have hq : q ≠ 0 := by
    rintro rfl
    simp at h
  rw [Int.natAbs_mul]
  exact Nat.le_mul_of_pos_right _ (Int.natAbs_pos.mpr hq)

/-- Between the two bounds all sizes are right. -/
theorem frameSizes_iff (b q : Int) :
    (Fits 32 (b * 1024) ∧ Fits 32 (b * 1024 * q) ∧ Fits 32 ((b * 1024 * q).tdiv 69 * 20) ∧
      0 ≤ (b * 1024 * q).tdiv 69 - 64 - 32 ∧ 0 ≤ (b * 1024 * q).tdiv 69 * 20) ↔
    7 ≤ b * q ∧ b * q < 2 ^ 21 := by
  have htotal : b * 1024 * q = b * q * 1024 := by ring
  rw [htotal]
  simp only [Fits, Nat.add_one_sub_one, Nat.reducePow, Nat.cast_ofNat]
  constructor
  · rintro ⟨-, ⟨-, hmax⟩, -, hmin, -⟩
    refine ⟨?_, by omega⟩
    by_contra hlt
    have hsmall : (b * q * 1024).tdiv 69 < 96 := by
      rcases Int.le_total 0 (b * q * 1024) with hn | hn
      · rw [Int.tdiv_eq_ediv_of_nonneg hn]
        omega
      · have := Int.tdiv_nonneg (Int.neg_nonneg_of_nonpos hn) (show (0 : Int) ≤ 69 by decide)
        rw [Int.neg_tdiv] at this
        omega
    omega
  · rintro ⟨hmin, hmax⟩
    have hb := natAbs_le_of_mul_pos (show 0 < b * q by omega)
    rw [Int.tdiv_eq_ediv_of_nonneg (show 0 ≤ b * q * 1024 by omega)]
    generalize b * q = n at *
    refine ⟨⟨?_, ?_⟩, ⟨?_, ?_⟩, ⟨?_, ?_⟩, ?_, ?_⟩ <;> omega

theorem mockDvrPreviewImpl_ok_iff (bitrate frameRate : BitVec 32) :
    (∃ dvr, mockDvrPreviewImpl bitrate frameRate = .ok dvr) ↔ Affordable bitrate frameRate := by
  rw [Affordable, ← frameSizes_iff]
  simp only [mockDvrPreviewImpl, bind_ok_iff, mul_ok_iff, div_ok_iff, malloc_ok_iff,
    iframeTimesOfPFreame]
  constructor
  · rintro ⟨dvr, bytes, ⟨hbytes, rfl⟩, frames, ⟨hrate, rfl⟩, total, ⟨htotal, rfl⟩, p, ⟨-, rfl⟩, i,
      ⟨hi, rfl⟩, interval, -, -, hframe, -, hiframe, -⟩
    exact ⟨hrate, hbytes, htotal, hi, hframe, hiframe⟩
  · rintro ⟨hrate, hbytes, htotal, hi, hframe, hiframe⟩
    exact ⟨_, _, ⟨hbytes, rfl⟩, _, ⟨hrate, rfl⟩, _, ⟨htotal, rfl⟩, _, ⟨by decide, rfl⟩, _,
      ⟨hi, rfl⟩, _, ⟨hrate, rfl⟩, (), hframe, (), hiframe, rfl⟩

/-! ## The other handlers -/

/-- The structs whose `sizeof` the code asks for. -/
inductive CStruct where
  | cmd (T : NvmpType)
  | uvBuf
  | clientWriteReq
  | clientConnectReq
  | smtsSession
deriving DecidableEq, Repr

/-- What a handler finds and is told on its way. -/
structure Answers where
  /-- there is a session with the key -/
  found : Bool
  /-- the client has been sent nothing yet -/
  onInit : Bool
  /-- `init_smts_dvr_client` or `add_session` fails -/
  initFails : Bool
  /-- how many local addresses there are, and whose turn it is -/
  count : Nat
  index : Nat
  /-- a later call of `tcp_client_connect` fails -/
  connectFails : Bool
  /-- the client has a session -/
  attached : Bool
deriving DecidableEq, Repr

section Handlers

variable (sizeof : CStruct → Nat)

/-- `tcp_client_send_msg`. -/
def sendMsgArith : Except Fault Unit := malloc (sizeof .clientWriteReq)

/-- A response of type `T` is made, encoded and sent: `GEN_STRUCT_BUFS_ALLOC`
asks for one slot, `GEN_STRUCT_BUFS_INNER_ALLOC` for the bytes of all fields. -/
def responseArith (T : NvmpType) : Except Fault Unit := do
  malloc (sizeof (.cmd T))
  malloc ((1 * sizeof .uvBuf : Nat) : Int)
  malloc (prefixLen T.fields)
  sendMsgArith sizeof

/-- `tcp_client_connect`, with `smts_get_one_addrs`. -/
def connectArith (a : Answers) : Except Fault Unit := do
  malloc (sizeof .clientConnectReq)
  if 0 < a.count then
    let _ ← rem (a.index + 1) a.count
    .ok ()
  else .ok ()

/-- `smts_start_preview`. -/
def smtsStartPreviewArith (a : Answers) (dvrId : BitVec 64) : Except Fault Unit :=
  if a.found then
    if a.onInit then responseArith sizeof previewCmdRes else .ok ()
  else do
    malloc (sizeof .smtsSession)
    let _ ← rem dvrId.toInt dvrIps.length
    if a.initFails then responseArith sizeof previewCmdRes
    else do
      connectArith sizeof a
      if a.count = 0 ∨ a.connectFails then responseArith sizeof previewCmdRes else .ok ()

/-- `msg_channel`. -/
def msgChannelArith (a : Answers) : Except Fault Unit := do
  if a.attached then sendMsgArith sizeof else .ok ()
  responseArith sizeof commonRes

/-- The arithmetic of the handler that a decoded packet is given to. -/
def callArith (a : Answers) (t : NvmpCmd) : Option CmdImp → Except Fault Unit
  | none => .ok ()
  | some .smtsStartPreview => smtsStartPreviewArith sizeof a (t.vals dvrId)
  | some .mockDvrPreviewImpl => do
      let _ ← mockDvrPreviewImpl (t.vals bitrate) (t.vals frameRate)
      .ok ()
  | some .msgChannel => msgChannelArith sizeof a

/-- `dispatch_packet`: the struct, the slot the packet becomes, the handler. -/
def dispatchArith (a : Answers) : Option (NvmpCmd × Option CmdImp) → Except Fault Unit
  | none => .ok ()
  | some (t, imp) => do
      malloc (sizeof (.cmd t.type))
      malloc (sizeof .uvBuf)
      callArith sizeof a t imp

/-- No fault on any way through the packet's handler. -/
def ArithInOrder (bytes : List Byte) (junk : Int → Byte) : Prop :=
  ∀ a base garbage found, dispatchDecode (Reader.beyond bytes junk) base
    (BitVec.ofNat 64 bytes.length) garbage = some found → dispatchArith sizeof a found = .ok ()

variable {sizeof}

theorem sendMsgArith_ok : sendMsgArith sizeof = .ok () := malloc_natCast _

theorem responseArith_ok (T : NvmpType) : responseArith sizeof T = .ok () := by
  simp only [responseArith, bind_ok (malloc_natCast _), sendMsgArith_ok]

theorem connectArith_ok (a : Answers) : connectArith sizeof a = .ok () := by
  rw [connectArith, bind_ok (malloc_natCast _)]
  split
  next hcount =>
    have hrem : rem (a.index + 1) a.count = .ok (Int.tmod (a.index + 1) a.count) :=
      rem_ok_iff.mpr ⟨by exact_mod_cast hcount.ne', rfl⟩
    rw [hrem]
    rfl
  next => rfl

theorem smtsStartPreviewArith_ok (a : Answers) (dvrId : BitVec 64) :
    smtsStartPreviewArith sizeof a dvrId = .ok () := by
  have hrem : rem dvrId.toInt dvrIps.length = .ok (dvrId.toInt.tmod dvrIps.length) :=
    rem_ok_iff.mpr ⟨by decide, rfl⟩
  rw [smtsStartPreviewArith]
  split
  · split
    · exact responseArith_ok _
    · rfl
  · rw [bind_ok (malloc_natCast _), hrem]
    change (if a.initFails then _ else _) = _
    split
    · exact responseArith_ok _
    · rw [bind_ok (connectArith_ok a)]
      split
      · exact responseArith_ok _
      · rfl

theorem msgChannelArith_ok (a : Answers) : msgChannelArith sizeof a = .ok () := by
  rw [msgChannelArith, responseArith_ok, sendMsgArith_ok, ite_self]
  rfl

/-- Only the mock DVR's handler can go wrong. -/
theorem callArith_ok_iff (a : Answers) (t : NvmpCmd) (imp : Option CmdImp) :
    callArith sizeof a t imp = .ok () ↔
      (imp = some .mockDvrPreviewImpl → Affordable (t.vals bitrate) (t.vals frameRate)) := by
  cases imp with
  | none => simp [callArith]
  | some imp =>
      cases imp with
      | smtsStartPreview => simp [callArith, smtsStartPreviewArith_ok]
      | msgChannel => simp [callArith, msgChannelArith_ok]
      | mockDvrPreviewImpl =>
          rw [← mockDvrPreviewImpl_ok_iff, callArith, bind_ok_iff]
          simp

theorem dispatchArith_ok_iff (a : Answers) (t : NvmpCmd) (imp : Option CmdImp) :
    dispatchArith sizeof a (some (t, imp)) = .ok () ↔
      (imp = some .mockDvrPreviewImpl → Affordable (t.vals bitrate) (t.vals frameRate)) := by
  rw [dispatchArith, bind_ok (malloc_natCast _), bind_ok (malloc_natCast _), callArith_ok_iff]

end Handlers

/-! ## Whole packets -/

/-- Only a `mock_dvr_preview` is given to `mock_dvr_preview_impl`. -/
theorem mockDvrPreviewImpl_type : ∀ e ∈ protocolMap,
    e.2 = some .mockDvrPreviewImpl → e.1 = mockDvrPreview := by
  decide

theorem decodeInt32_beyond (bytes : List Byte) (junk : Int → Byte) (i : Int) :
    ∃ v, decodeInt32 (Reader.beyond bytes junk) i = some v := by
  obtain ⟨bs, hbs⟩ := Reader.take_beyond_some bytes junk i 4
  exact ⟨_, by rw [decodeInt32, decodeInt_value, hbs, Option.map_some]⟩

/-- The four fields of a `mock_dvr_preview` lie one behind the other. -/
theorem mockDvrPreview_decode {read : Reader} (base : Ptr) (len : BitVec 64)
    (garbage : Values NvmpName) {n c b f : BitVec 32} (hn : decodeInt32 read 0 = some n)
    (hc : decodeInt32 read 4 = some c) (hb : decodeInt32 read 8 = some b)
    (hf : decodeInt32 read 12 = some f) :
    ∃ t, (Cmd.init mockDvrPreview garbage).decode read base len = some t ∧
      t.vals bitrate = b ∧ t.vals frameRate = f := by
  have hfields : (Cmd.init mockDvrPreview garbage).type.fields
      = [packetLen, cmd, bitrate, frameRate] := rfl
  rw [Cmd.decode, hfields]
  simp only [decodeFields, decodeField, Option.bind_eq_bind, hn, Option.bind_some, zero_add, hc,
    Int.reduceAdd, hb, hf]
  refine ⟨_, rfl, ?_, ?_⟩ <;> dsimp only
  · rw [Function.update_of_ne (by decide), Function.update_self]
  · rw [Function.update_self]

/-- What a `mock_dvr_preview` asks for has to go together. -/
theorem ArithInOrder.affordable {sizeof : CStruct → Nat} {bytes : List Byte} {junk : Int → Byte}
    (h : ArithInOrder sizeof bytes junk)
    (hc : decodeInt32 (Reader.beyond bytes junk) 4 = some mockDvrPreview.cmd) {b f : BitVec 32}
    (hb : decodeInt32 (Reader.beyond bytes junk) 8 = some b)
    (hf : decodeInt32 (Reader.beyond bytes junk) 12 = some f) : Affordable b f := by
  obtain ⟨n, hn⟩ := decodeInt32_beyond bytes junk 0
  obtain ⟨t, hdec, rfl, rfl⟩ := mockDvrPreview_decode ⟨0, 0⟩
    (BitVec.ofNat 64 bytes.length) Values.zero hn hc hb hf
  have hfind : (protocolMap.find? fun e => e.1.cmd == mockDvrPreview.cmd)
      = some (mockDvrPreview, some .mockDvrPreviewImpl) := by
    decide
  have hdispatch : dispatchDecode (Reader.beyond bytes junk) ⟨0, 0⟩
      (BitVec.ofNat 64 bytes.length) Values.zero = some (some (t, some .mockDvrPreviewImpl)) := by
    simp only [dispatchDecode, hc, Option.bind_eq_bind, Option.bind_some, hfind, hdec]
  exact (dispatchArith_ok_iff _ t _).mp
    (h ⟨false, false, false, 0, 0, false, false⟩ _ _ _ hdispatch) rfl

/-- **When a packet's arithmetic is in order**: when it is no `mock_dvr_preview`, or
one with a bitrate and a frame rate that go together. -/
theorem arithInOrder_iff (sizeof : CStruct → Nat) (bytes : List Byte) (junk : Int → Byte) :
    ArithInOrder sizeof bytes junk ↔
      (decodeInt32 (Reader.beyond bytes junk) 4 = some mockDvrPreview.cmd →
        ∀ b f, decodeInt32 (Reader.beyond bytes junk) 8 = some b →
          decodeInt32 (Reader.beyond bytes junk) 12 = some f → Affordable b f) := by
  constructor
  · intro hall hc b f hb hf
    exact hall.affordable hc hb hf
  · intro hmock a base garbage found hfound
    cases found with
    | none => rfl
    | some p =>
        obtain ⟨t, imp⟩ := p
        refine (dispatchArith_ok_iff a t imp).mpr ?_
        rintro rfl
        obtain ⟨T, hT, hcmd, hdec⟩ := Server.dispatchDecode_spec hfound
        obtain rfl := mockDvrPreviewImpl_type _ hT rfl
        obtain ⟨n, hn⟩ := decodeInt32_beyond bytes junk 0
        obtain ⟨b, hb⟩ := decodeInt32_beyond bytes junk 8
        obtain ⟨f, hf⟩ := decodeInt32_beyond bytes junk 12
        obtain ⟨t', hdec', rfl, rfl⟩ := mockDvrPreview_decode _ _ _ hn hcmd hb hf
        obtain rfl := Option.some.inj (hdec.symm.trans hdec')
        exact hmock hcmd _ _ hb hf

/-- A `mock_dvr_preview` that asks for 1000 kB in no frames at all. -/
def noFramesCmd : List Byte := [0, 0, 0, 16, 0, 1, 0x80, 1, 0, 0, 3, 0xe8, 0, 0, 0, 0]

/-- This packet can be delivered, and its handler divides by zero. -/
theorem not_arithInOrder_noFrames :
    Deliverable noFramesCmd ∧ ¬ ArithInOrder (fun _ => 8) noFramesCmd fun _ => 0 := by
  refine ⟨by decide +kernel, fun hall => ?_⟩
  have hc : decodeInt32 (Reader.beyond noFramesCmd fun _ => 0) 4 = some mockDvrPreview.cmd := by
    decide +kernel
  have hb : decodeInt32 (Reader.beyond noFramesCmd fun _ => 0) 8 = some 1000 := by decide +kernel
  have hf : decodeInt32 (Reader.beyond noFramesCmd fun _ => 0) 12 = some 0 := by decide +kernel
  exact (hall.affordable hc hb hf).1 (by decide)

end Smts
