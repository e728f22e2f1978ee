import Smts.Server.Commands
import Smts.Server.Conversation

/-!
# Test — the test client

`test_smts_client.c`: a client that asks for a preview, sends one command when
it is answered, and asserts what it can of every packet that it is sent. Its own
calls of libuv, which it asserts to be successful, are.
-/

namespace Smts

open Checked

/-! ## Packets of the test programs -/

/-- The bytes that `tcp_client_send_msg` puts on the wire for a packet. -/
def wireOf (h : Heap) (t : NvmpCmd) : Option (List Byte) := do
  let (h, t) ← t.encode h
  t.wire h

/-- A packet that was received, as a `T`. -/
def decodeAs (T : NvmpType) (packet : List Byte) (garbage : Values NvmpName) : Option NvmpCmd :=
  (Cmd.init T garbage).decode (Reader.within packet) ⟨0, 0⟩ (BitVec.ofNat 64 packet.length)

section Packets

variable {T : NvmpType} {t : NvmpCmd} {packet : List Byte}

theorem wireOf_flat (h : Heap) (hT : t.type ∈ payloadFreeTypes) :
    wireOf h t = some (serFixed t.stamped.vals t.type.fields) := by
  obtain ⟨hwf, hF⟩ := payloadFree_spec hT
  have hhead : t.type.fields = t.type.head := by
    have hall : t.type.fields.all (fun f => !f.type.isRef) = true :=
      List.all_eq_true.mpr fun f hf => by simp [hF f hf]
    exact (List.takeWhile_eq_self_iff.mpr fun f hf => List.all_eq_true.mp hall f hf).symm
  have hnarrow := hwf.narrow
  obtain ⟨h', t', henc, hwire⟩ :=
    encode_flat_wire h hF (hhead ▸ hwf.head_ne_nil) (by rw [hhead]; omega)
  rw [wireOf, henc]
  exact hwire

/-- A word of a packet that was decoded. -/
theorem word_of_serFixed {vals : Values NvmpName} {H F G : List NvmpField} {name : FieldName NvmpName}
    (hser : serFixed vals H = packet.take (prefixLen H)) (hH : H = F ++ ⟨.int32, name⟩ :: G)
    (hle : prefixLen F + 4 ≤ prefixLen H) : vals ⟨.int32, name⟩ = wordOf packet (prefixLen F) := by
  rw [← wordOf_take packet hle, ← hser, hH, wordOf_serFixed]

/-- The members of a packet without payload. -/
theorem decodeAs_flat (hT : T ∈ payloadFreeTypes) (packet : List Byte)
    (hlen : prefixLen T.fields ≤ packet.length) (garbage : Values NvmpName) :
    ∃ d, decodeAs T packet garbage = some d ∧
      serFixed d.vals T.fields = packet.take (prefixLen T.fields) := by
  obtain ⟨hwf, hF⟩ := payloadFree_spec hT
  obtain ⟨d, hd, -, hser⟩ := decode_fixed (t := Cmd.init T garbage) hF hwf.nodup hlen ⟨0, 0⟩
    (BitVec.ofNat 64 packet.length)
  exact ⟨d, hd, hser⟩

end Packets

/-! ## test_smts_client.c -/

/-- `TERMINATE_SEQNO`. -/
def terminateSeqno : Int := 20

/-- The assertions that `test_client_on_read_packet` makes on what it receives. -/
inductive TestAssert where
  /-- `CHECK_RES_CMD` -/
  | checkResCmd
  /-- `0 == res->status`, of a `preview_cmd_res_t` -/
  | previewStatus
  /-- `++test_client->cur_frame_seq == frame->seqno` -/
  | curFrameSeq
  /-- `0 == res->status`, of a `common_res_t` -/
  | commonStatus
deriving DecidableEq, Repr

/-- `test_smts_client_t`, and what became of its socket. -/
structure TestSmtsClient where
  dvrId : BitVec 64
  curFrameSeq : Int
  recvFrameAccount : Int
  status : Int
  reading : Bool
  closed : Bool
  /-- the packets that were sent -/
  sent : List (List Byte)
deriving DecidableEq, Repr

namespace TestSmtsClient

/-- `init_test_smts_client`, and its `dvr_id`. -/
def init (dvrId : BitVec 64) : TestSmtsClient :=
  { dvrId := dvrId, curFrameSeq := -1, recvFrameAccount := 0, status := 0
    reading := false, closed := false, sent := [] }

/-- `tcp_client_send_msg`. -/
def sendMsg (x : TestSmtsClient) (t : NvmpCmd) : Option TestSmtsClient := do
  let bytes ← wireOf ⟨[]⟩ t
  some { x with sent := x.sent ++ [bytes] }

/-- `memcpy(req->token, "token", sizeof("token"))`. -/
def copyToken (v : List.Vector Byte 128) : List.Vector Byte 128 :=
  ⟨[0x74, 0x6F, 0x6B, 0x65, 0x6E, 0] ++ v.toList.drop 6, by simp⟩

/-- The `preview_cmd_t` of `test_client_on_connected`. -/
def previewReq (x : TestSmtsClient) (garbage : Values NvmpName) : NvmpCmd :=
  let req := Cmd.init previewCmd garbage
  let req := req.set srcAddr 2
  let req := req.set destAddr 3
  let req := req.set seqno 4
  let req := req.set Smts.dvrId x.dvrId
  let req := req.set channelNo 6
  let req := req.set token (copyToken (req.vals token))
  let req := req.set frameMode 7
  req.set packetLen req.len

/-- `test_client_on_connected`. -/
def testClientOnConnected (x : TestSmtsClient) (garbage : Values NvmpName) : Option TestSmtsClient :=
  x.sendMsg (x.previewReq garbage)

/-- `test_client_on_send_preview_cmd`. -/
def testClientOnSendPreviewCmd (x : TestSmtsClient) : TestSmtsClient := { x with reading := true }

/-- `test_client_send_PTZ_cmd`. -/
def testClientSendPTZCmd (x : TestSmtsClient) (garbage : Values NvmpName) : Option TestSmtsClient :=
  x.sendMsg ((Cmd.init testPTZCmd garbage).set ptz 12)

/-- How the frame branch ends: after enough frames the client closes its socket. -/
def terminate (x : TestSmtsClient) : TestSmtsClient :=
  if x.recvFrameAccount > terminateSeqno then { x with closed := true } else x

/-- `test_client_on_read_packet`, with a packet: what the client is then, or the
assertion that fails. It has no result when it reads beyond the packet, or when
a number does not fit its type. `garbage` is in the struct that is received, `garbage'` in the one that is sent. -/
def testClientOnReadPacket (x : TestSmtsClient) (packet : List Byte)
    (garbage garbage' : Values NvmpName) : Option (Except TestAssert TestSmtsClient) := do
  let cmd ← decodeInt32 (Reader.within packet) 4
  if x.status = 0 then
    -- read preview response
    if cmd ≠ previewResCmdNo then some (.error .checkResCmd)
    else
      let res ← decodeAs previewCmdRes packet garbage
      if res.vals Smts.status ≠ 0 then some (.error .previewStatus)
      else
        let x ← { x with status := 1 }.testClientSendPTZCmd garbage'
        some (.ok x)
  else if cmd = sendFrameCmdNo then
    let frame ← decodeAs smtsFrameRes packet garbage
    let seq := (frame.vals seqno).toInt
    let account ← (add 32 x.recvFrameAccount 1).toOption
    let x := { x with recvFrameAccount := account }
    if x.curFrameSeq = -1 then some (.ok { x with curFrameSeq := seq }.terminate)
    else
      let next ← (add 32 x.curFrameSeq 1).toOption
      if next ≠ seq then some (.error .curFrameSeq)
      else some (.ok { x with curFrameSeq := next }.terminate)
  else if cmd = commonResCmdNo then
    let res ← decodeAs commonRes packet garbage
    if res.vals Smts.status ≠ 0 then some (.error .commonStatus) else some (.ok x)
  else some (.ok x)

/-! ## What it sends -/

section Sends

variable {x : TestSmtsClient} {garbage : Values NvmpName} {t : NvmpCmd}

theorem sendMsg_flat (hT : t.type ∈ payloadFreeTypes) :
    ∃ p, x.sendMsg t = some { x with sent := x.sent ++ [p] } ∧ cmdWord p = t.type.cmd ∧
      8 ≤ p.length := by
  obtain ⟨hwf, hF⟩ := payloadFree_spec hT
  obtain ⟨fs, hfs⟩ := hwf.head_eq
  have hhead : t.type.head = t.type.fields := List.takeWhile_eq_self_iff.mpr fun f hf => by simp [hF f hf]
  rw [hhead] at hfs
  refine ⟨serFixed t.stamped.vals t.type.fields, ?_, ?_, ?_⟩
  · rw [sendMsg, wireOf_flat _ hT]
    rfl
  · have hwords := (words_serFixed t.stamped.vals fs []).2
    rw [List.append_nil, ← hfs] at hwords
    rw [hwords, t.stamped_cmd]
  · rw [length_serFixed, hfs, prefixLen_cons, prefixLen_cons]
    show 8 ≤ 4 + (4 + prefixLen fs)
    omega

/-- On its connect the client sends a preview request. -/
theorem testClientOnConnected_spec (x : TestSmtsClient) (garbage : Values NvmpName) :
    ∃ p, x.testClientOnConnected garbage = some { x with sent := x.sent ++ [p] } ∧
      cmdWord p = previewCmdNo ∧ 8 ≤ p.length := by
  have hT : (x.previewReq garbage).type ∈ payloadFreeTypes := by
    show previewCmd ∈ payloadFreeTypes
    decide
  exact sendMsg_flat hT

/-- `test_client_send_PTZ_cmd` sends one packet, a PTZ command, and does nothing
else. -/
theorem testClientSendPTZCmd_spec (x : TestSmtsClient) (garbage : Values NvmpName) :
    ∃ p, x.testClientSendPTZCmd garbage = some { x with sent := x.sent ++ [p] } ∧
      cmdWord p = testPTZCmd.cmd ∧ 8 ≤ p.length := by
  have hT : ((Cmd.init testPTZCmd garbage).set ptz 12).type ∈ payloadFreeTypes := by
    show testPTZCmd ∈ payloadFreeTypes
    decide
  exact sendMsg_flat hT

end Sends

/-! ## What it makes of the server's packets -/

section Reads

variable {x : TestSmtsClient} (garbage garbage' : Values NvmpName)

/-- The command of a packet of words. -/
theorem decodeInt32_wordsPacket {words : List (BitVec 32)} {rest : List Byte} {c : BitVec 32}
    (hc : words[1]? = some c) :
    decodeInt32 (Reader.within (wordsPacket words ++ rest)) 4 = some c := by
  obtain ⟨hlt, rfl⟩ := List.getElem?_eq_some_iff.mp hc
  have hlen : (wordsPacket words).length = 4 * words.length := by
    rw [wordsPacket, List.length_flatMap]
    simp [BigEndian.length_bytes, Nat.mul_comm]
  have hlo : 8 ≤ (wordsPacket words ++ rest).length := by
    rw [List.length_append, hlen]
    omega
  rw [decodeInt32_cmd (by rw [packetLenFieldSize]; omega), if_pos hlo]
  exact congrArg some (wordOf_wordsPacket words rest hlt)

/-- The response to its preview is accepted just when its status is 0, and then
a PTZ command goes out. -/
theorem testClientOnReadPacket_response (hst : x.status = 0) (r : Int) :
    (BitVec.ofInt 32 r ≠ 0 ∧
        x.testClientOnReadPacket (responsePacket r) garbage garbage' = some (.error .previewStatus)) ∨
      ∃ p, x.testClientOnReadPacket (responsePacket r) garbage garbage'
          = some (.ok { x with status := 1, sent := x.sent ++ [p] }) ∧
        cmdWord p = testPTZCmd.cmd ∧ 8 ≤ p.length := by
  have hpacket : responsePacket r = wordsPacket _ ++ [] := (List.append_nil _).symm
  have hcmd : decodeInt32 (Reader.within (responsePacket r)) 4 = some previewResCmdNo := by
    rw [hpacket]
    exact decodeInt32_wordsPacket rfl
  obtain ⟨d, hd, hser⟩ := decodeAs_flat (T := previewCmdRes) (by decide) (responsePacket r)
    (by simp [responsePacket, wordsPacket]; decide) garbage
  have hstatus : d.vals Smts.status = BitVec.ofInt 32 r := by
    rw [word_of_serFixed (F := protocolHeadFiled) hser rfl (by decide), hpacket]
    exact wordOf_wordsPacket _ _ (i := 5) (by simp)
  rw [testClientOnReadPacket]
  simp only [hcmd, hst, hd, hstatus, Option.bind_eq_bind, Option.bind_some, if_true, ne_eq,
    not_true_eq_false, if_false]
  by_cases hr : BitVec.ofInt 32 r = 0
  · obtain ⟨p, hp, hcmd', hlen⟩ := testClientSendPTZCmd_spec { x with status := 1 } garbage'
    refine .inr ⟨p, ?_, hcmd', hlen⟩
    rw [if_neg (not_not.mpr hr), hp]
    rfl
  · exact .inl ⟨hr, if_pos hr⟩

/-- A response that the client does not wait for changes nothing. -/
theorem testClientOnReadPacket_again (hst : x.status ≠ 0) (r : Int) :
    x.testClientOnReadPacket (responsePacket r) garbage garbage' = some (.ok x) := by
  have hpacket : responsePacket r = wordsPacket _ ++ [] := (List.append_nil _).symm
  have hcmd : decodeInt32 (Reader.within (responsePacket r)) 4 = some previewResCmdNo := by
    rw [hpacket]
    exact decodeInt32_wordsPacket rfl
  rw [testClientOnReadPacket]
  simp only [hcmd, Option.bind_eq_bind, Option.bind_some, if_neg hst]
  rfl

/-- The client goes on as before when it reads an acknowledgement. -/
theorem testClientOnReadPacket_ack (hst : x.status ≠ 0) :
    x.testClientOnReadPacket ackPacket garbage garbage' = some (.ok x) := by
  have hpacket : ackPacket = wordsPacket _ ++ [] := (List.append_nil _).symm
  have hcmd : decodeInt32 (Reader.within ackPacket) 4 = some commonResCmdNo := by
    rw [hpacket]
    exact decodeInt32_wordsPacket rfl
  obtain ⟨d, hd, hser⟩ := decodeAs_flat (T := commonRes) (by decide) ackPacket (by decide) garbage
  have hstatus : d.vals Smts.status = 0 := by
    rw [word_of_serFixed (F := protocolHeadFiled) hser rfl (by decide), hpacket]
    exact wordOf_wordsPacket _ _ (i := 5) (by simp)
  rw [testClientOnReadPacket]
  simp only [hcmd, hd, hstatus, Option.bind_eq_bind, Option.bind_some, if_neg hst]
  rfl

/-- The client after a frame with the number `seq`. -/
def gotFrame (x : TestSmtsClient) (seq : Int) : TestSmtsClient :=
  { x with recvFrameAccount := x.recvFrameAccount + 1, curFrameSeq := seq }.terminate

theorem terminate_cases (x : TestSmtsClient) :
    (x.recvFrameAccount ≤ terminateSeqno ∧ x.terminate = x) ∨
      x.terminate = { x with closed := true } := by
  rw [terminate]
  split
  next => exact .inr rfl
  next hle => exact .inl ⟨not_lt.mp hle, rfl⟩

theorem gotFrame_eq (x : TestSmtsClient) (seq : Int) : ∃ closed, x.gotFrame seq =
    { x with recvFrameAccount := x.recvFrameAccount + 1, curFrameSeq := seq, closed := closed } := by
  rw [gotFrame]
  obtain ⟨-, h⟩ | h := terminate_cases
    { x with recvFrameAccount := x.recvFrameAccount + 1, curFrameSeq := seq }
  · exact ⟨x.closed, h⟩
  · exact ⟨true, h⟩

/-- A frame that is its first, or the next. -/
theorem testClientOnReadPacket_frame (hst : x.status ≠ 0) {bytes : List Byte}
    (hlo : 24 ≤ bytes.length) (haccount : Fits 32 (x.recvFrameAccount + 1))
    (hseq : x.curFrameSeq = -1 ∨ x.curFrameSeq + 1 = (wordOf bytes 8).toInt) :
    x.testClientOnReadPacket (relayed bytes) garbage garbage'
      = some (.ok (x.gotFrame (wordOf bytes 8).toInt)) := by
  have hcmd : decodeInt32 (Reader.within (relayed bytes)) 4 = some sendFrameCmdNo :=
    decodeInt32_wordsPacket rfl
  have hlen : prefixLen smtsFrameRes.head ≤ (relayed bytes).length := by
    rw [length_relayed hlo]
    exact hlo
  obtain ⟨d, hd, -, hser, -⟩ := decode_payload (t := Cmd.init smtsFrameRes garbage)
    smtsFrameRes_endsInPayload.fields_eq smtsFrameRes.head_fixed
    smtsFrameRes_endsInPayload.wellFormed.nodup hlen ⟨0, 0⟩ (BitVec.ofNat 64 (relayed bytes).length)
  have hd : decodeAs smtsFrameRes (relayed bytes) garbage = some d := hd
  have hword : d.vals seqno = wordOf bytes 8 := by
    rw [word_of_serFixed (F := protocolTopFiled) hser rfl (by decide)]
    exact wordOf_wordsPacket _ _ (i := 2) (by simp)
  rw [testClientOnReadPacket]
  simp only [hcmd, hd, hword, Option.bind_eq_bind, Option.bind_some, if_neg hst, if_true,
    add_ok haccount, Except.toOption]
  split
  next => rfl
  next hne =>
    have hnext := hseq.resolve_left hne
    have hfits : Fits 32 (x.curFrameSeq + 1) := by
      rw [hnext]
      exact ⟨BitVec.le_toInt _, BitVec.toInt_lt⟩
    simp only [add_ok hfits, Option.bind_some]
    rw [if_neg (not_not.mpr hnext), hnext]
    rfl

end Reads

end TestSmtsClient

end Smts
