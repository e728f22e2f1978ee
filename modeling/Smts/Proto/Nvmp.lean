import Smts.Proto.Struct

/-!
# Proto — the declared packets

`nvmp_protocol_def.h`: the packets of `PROTOCOL_MAP`, in its order, each with
its command, its fields and the function `dispatch_packet` calls for it.
-/

namespace Smts

/-- The field names the declarations use besides `packet_len` and `cmd`. -/
inductive NvmpName where
  | seqno | srcAddr | destAddr
  | token | dvrId | channelNo | frameMode
  | status | brightness | contrast | saturation | hue
  | frameType | frame
  | bitrate | frameRate
  | st
  | ptz
deriving DecidableEq, Repr

/-- The handlers named in the map. `NULL` is `none`. -/
inductive CmdImp where
  | smtsStartPreview
  | mockDvrPreviewImpl
  | msgChannel
deriving DecidableEq, Repr

abbrev NvmpField := Field NvmpName
abbrev NvmpType := PacketType NvmpName
abbrev NvmpCmd := Cmd NvmpName

/-! Commands. -/

abbrev previewCmdNo : BitVec 32 := 0x00050104
abbrev previewResCmdNo : BitVec 32 := 0x80050101
abbrev sendFrameCmdNo : BitVec 32 := 0x80050102
abbrev commonResCmdNo : BitVec 32 := 0x80000001

/-! Fields. -/

abbrev seqno : NvmpField := ⟨.int32, .user .seqno⟩
abbrev srcAddr : NvmpField := ⟨.int32, .user .srcAddr⟩
abbrev destAddr : NvmpField := ⟨.int32, .user .destAddr⟩
abbrev token : NvmpField := ⟨.fixedString 128, .user .token⟩
abbrev dvrId : NvmpField := ⟨.int64, .user .dvrId⟩
abbrev channelNo : NvmpField := ⟨.int16, .user .channelNo⟩
abbrev frameMode : NvmpField := ⟨.int32, .user .frameMode⟩
abbrev status : NvmpField := ⟨.int32, .user .status⟩
abbrev brightness : NvmpField := ⟨.int32, .user .brightness⟩
abbrev contrast : NvmpField := ⟨.int32, .user .contrast⟩
abbrev saturation : NvmpField := ⟨.int32, .user .saturation⟩
abbrev hue : NvmpField := ⟨.int32, .user .hue⟩
abbrev frameType : NvmpField := ⟨.int32, .user .frameType⟩
abbrev bitrate : NvmpField := ⟨.int32, .user .bitrate⟩
abbrev frameRate : NvmpField := ⟨.int32, .user .frameRate⟩
abbrev frameSt : NvmpField := ⟨.int64, .user .st⟩
abbrev ptz : NvmpField := ⟨.int32, .user .ptz⟩

/-- `frame` of `smts_frame_res`, of length `t->packet_len-20`. -/
abbrev resFrame : NvmpField := ⟨.binaryBufRef 20, .user .frame⟩

/-- `frame` of `mock_dvr_frame`, of length `t->packet_len-24`. -/
abbrev dvrFrame : NvmpField := ⟨.binaryBufRef 24, .user .frame⟩

/-- `PROTOCOL_TOP_FILED`. -/
def protocolTopFiled : List NvmpField := [packetLen, cmd]

/-- `PROTOCOL_HEAD_FILED`. -/
def protocolHeadFiled : List NvmpField := protocolTopFiled ++ [seqno, srcAddr, destAddr]

/-! Packets. -/

def abstractCmd : NvmpType := ⟨"abstract_cmd", 0x0, protocolTopFiled⟩

def previewCmd : NvmpType :=
  ⟨"preview_cmd", previewCmdNo,
    protocolHeadFiled ++ [token, dvrId, channelNo, frameMode]⟩

def previewCmdRes : NvmpType :=
  ⟨"preview_cmd_res", previewResCmdNo,
    protocolHeadFiled ++ [status, brightness, contrast, saturation, hue]⟩

def smtsFrameRes : NvmpType :=
  ⟨"smts_frame_res", sendFrameCmdNo, protocolHeadFiled ++ [frameType, resFrame]⟩

def mockDvrPreview : NvmpType :=
  ⟨"mock_dvr_preview", 0x00018001, protocolTopFiled ++ [bitrate, frameRate]⟩

def mockDvrFrame : NvmpType :=
  ⟨"mock_dvr_frame", 0x00018002, protocolTopFiled ++ [seqno, frameType, frameSt, dvrFrame]⟩

def testPTZCmd : NvmpType := ⟨"test_PTZ_cmd", 0x00018010, protocolHeadFiled ++ [ptz]⟩

def commonRes : NvmpType := ⟨"common_res", commonResCmdNo, protocolHeadFiled ++ [status]⟩

/-- `PROTOCOL_MAP`. -/
def protocolMap : List (NvmpType × Option CmdImp) :=
  [(abstractCmd, none),
   (previewCmd, some .smtsStartPreview),
   (previewCmdRes, none),
   (smtsFrameRes, none),
   (mockDvrPreview, some .mockDvrPreviewImpl),
   (mockDvrFrame, none),
   (testPTZCmd, some .msgChannel),
   (commonRes, none)]

end Smts
