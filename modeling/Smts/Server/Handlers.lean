import Smts.Server.State
import Smts.Lib.Transition

/-!
# Server — the handlers

The functions of `smts_client_impl.c`, `smts_session.c`,
`smts_mock_dvr_impl.c` and `smts_dispatch.c`, down to the calls of libuv, and
the callbacks they are entered by. A handler has no result where the program's
behaviour is not defined by its source: a loop that has not ended within
`fuel` rounds, a ring node taken for what it is not, a null dereference.
-/

namespace Smts

open Circular

namespace Server

/-! ## smts_abstract_tcp_client.c -/

/-- `tcp_client_send_msg`. -/
def tcpClientSendMsg (w : Server) (client : Target) (packet : Nat) (cb : SendCb) :
    Server × Int :=
  let sendReq : WriteReq := { id := w.nWrites, client := client, packet := packet, cb := cb }
  let w := { w with nWrites := w.nWrites + 1 }
  let (w, r) := w.uvCall
  let w := w.emit (.uvWrite client packet cb ((w.cmds packet).wire w.heap) r)
  if r = 0 then ({ w with writes := w.writes ++ [sendReq] }, r) else (w, r)

/-- `close_abstract_tcp_client` on a client: reading ends and `uv_close` is
called. -/
@[simps!]
def closeClient (w : Server) (c : Nat) : Server :=
  (w.setClient c { w.clients c with reading := false, closing := true }).emit
    (.uvClose (.client c))

/-- `close_abstract_tcp_client` on a session's DVR client: `smts_dvr_client_stop`. -/
@[simps!]
def smtsDvrClientStop (w : Server) (s : Nat) : Server :=
  let x := w.sessions s
  (w.setSession s { x with dvr := { x.dvr with reading := false, closing := true } }).emit
    (.uvClose (.dvr s))

/-- `tcp_client_connect`: the calls up to the first that fails. -/
def tcpClientConnect (w : Server) (s : Nat) : Server × Int :=
  let w := w.emit (.uvInit (.dvr s))
  -- `smts_get_one_addrs`: nonzero stands for `NULL`
  let (w, r) := w.uvCall
  if r ≠ 0 then (w, netAddrNotFound) else
  -- `uv_ip4_addr` of the local address
  let (w, r) := w.uvCall
  if r ≠ 0 then (w, r) else
  -- `uv_tcp_bind`
  let (w, r) := w.uvCall
  if r ≠ 0 then (w, r) else
  -- `uv_ip4_addr` of the DVR's
  let (w, r) := w.uvCall
  if r ≠ 0 then (w, r) else
  -- `uv_tcp_connect`
  let (w, r) := w.uvCall
  if r ≠ 0 then (w, r) else
  let x := w.sessions s
  (w.setSession s { x with dvr := { x.dvr with connecting := true } }, r)

/-! ## Stopping clients -/

/-- `wait_exit_session`. -/
@[simps!]
def waitExitSession (w : Server) (s : Nat) : Server :=
  w.setSession s { w.sessions s with waitExitTimer := true }

/-- `media_client_stop_preview`. -/
def mediaClientStopPreview (w : Server) (s c : Nat) : Server :=
  let w := { w with rings := w.rings.remove (.client c) }
  let w := w.setSession s { w.sessions s with clientSize := (w.sessions s).clientSize - 1 }
  let w := w.setClient c { w.clients c with session := none }
  if (w.sessions s).clientSize = 0 then w.waitExitSession s else w

/-- `stop_smts_client`. Its status is only logged. -/
def stopSmtsClient (w : Server) (c : Nat) : Server :=
  if (w.clients c).status ≠ .onStop then
    let w := w.setClient c { w.clients c with status := .onStop }
    let w := w.emit (.stop c)
    let w :=
      match (w.clients c).session with
      | some s => w.mediaClientStopPreview s c
      | none => w
    w.closeClient c
  else w

/-! ## Sending to clients -/

/-- The fields both senders of a `preview_cmd_res` fill in. -/
def previewRes (w : Server) (r : Int) : NvmpCmd :=
  let t := w.initCmd previewCmdRes
  let t := t.set status (BitVec.ofInt 32 r)
  let t := t.set hue 0
  let t := t.set brightness 0
  let t := t.set contrast 0
  t.set saturation 0

/-- `smts_client_send_preview_res`. -/
def smtsClientSendPreviewRes (w : Server) (client : Nat) (status : Int) : Option Server := do
  if (w.clients client).status = .onInit then
    let previewRes := w.nCmds
    let w ← w.encodeNew (w.previewRes status)
    let w := w.setClient client { w.clients client with status := .onSendPreviewRes }
    let (w, r) := w.tcpClientSendMsg (.client client) previewRes .previewResSlient
    if r ≠ 0 then some ((w.protoCmdDestroy previewRes).stopSmtsClient client) else some w
  -- who was answered before gets no second response, and is stopped if the preview failed
  else if status ≠ 0 then some (w.stopSmtsClient client)
  else some w

/-- `on_smts_client_send_frame`. -/
def onSmtsClientSendFrame (w : Server) (frame : Nat) : Option Server := do
  let w := w.setCmd frame { w.cmds frame with ref := (w.cmds frame).ref - 1 }
  if (w.cmds frame).ref = 0 then
    -- the last use: the packet goes, and with it the frame it was made of
    let f ← (w.cmds frame).data
    some ((w.protoCmdDestroy frame).destroySmtsFrame f)
  else some w

/-- `smts_client_send_frame`. -/
def smtsClientSendFrame (w : Server) (client frame : Nat) : Option Server := do
  let w := w.emit (.sendFrame client frame)
  if (w.clients client).status = .onSendFrames then
    let (w, r) := w.tcpClientSendMsg (.client client) frame .sendFrame
    if r ≠ 0 then
      let w ← w.onSmtsClientSendFrame frame
      some (w.stopSmtsClient client)
    else some (w.emit (.frameSent client (w.cmds frame).data))
  -- a client that waits, or was stopped, only gives its use back
  else w.onSmtsClientSendFrame frame

/-! ## Sessions -/

/-- `QUEUE_FOREACH` over a session's clients; the next link is read after the
body has run. -/
def forEachClient (fuel : Nat) (w : Server) (s : Nat) (body : Nat → Server → Option Server) :
    Option Server :=
  Links.forEach Server.rings
    (fun q w => match q with
      | .client c => body c w
      | .head _ => none)
    (.head s) fuel (w.rings.next (.head s)) w

/-- `delete_session`. -/
def deleteSession (fuel : Nat) (w : Server) (s : Nat) : Option Server := do
  let (m, _) ← w.manager.deleteSession w.keyOf fuel (some s)
  some { w with manager := m }

/-- `stop_media_session`. -/
def stopMediaSession (fuel : Nat) (w : Server) (s : Nat) : Option Server := do
  let w ← w.deleteSession fuel s
  w.forEachClient fuel s fun c w => do
    -- the session's status, not its exit code
    let w ← w.smtsClientSendPreviewRes c (w.sessions s).status.toInt
    some (w.stopSmtsClient c)

@[simps!]
def setExitCode (w : Server) (s : Nat) (r : Int) : Server :=
  w.setSession s { w.sessions s with exitCode := r }

/-- `session_exit_cb`. The timer does not repeat. -/
def sessionExitCb (fuel : Nat) (w : Server) (s : Nat) : Option Server := do
  let w := w.setSession s { w.sessions s with waitExitTimer := false }
  if (w.sessions s).clientSize = 0 then
    let w ← w.deleteSession fuel s
    some (w.smtsDvrClientStop s)
  -- somebody has joined while the timer was running
  else some (w.setExitCode s smtsOk)

/-- `on_smts_dvr_client_recv_frame`; a frame is `NULL` only with a status. -/
def onSmtsDvrClientRecvFrame (fuel : Nat) (w : Server) (s : Nat) (frame : Option Nat)
    (status : Int) : Option Server := do
  if status ≠ 0 then
    (w.setExitCode s status).stopMediaSession fuel s
  else
    let f ← frame
    let w := w.emit (.recvFrame s f)
    if 0 < (w.sessions s).clientSize then
      let x := w.frames f
      let t := w.initCmd smtsFrameRes
      let t := t.set seqno x.seqno
      let t := t.set resFrame x.frameData
      let t := t.set frameType x.type
      let frameRes := w.nCmds
      let w ← w.encodeNew { t with data := some f }
      -- one use for each client, whatever its status
      let w := w.setCmd frameRes
        { w.cmds frameRes with ref := (w.cmds frameRes).ref + (w.sessions s).clientSize }
      w.forEachClient fuel s fun c w => w.smtsClientSendFrame c frameRes
    else some (w.destroySmtsFrame f)

/-- `smts_dvr_client_start_read_frames`. -/
def smtsDvrClientStartReadFrames (w : Server) (s : Nat) : Server × Int :=
  let (w, r) := w.uvCall
  let x := w.sessions s
  -- `uv_read_stop` when it fails
  (w.setSession s { x with dvr := { x.dvr with reading := decide (r = 0) } }, r)

/-- The responses that `on_smts_dvr_client_send_preview` sends to the session's
clients. -/
def sendPreviewResponses (fuel : Nat) (w : Server) (s : Nat) : Option Server :=
  if 0 < (w.sessions s).clientSize then
    w.forEachClient fuel s fun c w => w.smtsClientSendPreviewRes c smtsOk
  else some w

/-- `on_smts_dvr_client_send_preview`. -/
def onSmtsDvrClientSendPreview (fuel : Nat) (w : Server) (s : Nat) (status : Int) :
    Option Server := do
  if status ≠ 0 then
    (w.setExitCode s status).stopMediaSession fuel s
  else
    let w ← w.sendPreviewResponses fuel s
    let w := w.setSession s { w.sessions s with status := .running }
    let (w, status) := w.smtsDvrClientStartReadFrames s
    if status ≠ 0 then (w.setExitCode s status).stopMediaSession fuel s
    else some w

/-- `DEFAULT_DVR_BITRATE`. -/
def defaultDvrBitrate : BitVec 32 := 1000

/-- `DEFAULT_DVR_FRAMERATE`. -/
def defaultDvrFramerate : BitVec 32 := 25

/-- `smts_dvr_client_preview`. -/
def smtsDvrClientPreview (fuel : Nat) (w : Server) (s : Nat) : Option (Server × Int) := do
  let t := w.initCmd mockDvrPreview
  let t := t.set bitrate defaultDvrBitrate
  let t := t.set frameRate defaultDvrFramerate
  let previewPacket := w.nCmds
  let w ← w.encodeNew t
  let (w, r) := w.tcpClientSendMsg (.dvr s) previewPacket .dvrPreview
  if r ≠ 0 then
    -- the session is stopped here, and once more by the caller
    let w ← w.onSmtsDvrClientSendPreview fuel s dvrSendPriviewCmdError
    some (w, r)
  else some (w, r)

/-- `on_connected_to_dvr`. -/
def onConnectedToDvr (fuel : Nat) (w : Server) (s : Nat) (status : Int) : Option Server := do
  if status ≠ 0 then
    (w.setExitCode s dvrConnectRefusedError).stopMediaSession fuel s
  else
    let (w, r) ← w.smtsDvrClientPreview fuel s
    if r ≠ 0 then (w.setExitCode s dvrSendPriviewCmdError).stopMediaSession fuel s
    else some w

/-! ## Starting a preview -/

/-- `add_smts_client`. -/
@[simps!]
def addSmtsClient (w : Server) (s client : Nat) : Server :=
  let w := { w with rings := w.rings.insertHead (.head s) (.client client) }
  let w := w.setSession s { w.sessions s with clientSize := (w.sessions s).clientSize + 1 }
  let w := w.setClient client { w.clients client with session := some s }
  w.emit (.attach client s)

/-- `malloc` and `init_media_session`. The session's address is the next one; what
becomes of a session in the memory of a freed one is said in `Server.Reuse`. -/
@[simps]
def initMediaSession (w : Server) (key : SessionKey) : Server :=
  let x : SmtsSession :=
    { key := key, clientSize := 0, status := .init, exitCode := smtsOk, waitExitTimer := false
      dvr := { connecting := false, reading := false, closing := false }, freed := false }
  { w with
    sessions := Function.update w.sessions w.nSessions x
    nSessions := w.nSessions + 1
    manager := { w.manager with links := w.manager.links.init (.session w.nSessions) }
    rings := w.rings.init (.head w.nSessions)
    log := w.log ++ [.uvInit (.timer w.nSessions)] }

/-- `init_smts_dvr_client`; `init_dvr_connect_config` does not fail. -/
def initSmtsDvrClient (w : Server) (s : Nat) : Server × Int :=
  let w := w.emit (.uvInit (.dvr s))
  -- `uv_ip4_addr` of the DVR's address
  let (w, r) := w.uvCall
  if r ≠ 0 then (w, dvrClientInitAddrError) else (w, r)

/-- The label `init_session_error` of `media_client_start_preview`: the client
has no session and the struct is freed. -/
@[simps!]
def initSessionError (w : Server) (s client : Nat) : Server :=
  let w := w.setClient client { w.clients client with session := none }
  (w.setSession s { w.sessions s with freed := true }).emit (.free (.session s))

/-- The session key that a `preview_cmd` asks for. -/
def playKey (t : NvmpCmd) : SessionKey :=
  { dvrId := t.vals dvrId, channelNo := t.vals channelNo, frameMode := t.vals frameMode
    type := sessionTypeSmts }

/-- `media_client_start_preview`. -/
def mediaClientStartPreview (fuel : Nat) (w : Server) (client : Nat) (key : SessionKey) :
    Option (Server × Int) := do
  match ← w.manager.getSession w.keyOf fuel key with
  | none =>
      let s := w.nSessions
      let w := w.initMediaSession key
      -- the client is in the ring before anything can fail
      let w := w.addSmtsClient s client
      let (w, r) := w.initSmtsDvrClient s
      if r ≠ 0 then some (w.initSessionError s client, r)
      else
        let (m, r) ← w.manager.addSession w.keyOf fuel (some s)
        let w := { w with manager := m }
        if r ≠ 0 then some (w.initSessionError s client, r)
        else
          let (w, r) := w.tcpClientConnect s
          if r ≠ 0 then
            let w ← w.deleteSession fuel s
            some (w.initSessionError s client, r)
          else some (w, r)
  | some s =>
      -- the status of the session is not looked at
      let w := w.addSmtsClient s client
      let w ← w.smtsClientSendPreviewRes client smtsOk
      some (w, 0)

/-- `smts_start_preview`. -/
def smtsStartPreview (fuel : Nat) (w : Server) (client packet : Nat) : Option Server := do
  let (w, r) ← w.mediaClientStartPreview fuel client (playKey (w.cmds packet))
  if r ≠ 0 then
    let previewRes := w.nCmds
    let w ← w.encodeNew (w.previewRes r)
    let (w, r) := w.tcpClientSendMsg (.client client) previewRes .errorPreviewRes
    if r ≠ 0 then some (w.protoCmdDestroy previewRes) else some w
  else some w

/-! ## The transparent channel -/

/-- `media_client_send_cmd`. -/
def mediaClientSendCmd (w : Server) (client packet : Nat) : Server × Int :=
  match (w.clients client).session with
  | none => (w, smtsClientNoStart)
  | some s =>
      let w := w.protoCmdIncreaseRef packet
      let (w, r) := w.tcpClientSendMsg (.dvr s) packet .sendCmdToDvr
      if r ≠ 0 then (w.protoCmdDestroy packet, r) else (w, r)

/-- `msg_channel`. The status is put into the response before it is
initialised. -/
def msgChannel (w : Server) (client packet : Nat) : Option Server := do
  let (w, r) := w.mediaClientSendCmd client packet
  let garbage := Function.update (w.garbage w.nCmds) status (BitVec.ofInt 32 r)
  let res := w.nCmds
  let w ← w.encodeNew (Cmd.init commonRes garbage)
  let (w, r) := w.tcpClientSendMsg (.client client) res .commonRes
  if r ≠ 0 then some (w.protoCmdDestroy res) else some w

/-! ## The callbacks -/

/-- `malloc` and `init_smts_client`; the client's address is the next one. -/
@[simps]
def initSmtsClient (w : Server) : Server :=
  let x : SmtsClient :=
    { session := none, status := .onInit, reading := false, closing := false, freed := false }
  { w with
    clients := Function.update w.clients w.nClients x
    nClients := w.nClients + 1
    rings := w.rings.init (.client w.nClients)
    log := w.log ++ [.uvInit (.client w.nClients)] }

/-- `client_on_connection`. -/
def clientOnConnection (w : Server) : Server :=
  let c := w.nClients
  let w := w.initSmtsClient
  -- `uv_accept`
  let (w, r) := w.uvCall
  if r ≠ 0 then w.closeClient c else
  -- `tcp_client_start_read`
  let (w, r) := w.uvCall
  if r ≠ 0 then w.closeClient c
  else w.setClient c { w.clients c with reading := true }

/-- The call of a packet's handler; `NULL` stands for `fun_no_impl`, which only
logs. `mock_dvr_preview_impl` takes the client for a `test_mock_dvr_t`, which is
a larger struct than `smts_client_t`: it stores the DVR's fields over the
client's `session`, `queue` and `status`, and starts a timer that lies behind
them. What the program does from there on is not defined by its source, so a
packet with this command has no result, and comes in no run. -/
def callImp (fuel : Nat) (w : Server) (client packet : Nat) : Option CmdImp → Option Server
  | none => some w
  | some .smtsStartPreview => w.smtsStartPreview fuel client packet
  | some .mockDvrPreviewImpl => none
  | some .msgChannel => w.msgChannel client packet

/-- `dispatch_packet` with status 0. -/
def dispatchPacket (fuel : Nat) (w : Server) (client : Nat) (bytes : List Byte)
    (junk : Int → Byte) : Option Server := do
  let (h, base) := w.heap.receive bytes
  let w := w.setHeap h
  match ← dispatchDecode (Reader.beyond bytes junk) base (BitVec.ofNat 64 bytes.length)
      (w.garbage w.nCmds) with
  | some (t, imp) =>
      let p := w.nCmds
      let w := w.addCmd t
      let w ← w.callImp fuel client p imp
      some (w.protoCmdDestroy p)
  -- no command that is known, or one that cannot be decoded
  | none => some (w.emit (.free (.block base)))

/-- The `smts_frame_t` that is made of a decoded `mock_dvr_frame`. -/
def smtsFrameOf (packet : Nat) (t : NvmpCmd) : SmtsFrame where
  data := packet
  frameData := t.vals Smts.dvrFrame
  type := t.vals frameType
  seqno := t.vals seqno
  st := t.vals frameSt

/-- `on_dvr_client_read_frame_cb`, with a packet. -/
def onDvrClientReadFrameCb (fuel : Nat) (w : Server) (s : Nat) (bytes : List Byte)
    (junk : Int → Byte) : Option Server := do
  let (h, base) := w.heap.receive bytes
  let w := w.setHeap h
  let t ← dvrDecode (Reader.beyond bytes junk) base (BitVec.ofNat 64 bytes.length)
    (w.garbage w.nCmds)
  let dvrFrame := w.nCmds
  let w := w.addCmd t
  let frame := w.nFrames
  let w := w.addFrame (smtsFrameOf dvrFrame t)
  let w := w.protoCmdIncreaseRef dvrFrame
  let w := w.protoCmdDestroy dvrFrame
  w.onSmtsDvrClientRecvFrame fuel s (some frame) 0

/-- `on_dvr_client_read_frame_cb`, with an error. -/
def onDvrClientReadError (fuel : Nat) (w : Server) (s : Nat) : Option Server :=
  let x := w.sessions s
  let w := w.setSession s { x with dvr := { x.dvr with reading := false } }
  w.onSmtsDvrClientRecvFrame fuel s none dvrRecvFrameError

/-- The callback that a write was queued with, when libuv has completed it with
`status`. -/
def sendCb (fuel : Nat) (w : Server) (req : WriteReq) (status : Int) : Option Server :=
  match req.cb, req.client with
  | .previewResSlient, .client c =>
      let w := (w.protoCmdDestroy req.packet).emit (.previewResDone c)
      -- neither the status of the write nor the client's is looked at
      some (w.setClient c { w.clients c with status := .onSendFrames })
  | .errorPreviewRes, .client c => some ((w.protoCmdDestroy req.packet).stopSmtsClient c)
  | .sendFrame, .client c => do
      let w ← w.onSmtsClientSendFrame req.packet
      if status ≠ 0 then some (w.stopSmtsClient c) else some w
  | .commonRes, .client _ => some (w.protoCmdDestroy req.packet)
  | .dvrPreview, .dvr s =>
      (w.protoCmdDestroy req.packet).onSmtsDvrClientSendPreview fuel s status
  | .sendCmdToDvr, .dvr _ => some (w.protoCmdDestroy req.packet)
  | _, _ => none

/-- `tcp_client_send_msg_cb` of the `k`-th write that has not completed. -/
def tcpClientSendMsgCb (fuel : Nat) (w : Server) (k : Nat) (status : Int) : Option Server := do
  let req ← w.writes[k]?
  let w ← (w.eraseWrite k).sendCb fuel req status
  some (w.emit (.free (.writeReq req.id)))

/-- `on_tcp_client_connect_cb` of a session's DVR client. -/
def onTcpClientConnectCb (fuel : Nat) (w : Server) (s : Nat) (status : Int) :
    Option Server := do
  let x := w.sessions s
  let w := w.setSession s { x with dvr := { x.dvr with connecting := false } }
  let w ← w.onConnectedToDvr fuel s status
  some (w.emit (.free (.connectReq s)))

/-- The close callback of a client, which frees the struct. -/
@[simps!]
def clientCloseCb (w : Server) (c : Nat) : Server :=
  let w := w.emit (.uvClosed (.client c))
  (w.setClient c { w.clients c with freed := true }).emit (.free (.client c))

/-- The close callback of a session's DVR client: `on_dvr_client_close_cb`. The
session keeps its contents, and a later use of it is no fault here: whether there
is one is a matter of `Server.Freed`. -/
@[simps!]
def onDvrClientCloseCb (w : Server) (s : Nat) : Server :=
  let w := w.emit (.uvClosed (.dvr s))
  (w.setSession s { w.sessions s with freed := true }).emit (.free (.session s))

end Server

/-! ## Events -/

/-- What the event loop calls back for. The framing layer delivers whole
packets; `junk` is what lies in memory around one. -/
inductive Event where
  | connection
  | packet (c : Nat) (bytes : List Byte) (junk : Int → Byte)
  | readError (c : Nat) (status : Int)
  | dvrConnected (s : Nat) (status : Int)
  | dvrPacket (s : Nat) (bytes : List Byte) (junk : Int → Byte)
  | dvrReadError (s : Nat) (status : Int)
  | writeDone (k : Nat) (status : Int)
  | timer (s : Nat)
  | clientClosed (c : Nat)
  | dvrClosed (s : Nat)

/-- The packets that the framing layer delivers: longer than their length word,
of 64 MiB at most, and as long as that word says. -/
def Deliverable (bytes : List Byte) : Prop :=
  packetLenFieldSize < bytes.length ∧ bytes.length ≤ maxPacketLen ∧
    lenWord bytes = BitVec.ofNat 32 bytes.length

/-- The client whose preview request the event delivers, if it delivers one. -/
def Event.preview : Event → Option Nat
  | .packet c bytes junk =>
      if decodeInt32 (Reader.beyond bytes junk) 4 = some previewCmdNo then some c else none
  | _ => none

/-- A packet with the mock DVR's preview command, which no step of the model
handles: see `callImp`. -/
def Event.Mocks : Event → Prop
  | .packet _ bytes junk =>
      decodeInt32 (Reader.beyond bytes junk) 4 = some mockDvrPreview.cmd
  | _ => False

instance : (e : Event) → Decidable e.Mocks
  | .packet .. => inferInstanceAs (Decidable (_ = _))
  | .connection | .readError .. | .dvrConnected .. | .dvrPacket .. | .dvrReadError ..
  | .writeDone .. | .timer _ | .clientClosed _ | .dvrClosed _ => inferInstanceAs (Decidable False)

namespace Server

/-- When libuv makes the callback: reads while reading, a write's once it was
queued, in any order, a close's when nothing is outstanding on the handle. -/
def Enabled (w : Server) : Event → Prop
  | .connection => True
  | .packet c bytes _ =>
      c < w.nClients ∧ (w.clients c).reading = true ∧ (w.clients c).closing = false ∧
        Deliverable bytes
  | .readError c status =>
      c < w.nClients ∧ (w.clients c).reading = true ∧ (w.clients c).closing = false ∧
        status ≠ 0
  | .dvrConnected s _ => s < w.nSessions ∧ (w.sessions s).dvr.connecting = true
  | .dvrPacket s bytes _ =>
      s < w.nSessions ∧ (w.sessions s).dvr.reading = true ∧ (w.sessions s).dvr.closing = false ∧
        Deliverable bytes
  | .dvrReadError s status =>
      s < w.nSessions ∧ (w.sessions s).dvr.reading = true ∧ (w.sessions s).dvr.closing = false ∧
        status ≠ 0
  | .writeDone k _ => k < w.writes.length
  | .timer s => s < w.nSessions ∧ (w.sessions s).waitExitTimer = true
  | .clientClosed c =>
      (w.clients c).closing = true ∧ (w.clients c).freed = false ∧
        ∀ req ∈ w.writes, req.client ≠ .client c
  | .dvrClosed s =>
      (w.sessions s).dvr.closing = true ∧ (w.sessions s).dvr.connecting = false ∧
        (w.sessions s).freed = false ∧ ∀ req ∈ w.writes, req.client ≠ .dvr s

/-- The callback that libuv makes of an event. -/
def handle (fuel : Nat) (w : Server) : Event → Option Server
  | .connection => some w.clientOnConnection
  | .packet c bytes junk => w.dispatchPacket fuel c bytes junk
  | .readError c _ => some (w.stopSmtsClient c)
  | .dvrConnected s status => w.onTcpClientConnectCb fuel s status
  | .dvrPacket s bytes junk => w.onDvrClientReadFrameCb fuel s bytes junk
  | .dvrReadError s _ => w.onDvrClientReadError fuel s
  | .writeDone k status => w.tcpClientSendMsgCb fuel k status
  | .timer s => w.sessionExitCb fuel s
  | .clientClosed c => some (w.clientCloseCb c)
  | .dvrClosed s => some (w.onDvrClientCloseCb s)

/-- One turn of the event loop: a callback that libuv may make, and that
returns. -/
def Step (w : Server) (e : Event) (w' : Server) : Prop :=
  w.Enabled e ∧ ∃ fuel, w.handle fuel e = some w'

/-! ## Runs that can be computed -/

instance (bytes : List Byte) : Decidable (Deliverable bytes) :=
  inferInstanceAs (Decidable (_ ∧ _ ∧ _))

instance (w : Server) : (e : Event) → Decidable (w.Enabled e)
  | .connection => inferInstanceAs (Decidable True)
  | .packet .. | .dvrPacket .. => inferInstanceAs (Decidable (_ ∧ _ ∧ _ ∧ _))
  | .readError .. | .dvrReadError .. => inferInstanceAs (Decidable (_ ∧ _ ∧ _ ∧ _))
  | .dvrConnected .. | .timer _ => inferInstanceAs (Decidable (_ ∧ _))
  | .writeDone .. => inferInstanceAs (Decidable (_ < _))
  | .clientClosed _ => inferInstanceAs (Decidable (_ ∧ _ ∧ _))
  | .dvrClosed _ => inferInstanceAs (Decidable (_ ∧ _ ∧ _ ∧ _))

/-- The events are handled in turn, if each can come when it is its turn, and
`ok` has nothing against it. -/
def followIf (ok : Server → Event → Prop) [∀ w e, Decidable (ok w e)] (fuel : Nat) (w : Server)
    (es : List Event) : Option Server :=
  es.foldlM (fun w e => if ok w e ∧ w.Enabled e then w.handle fuel e else none) w

theorem run_of_followIf {ok : Server → Event → Prop} [∀ w e, Decidable (ok w e)] {fuel : Nat}
    {w w' : Server} {es : List Event} (h : w.followIf ok fuel es = some w') :
    Transition.Run (fun w e w' => ok w e ∧ Step w e w') w es w' := by
  rw [← List.map_id es]
  refine Transition.Run.of_foldlM ?_ h
  intro w e w' hstep
  split at hstep
  next hok => exact ⟨hok.1, hok.2, fuel, hstep⟩
  next => cases hstep

/-- The events are handled in turn, whichever they are. -/
def follow (fuel : Nat) (w : Server) (es : List Event) : Option Server :=
  w.followIf (fun _ _ => True) fuel es

theorem run_of_follow {fuel : Nat} {w w' : Server} {es : List Event}
    (h : w.follow fuel es = some w') : Transition.Run Step w es w' :=
  (run_of_followIf h).mono fun _ _ _ => And.right

end Server

end Smts
