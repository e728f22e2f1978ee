import Smts.Proto.Dispatch
import Smts.Session.Manager
import Mathlib.Tactic.Simps.Basic

/-!
# Server — the state of the relay

What the server keeps between two callbacks of its event loop: the connected
clients, the sessions with their rings of clients, the packets and frames it
has made, the writes it has queued. A freed object keeps its contents and its
address is not used again, so a second free or a late use is an entry of the
log and not a crash. `Server.Freed` says when no callback comes across a session
that was freed, and `Server.Reuse` lets the sessions that are allocated later
have the memory of such ones. What libuv's calls return is not known to the
server: it is read off `uv`, call by call.
-/

namespace Smts

open Circular

/-! ## Errors -/

abbrev smtsOk : Int := 0
abbrev smtsClientNoStart : Int := 7002
abbrev dvrClientInitAddrError : Int := 8001
abbrev dvrConnectRefusedError : Int := 8002
abbrev dvrSendPriviewCmdError : Int := 8003
abbrev dvrRecvFrameError : Int := 8005
abbrev netAddrNotFound : Int := 50001

/-! ## Objects -/

/-- `smts_client_status_t`. -/
inductive ClientStatus where
  | onInit
  | onSendPreviewRes
  | onSendFrames
  | onStop
deriving DecidableEq, Repr, Inhabited

/-- `smts_session_status`. -/
inductive SessionStatus where
  | init
  | running
  | stop
deriving DecidableEq, Repr, Inhabited

/-- The value of the enumerator, which `stop_media_session` answers with. -/
def SessionStatus.toInt : SessionStatus → Int
  | .init => 0
  | .running => 1
  | .stop => 2

/-- `smts_client_t`, and what libuv knows of its socket. -/
structure SmtsClient where
  session : Option Nat
  status : ClientStatus
  /-- `uv_read_start` is in effect -/
  reading : Bool
  /-- `uv_close` was called -/
  closing : Bool
  freed : Bool
deriving DecidableEq, Repr

instance : Inhabited SmtsClient :=
  ⟨{ session := none, status := .onInit, reading := false, closing := false, freed := false }⟩

/-- What libuv knows of the socket in a session's `dvr`. -/
structure SmtsDvrClient where
  /-- a connect is under way -/
  connecting : Bool
  reading : Bool
  closing : Bool
deriving DecidableEq, Repr, Inhabited

/-- `smts_session_t`. -/
structure SmtsSession where
  key : SessionKey
  clientSize : Int
  status : SessionStatus
  exitCode : Int
  /-- `wait_exit_timer` is running -/
  waitExitTimer : Bool
  dvr : SmtsDvrClient
  freed : Bool
deriving DecidableEq, Repr

instance : Inhabited SmtsSession :=
  ⟨{ key := { dvrId := 0, channelNo := 0, frameMode := 0, type := sessionTypeSmts }
     clientSize := 0, status := .init, exitCode := 0, waitExitTimer := false
     dvr := default, freed := false }⟩

/-- `smts_frame_t`; `data` is the packet it came in. -/
structure SmtsFrame where
  data : Nat
  frameData : UvBuf
  type : BitVec 32
  seqno : BitVec 32
  st : BitVec 64
deriving DecidableEq, Repr

instance : Inhabited SmtsFrame :=
  ⟨{ data := 0, frameData := { base := none, len := 0 }, type := 0, seqno := 0, st := 0 }⟩

/-- The `QUEUE`s of the rings of clients: a session's `client`, a client's
`queue`. -/
inductive RingNode where
  | head (s : Nat)
  | client (c : Nat)
deriving DecidableEq, Repr

/-- Whose socket is written to: a client's, or that of a session's DVR. -/
inductive Target where
  | client (c : Nat)
  | dvr (s : Nat)
deriving DecidableEq, Repr

/-- The callbacks that are given to `tcp_client_send_msg`. -/
inductive SendCb where
  | previewResSlient
  | errorPreviewRes
  | sendFrame
  | commonRes
  | dvrPreview
  | sendCmdToDvr
deriving DecidableEq, Repr

/-- `client_write_req_t` of a write that has not completed. -/
structure WriteReq where
  id : Nat
  client : Target
  packet : Nat
  cb : SendCb
deriving DecidableEq, Repr

/-! ## The log -/

inductive Handle where
  | client (c : Nat)
  | dvr (s : Nat)
  | timer (s : Nat)
deriving DecidableEq, Repr

/-- The things that the server can free. -/
inductive Obj where
  | block (p : Ptr)
  | slots (packet : Nat)
  | cmd (packet : Nat)
  | frame (f : Nat)
  | client (c : Nat)
  | session (s : Nat)
  | writeReq (id : Nat)
  | connectReq (s : Nat)
deriving DecidableEq, Repr

/-- What was freed, as an object of the packet's. -/
def Freed.obj (packet : Nat) : Freed → Obj
  | .block p => .block p
  | .slots => .slots packet
  | .struct => .cmd packet

/-- What the server did, as far as it can be told from outside. -/
inductive Obs where
  | uvInit (h : Handle)
  | uvClose (h : Handle)
  | uvClosed (h : Handle)
  /-- `uv_write` of the packet, with the bytes of its slots and the result -/
  | uvWrite (t : Target) (packet : Nat) (cb : SendCb) (bytes : Option (List Byte)) (r : Int)
  | free (o : Obj)
  /-- `add_smts_client` -/
  | attach (c s : Nat)
  /-- the preview response's callback ran -/
  | previewResDone (c : Nat)
  /-- `stop_smts_client` took effect -/
  | stop (c : Nat)
  /-- `on_smts_dvr_client_recv_frame` with status 0 -/
  | recvFrame (s f : Nat)
  /-- `smts_client_send_frame` was called -/
  | sendFrame (c packet : Nat)
  /-- it sent the packet of this frame -/
  | frameSent (c : Nat) (f : Option Nat)
deriving DecidableEq, Repr

/-! ## The server -/

structure Server where
  clients : Nat → SmtsClient
  nClients : Nat
  sessions : Nat → SmtsSession
  nSessions : Nat
  rings : Links RingNode
  manager : SessionManager
  cmds : Nat → NvmpCmd
  nCmds : Nat
  frames : Nat → SmtsFrame
  nFrames : Nat
  heap : Heap
  /-- the writes that have not completed -/
  writes : List WriteReq
  nWrites : Nat
  /-- what libuv's calls return -/
  uv : Nat → Int
  nUv : Nat
  /-- what `malloc` leaves in a packet struct -/
  garbage : Nat → Values NvmpName
  log : List Obs

namespace Server

/-- After `init_session_manager`, with the listener running. -/
def init (uv : Nat → Int) (garbage : Nat → Values NvmpName) : Server where
  clients := fun _ => default
  nClients := 0
  sessions := fun _ => default
  nSessions := 0
  rings := { next := id, prev := id }
  manager := initSessionManager { next := fun _ => .head, prev := fun _ => .head }
  cmds := fun _ => Cmd.init abstractCmd Values.zero
  nCmds := 0
  frames := fun _ => default
  nFrames := 0
  heap := { blocks := [] }
  writes := []
  nWrites := 0
  uv := uv
  nUv := 0
  garbage := garbage
  log := []

def keyOf (w : Server) (s : Nat) : SessionKey := (w.sessions s).key

@[simps]
def setClient (w : Server) (c : Nat) (x : SmtsClient) : Server :=
  { w with clients := Function.update w.clients c x }

@[simps]
def setSession (w : Server) (s : Nat) (x : SmtsSession) : Server :=
  { w with sessions := Function.update w.sessions s x }

@[simps]
def setCmd (w : Server) (p : Nat) (t : NvmpCmd) : Server :=
  { w with cmds := Function.update w.cmds p t }

@[simps]
def emit (w : Server) (o : Obs) : Server :=
  { w with log := w.log ++ [o] }

/-- The `k`-th write that has not completed now has. -/
@[simps]
def eraseWrite (w : Server) (k : Nat) : Server :=
  { w with writes := w.writes.eraseIdx k }

/-- A call of libuv, or of the system behind it. -/
@[simps]
def uvCall (w : Server) : Server × Int :=
  ({ w with nUv := w.nUv + 1 }, w.uv w.nUv)

/-! ## Packets and frames -/

/-- A struct was `malloc`ed and holds `t`; its address is the next one. -/
@[simps]
def addCmd (w : Server) (t : NvmpCmd) : Server :=
  { w with cmds := Function.update w.cmds w.nCmds t, nCmds := w.nCmds + 1 }

@[simps]
def setHeap (w : Server) (h : Heap) : Server :=
  { w with heap := h }

/-- A struct was `malloc`ed, filled in as `t` and encoded. -/
def encodeNew (w : Server) (t : NvmpCmd) : Option Server := do
  let (h, t) ← t.encode w.heap
  some ((w.setHeap h).addCmd t)

/-- A struct just `malloc`ed and initialised; its other members hold what lay
there. -/
def initCmd (w : Server) (T : NvmpType) : NvmpCmd := Cmd.init T (w.garbage w.nCmds)

@[simps]
def addFrame (w : Server) (x : SmtsFrame) : Server :=
  { w with frames := Function.update w.frames w.nFrames x, nFrames := w.nFrames + 1 }

/-- `proto_cmd_t_destroy`. -/
@[simps]
def protoCmdDestroy (w : Server) (p : Nat) : Server :=
  { w with
    cmds := Function.update w.cmds p (w.cmds p).destroy.1
    log := w.log ++ (w.cmds p).destroy.2.map fun x => .free (x.obj p) }

/-- `proto_cmd_t_increase_ref`. -/
@[simps!]
def protoCmdIncreaseRef (w : Server) (p : Nat) : Server :=
  w.setCmd p (w.cmds p).increaseRef

/-- `destroy_smts_frame`. -/
@[simps!]
def destroySmtsFrame (w : Server) (f : Nat) : Server :=
  (w.protoCmdDestroy (w.frames f).data).emit (.free (.frame f))

end Server

end Smts
