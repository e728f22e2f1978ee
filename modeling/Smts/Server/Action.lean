import Smts.Server.Handlers

/-!
# Server — what a callback can do

Every handler is a sequence of a few kinds of actions. They are listed once,
with what the handlers guarantee of each: which packets are touched, to which
session's DVR is written, when a client's status moves. An invariant is then
checked action by action and not handler by handler.
-/

namespace Smts

open Circular

/-- Observations of packets, frames and their buffers: what is written, sent on
as a frame, or freed of them. -/
def Obs.ofMemory : Obs → Bool
  | .uvWrite .. | .sendFrame .. => true
  | .free (.block _) | .free (.slots _) | .free (.cmd _) | .free (.frame _) => true
  | _ => false

/-- Observations of a client: what it was sent and why, and its end. -/
def Obs.ofStream : Obs → Bool
  | .attach .. | .previewResDone _ | .stop _ | .recvFrame .. | .frameSent .. => true
  | .uvClose (.client _) => true
  | _ => false

/-- The session whose handles, or whose memory, an observation is of. -/
def Obs.session? : Obs → Option Nat
  | .uvInit (.dvr s) | .uvInit (.timer s) => some s
  | .uvClose (.dvr s) | .uvClose (.timer s) => some s
  | .uvClosed (.dvr s) | .uvClosed (.timer s) => some s
  | .free (.session s) => some s
  | _ => none

/-- The request whose memory this entry of the log frees, if it frees one. -/
def Obs.request? : Obs → Option Obj
  | .free (.writeReq id) => some (.writeReq id)
  | .free (.connectReq s) => some (.connectReq s)
  | _ => none

/-- The session whose DVR is written to, when it is not a client. -/
def Target.dvr? : Target → Option Nat
  | .client _ => none
  | .dvr s => some s

/-- What `media_client_stop_preview` makes of a session when a client leaves it;
the last one starts the exit timer. -/
def SmtsSession.leave (x : SmtsSession) : SmtsSession :=
  { x with
    clientSize := x.clientSize - 1
    waitExitTimer := decide (x.clientSize - 1 = 0) || x.waitExitTimer }

/-- What `stop_smts_client` makes of a client, whatever it was before. -/
def SmtsClient.stopped (x : SmtsClient) : SmtsClient :=
  { x with session := none, status := .onStop, reading := false, closing := true }

namespace Server

/-! ## Actions -/

/-- What a callback is about: which clients, sessions and requests its actions
may concern. -/
structure Scope where
  /-- a client has connected -/
  connection : Bool := false
  /-- the client that was read from -/
  reader : Option Nat := none
  /-- the client whose preview request is handled -/
  join : Option Nat := none
  /-- the write that completed -/
  write : Option WriteReq := none
  /-- the request that is freed when the callback returns -/
  request : Option Obj := none
  /-- the session whose DVR is heard of -/
  dvr : Option Nat := none
  /-- the session whose exit timer fired, or whose DVR's socket was closed -/
  exit : Option Nat := none
  /-- a frame is passed on -/
  relay : Bool := false
  /-- the clients a loop over a ring may come to -/
  reach : Nat → Prop := fun _ => True

/-- What each callback is about. -/
def scope (w : Server) : Event → Scope
  | .connection => { connection := true }
  | .packet c bytes junk => { reader := some c, join := (Event.packet c bytes junk).preview }
  | .readError c _ => { reader := some c }
  | .dvrConnected s _ => { dvr := some s, request := some (.connectReq s) }
  | .dvrReadError s _ => { dvr := some s }
  | .dvrPacket s _ _ => { dvr := some s, relay := true }
  | .writeDone k _ =>
      { write := w.writes[k]?
        request := w.writes[k]?.map fun req => .writeReq req.id
        dvr := w.writes[k]?.bind fun req => req.client.dvr? }
  | .timer s | .dvrClosed s => { exit := some s }
  | .clientClosed _ => {}

/-- A packet that is this callback's business: its own, or made since it was
entered in `w₀`. -/
def Scope.Owns (S : Scope) (w₀ w : Server) (p : Nat) : Prop :=
  (∃ req, S.write = some req ∧ req.packet = p) ∨ w₀.nCmds ≤ p ∧ p < w.nCmds

/-- A client this callback may write to or stop. -/
def Scope.Reaches (S : Scope) (c : Nat) : Prop :=
  S.reach c ∨ S.reader = some c ∨ ∃ req, S.write = some req ∧ req.client = .client c

theorem Scope.Owns.mono {S : Scope} {w₀ w w' : Server} {p : Nat} (h : S.Owns w₀ w p)
    (hle : w.nCmds ≤ w'.nCmds) : S.Owns w₀ w' p :=
  h.imp_right fun ⟨hge, hlt⟩ => ⟨hge, hlt.trans_le hle⟩

/-- How a session `s` may change besides its ring and count. -/
structure Scope.Touches (S : Scope) (s : Nat) (x y : SmtsSession) : Prop where
  scope : S.dvr = some s ∨ S.exit = some s ∨ S.join ≠ none
  key : y.key = x.key
  clientSize : y.clientSize = x.clientSize
  freed : x.freed = true → y.freed = true
  exit : S.exit = some s ∨
    y.waitExitTimer = x.waitExitTimer ∧ y.dvr.closing = x.dvr.closing ∧ y.freed = x.freed
  dvr : S.dvr = some s ∨ S.join ≠ none ∨
    (y.dvr.connecting = true → x.dvr.connecting = true) ∧
      (y.dvr.reading = true → x.dvr.reading = true)
  connecting : S.request = some (.connectReq s) ∨ S.join ≠ none ∨
    y.dvr.connecting = x.dvr.connecting

/-- One action of a callback that was entered in `w₀`. -/
inductive Action (S : Scope) (w₀ w : Server) : Server → Prop where
  | uvCall {w' : Server} {r : Int} (h : w.uvCall = (w', r)) : Action S w₀ w w'
  | emit {o : Obs} (hmem : o.ofMemory = false) (hstream : o.ofStream = false)
      (hsession : ∀ s, o.session? = some s → S.join ≠ none ∨ S.exit = some s)
      (hrequest : ∀ x, o.request? = some x → S.request = some x) : Action S w₀ w (w.emit o)
  | encodeNew {t : NvmpCmd} {w' : Server} (hwf : t.type.WellFormed)
      (hdata : ∀ f, t.data = some f → w₀.nFrames ≤ f ∧ f < w.nFrames)
      (hrefs : ∀ f ∈ t.type.fields, ∀ u p, payloadRef t.vals f = some u → u.base = some p →
        w₀.heap.blocks.length ≤ p.block ∧ p.block < w.heap.blocks.length)
      (h : w.encodeNew t = some w') : Action S w₀ w w'
  | receive {b : List Byte} {read : Reader} {len : BitVec 64} {T : NvmpType} {t : NvmpCmd}
      (h : (w.initCmd T).decode read (w.heap.receive b).2 len = some t) :
      Action S w₀ w ((w.setHeap (w.heap.receive b).1).addCmd t)
  | drop (bytes : List Byte) :
      Action S w₀ w ((w.setHeap (w.heap.receive bytes).1).emit
        (.free (.block (w.heap.receive bytes).2)))
  | addFrame {x : SmtsFrame} (hx : w₀.nCmds ≤ x.data) (hlt : x.data < w.nCmds) :
      Action S w₀ w (w.addFrame x)
  | increaseRef {p : Nat} (hp : S.Owns w₀ w p) : Action S w₀ w (w.protoCmdIncreaseRef p)
  | addRef {p : Nat} (hp : S.Owns w₀ w p) (n : Int) :
      Action S w₀ w (w.setCmd p { w.cmds p with ref := (w.cmds p).ref + n })
  | destroy {p : Nat} (hp : S.Owns w₀ w p) : Action S w₀ w (w.protoCmdDestroy p)
  | dropRef {p : Nat} {w' : Server} (hp : S.Owns w₀ w p)
      (h : w.onSmtsClientSendFrame p = some w') : Action S w₀ w w'
  | destroyFrame {f : Nat} (hf : w₀.nFrames ≤ f) (hlt : f < w.nFrames) :
      Action S w₀ w (w.destroySmtsFrame f)
  | send {t : Target} {p : Nat} {cb : SendCb} {w' : Server} {r : Int} (hp : S.Owns w₀ w p)
      (hcb : cb ≠ .previewResSlient)
      (hdvr : ∀ s, t = .dvr s → S.dvr = some s ∨ ∃ c, (w.clients c).session = some s)
      (hclient : ∀ c, t = .client c → S.Reaches c)
      (h : w.tcpClientSendMsg t p cb = (w', r)) : Action S w₀ w w'
  | sendPreviewRes {c p : Nat} {w' : Server} {r : Int} (hp : S.Owns w₀ w p) (hv : S.Reaches c)
      (hc : (w.clients c).status = .onInit)
      (h : (w.setClient c { w.clients c with status := .onSendPreviewRes }).tcpClientSendMsg
        (.client c) p .previewResSlient = (w', r)) : Action S w₀ w w'
  | complete {k : Nat} {req : WriteReq} (hk : w.writes[k]? = some req)
      (hS : S.write = some req) (hcb : req.cb ≠ .previewResSlient) :
      Action S w₀ w (w.eraseWrite k)
  | previewResDone {k : Nat} {req : WriteReq} {c : Nat} (hk : w.writes[k]? = some req)
      (hS : S.write = some req) (hcb : req.cb = .previewResSlient)
      (hc : req.client = .client c) :
      Action S w₀ w ((((w.eraseWrite k).protoCmdDestroy req.packet).emit
        (.previewResDone c)).setClient c { w.clients c with status := .onSendFrames })
  | relay {o : Obs} (hS : S.relay = true)
      (ho : (∃ s f, o = .recvFrame s f) ∨ (∃ c f, o = .frameSent c f) ∨
        ∃ c p, o = .sendFrame c p ∧ S.Owns w₀ w p) : Action S w₀ w (w.emit o)
  | stop {c : Nat} (hv : S.Reaches c) : Action S w₀ w (w.stopSmtsClient c)
  | touch {s : Nat} {x : SmtsSession} (h : S.Touches s (w.sessions s) x) :
      Action S w₀ w (w.setSession s x)
  | delete {fuel s : Nat} {w' : Server} (h : w.deleteSession fuel s = some w') :
      Action S w₀ w w'
  | initClient (hS : S.connection = true) : Action S w₀ w w.initSmtsClient
  | startRead (hS : S.connection = true) (c : Nat) :
      Action S w₀ w (w.setClient c { w.clients c with reading := true })
  | close (hS : S.connection = true) {c : Nat} (hc : (w.clients c).session = none) :
      Action S w₀ w (w.closeClient c)
  | closed {c : Nat} (hc : (w.clients c).closing = true) : Action S w₀ w (w.clientCloseCb c)
  | initSession (hS : S.join ≠ none) (key : SessionKey) :
      Action S w₀ w (w.initMediaSession key)
  | attach {c : Nat} (hS : S.join = some c) (s : Nat) : Action S w₀ w (w.addSmtsClient s c)
  | manage (hS : S.join ≠ none) (m : SessionManager) : Action S w₀ w { w with manager := m }
  | abort {c : Nat} (hS : S.join = some c) (s : Nat) : Action S w₀ w (w.initSessionError s c)

/-- What handling a callback that was entered in `w₀` may have come to. -/
inductive Does (S : Scope) (w₀ : Server) : Server → Prop where
  | start : Does S w₀ w₀
  | step {w w' : Server} : Does S w₀ w → Action S w₀ w w' → Does S w₀ w'

/-! ## Stopping a client, in one step -/

theorem mediaClientStopPreview_eq (w : Server) (s c : Nat) :
    w.mediaClientStopPreview s c
      = { w with
          rings := w.rings.remove (.client c)
          sessions := Function.update w.sessions s (w.sessions s).leave
          clients := Function.update w.clients c { w.clients c with session := none } } := by
  rw [mediaClientStopPreview]
  simp only [setSession, setClient, waitExitSession, Function.update_self, Function.update_idem]
  split
  next hz => simp [SmtsSession.leave, hz]
  next hne => simp [SmtsSession.leave, hne]

/-- A client that was stopped stays as it is. -/
theorem stopSmtsClient_of_onStop {w : Server} {c : Nat} (h : (w.clients c).status = .onStop) :
    w.stopSmtsClient c = w := by
  rw [stopSmtsClient, if_neg (not_not.mpr h)]

theorem stopSmtsClient_cases (w : Server) (c : Nat) :
    let w₁ : Server := { w with
      clients := Function.update w.clients c (w.clients c).stopped
      log := w.log ++ [.stop c, .uvClose (.client c)] }
    ((w.clients c).status = .onStop ∧ w.stopSmtsClient c = w) ∨
      ((w.clients c).status ≠ .onStop ∧ (w.clients c).session = none ∧
        w.stopSmtsClient c = w₁) ∨
      ((w.clients c).status ≠ .onStop ∧ ∃ s, (w.clients c).session = some s ∧
        w.stopSmtsClient c = { w₁ with
          rings := w.rings.remove (.client c)
          sessions := Function.update w.sessions s (w.sessions s).leave }) := by
  intro w₁
  by_cases h : (w.clients c).status = .onStop
  · exact .inl ⟨h, stopSmtsClient_of_onStop h⟩
  · rw [stopSmtsClient, if_pos h]
    cases hs : (w.clients c).session with
    | none =>
        refine .inr (.inl ⟨h, rfl, ?_⟩)
        simp [hs, closeClient, setClient, emit, SmtsClient.stopped, w₁]
    | some s =>
        refine .inr (.inr ⟨h, s, rfl, ?_⟩)
        simp [mediaClientStopPreview_eq, hs, closeClient, setClient, emit, SmtsClient.stopped, w₁]

theorem stopSmtsClient_status (w : Server) (c : Nat) :
    ((w.stopSmtsClient c).clients c).status = .onStop := by
  obtain ⟨h, hstop⟩ | ⟨-, -, hstop⟩ | ⟨-, s, -, hstop⟩ := stopSmtsClient_cases w c <;> rw [hstop]
  · exact h
  · simp [SmtsClient.stopped]
  · simp [SmtsClient.stopped]

/-! ## Actions that leave memory alone -/

/-- No packet, frame, buffer or write is touched. -/
structure NetOnly (w w' : Server) : Prop where
  cmds : w'.cmds = w.cmds
  nCmds : w'.nCmds = w.nCmds
  frames : w'.frames = w.frames
  nFrames : w'.nFrames = w.nFrames
  heap : w'.heap = w.heap
  writes : w'.writes = w.writes
  log : ∃ m, w'.log = w.log ++ m ∧ ∀ o ∈ m, o.ofMemory = false

namespace NetOnly

theorem uvCall {w w' : Server} {r : Int} (h : w.uvCall = (w', r)) : NetOnly w w' := by
  obtain ⟨rfl, -⟩ := Prod.mk.inj h
  exact ⟨rfl, rfl, rfl, rfl, rfl, rfl, [], by simp, by simp⟩

theorem emit (w : Server) {o : Obs} (ho : o.ofMemory = false) : NetOnly w (w.emit o) :=
  ⟨rfl, rfl, rfl, rfl, rfl, rfl, [o], rfl, by simpa using ho⟩

theorem setSession (w : Server) (s : Nat) (x : SmtsSession) : NetOnly w (w.setSession s x) :=
  ⟨rfl, rfl, rfl, rfl, rfl, rfl, [], by simp [Server.setSession], by simp⟩

theorem setClient (w : Server) (c : Nat) (x : SmtsClient) : NetOnly w (w.setClient c x) :=
  ⟨rfl, rfl, rfl, rfl, rfl, rfl, [], by simp [Server.setClient], by simp⟩

theorem manage (w : Server) (m : SessionManager) : NetOnly w { w with manager := m } :=
  ⟨rfl, rfl, rfl, rfl, rfl, rfl, [], by simp, by simp⟩

theorem trans {a b c : Server} (h : NetOnly a b) (h' : NetOnly b c) : NetOnly a c := by
  obtain ⟨m, hm, hmo⟩ := h.log
  obtain ⟨m', hm', hmo'⟩ := h'.log
  refine ⟨h'.cmds.trans h.cmds, h'.nCmds.trans h.nCmds, h'.frames.trans h.frames,
    h'.nFrames.trans h.nFrames, h'.heap.trans h.heap, h'.writes.trans h.writes, m ++ m', ?_, ?_⟩
  · rw [hm', hm, List.append_assoc]
  · intro o ho
    exact (List.mem_append.mp ho).elim (hmo o) (hmo' o)

theorem closeClient (w : Server) (c : Nat) : NetOnly w (w.closeClient c) :=
  ⟨rfl, rfl, rfl, rfl, rfl, rfl, [_], rfl, by simp [Obs.ofMemory]⟩

theorem stopSmtsClient (w : Server) (c : Nat) : NetOnly w (w.stopSmtsClient c) := by
  obtain ⟨-, h⟩ | ⟨-, -, h⟩ | ⟨-, s, -, h⟩ := stopSmtsClient_cases w c <;> rw [h]
  · exact ⟨rfl, rfl, rfl, rfl, rfl, rfl, [], (List.append_nil _).symm, by simp⟩
  · exact ⟨rfl, rfl, rfl, rfl, rfl, rfl, _, rfl, by simp [Obs.ofMemory]⟩
  · exact ⟨rfl, rfl, rfl, rfl, rfl, rfl, _, rfl, by simp [Obs.ofMemory]⟩

theorem deleteSession {w w' : Server} {fuel s : Nat} (h : w.deleteSession fuel s = some w') :
    NetOnly w w' := by
  obtain ⟨⟨m, r⟩, -, h⟩ := Option.bind_eq_some_iff.mp h
  obtain rfl := Option.some.inj h
  exact manage w m

theorem initSmtsClient (w : Server) : NetOnly w w.initSmtsClient :=
  ⟨rfl, rfl, rfl, rfl, rfl, rfl, [_], rfl, by simp [Obs.ofMemory]⟩

theorem clientCloseCb (w : Server) (c : Nat) : NetOnly w (w.clientCloseCb c) :=
  ⟨rfl, rfl, rfl, rfl, rfl, rfl, [.uvClosed (.client c), .free (.client c)], by
    simp [Server.clientCloseCb, Server.emit, Server.setClient], by simp [Obs.ofMemory]⟩

theorem initMediaSession (w : Server) (key : SessionKey) :
    NetOnly w (w.initMediaSession key) :=
  ⟨rfl, rfl, rfl, rfl, rfl, rfl, [_], rfl, by simp [Obs.ofMemory]⟩

theorem addSmtsClient (w : Server) (s c : Nat) : NetOnly w (w.addSmtsClient s c) :=
  ⟨rfl, rfl, rfl, rfl, rfl, rfl, [_], rfl, by simp [Obs.ofMemory]⟩

theorem initSessionError (w : Server) (s c : Nat) : NetOnly w (w.initSessionError s c) :=
  ⟨rfl, rfl, rfl, rfl, rfl, rfl, [_], rfl, by simp [Obs.ofMemory]⟩

end NetOnly

/-! ## What the primitives leave -/

/-- Encoding makes one buffer and one packet, and frees them both in the end. -/
theorem encodeNew_spec {w w' : Server} {t : NvmpCmd} (hwf : t.type.WellFormed)
    (h : w.encodeNew t = some w') :
    ∃ block t', w' = (w.setHeap { blocks := w.heap.blocks ++ [block] }).addCmd t' ∧
      t'.type = t.type ∧ t'.data = t.data ∧ t'.ref = 0 ∧
      t'.frees = [.block ⟨w.heap.blocks.length, 0⟩, .slots, .struct] ∧
      ∀ b, t'.Uses b → b = w.heap.blocks.length ∨ ∃ f ∈ t.type.fields, ∃ u p,
        payloadRef t.vals f = some u ∧ u.base = some p ∧ p.block = b := by
  obtain ⟨block, c, henc, hfrees, huses⟩ := encode_frees w.heap hwf
  rw [encodeNew, henc] at h
  exact ⟨block, _, (Option.some.inj h).symm, rfl, rfl, rfl, hfrees, huses⟩

theorem encodeNew_nCmds {w w' : Server} {t : NvmpCmd} (h : w.encodeNew t = some w') :
    w'.nCmds = w.nCmds + 1 := by
  obtain ⟨⟨h', t'⟩, -, h⟩ := Option.bind_eq_some_iff.mp h
  obtain rfl := Option.some.inj h
  rfl

theorem encodeNew_clients {w w' : Server} {t : NvmpCmd} (h : w.encodeNew t = some w') :
    w'.clients = w.clients := by
  obtain ⟨⟨h', t'⟩, -, h⟩ := Option.bind_eq_some_iff.mp h
  obtain rfl := Option.some.inj h
  rfl

theorem encodeNew_writes {w w' : Server} {t : NvmpCmd} (h : w.encodeNew t = some w') :
    w'.writes = w.writes := by
  obtain ⟨⟨h', t'⟩, -, h⟩ := Option.bind_eq_some_iff.mp h
  obtain rfl := Option.some.inj h
  rfl

theorem encodeNew_log {w w' : Server} {t : NvmpCmd} (h : w.encodeNew t = some w') :
    w'.log = w.log := by
  obtain ⟨⟨h', t'⟩, -, h⟩ := Option.bind_eq_some_iff.mp h
  obtain rfl := Option.some.inj h
  rfl

theorem onSmtsClientSendFrame_cases {w w' : Server} {p : Nat}
    (h : w.onSmtsClientSendFrame p = some w') :
    let w₁ := w.setCmd p { w.cmds p with ref := (w.cmds p).ref - 1 }
    ((w.cmds p).ref ≠ 1 ∧ w' = w₁) ∨
      ((w.cmds p).ref = 1 ∧ ∃ f, (w.cmds p).data = some f ∧
        w' = (w₁.protoCmdDestroy p).destroySmtsFrame f) := by
  intro w₁
  have hp : w₁.cmds p = { w.cmds p with ref := (w.cmds p).ref - 1 } := Function.update_self ..
  rw [onSmtsClientSendFrame] at h
  change (if (w₁.cmds p).ref = 0 then _ else _) = _ at h
  rw [hp] at h
  split at h
  next hz =>
    have hz : (w.cmds p).ref - 1 = 0 := hz
    obtain ⟨f, hf, h⟩ := Option.bind_eq_some_iff.mp h
    exact .inr ⟨by omega, f, hf, (Option.some.inj h).symm⟩
  next hz =>
    have hz : ¬ (w.cmds p).ref - 1 = 0 := hz
    exact .inl ⟨by omega, (Option.some.inj h).symm⟩

theorem tcpClientSendMsg_cases {w w' : Server} {t : Target} {p : Nat} {cb : SendCb} {r : Int}
    (h : w.tcpClientSendMsg t p cb = (w', r)) :
    let w₁ : Server := { w with
      nWrites := w.nWrites + 1
      nUv := w.nUv + 1
      log := w.log ++ [.uvWrite t p cb ((w.cmds p).wire w.heap) r] }
    (r = 0 ∧ w' = { w₁ with writes := w.writes ++ [⟨w.nWrites, t, p, cb⟩] }) ∨
      (r ≠ 0 ∧ w' = w₁) := by
  rw [tcpClientSendMsg] at h
  change (if w.uv w.nUv = 0 then _ else _) = _ at h
  split at h
  next hz =>
    obtain ⟨rfl, rfl⟩ := Prod.mk.inj h
    exact .inl ⟨hz, rfl⟩
  next hz =>
    obtain ⟨rfl, rfl⟩ := Prod.mk.inj h
    exact .inr ⟨hz, rfl⟩

theorem tcpClientSendMsg_nCmds {w w' : Server} {t : Target} {p : Nat} {cb : SendCb} {r : Int}
    (h : w.tcpClientSendMsg t p cb = (w', r)) : w'.nCmds = w.nCmds := by
  obtain ⟨-, rfl⟩ | ⟨-, rfl⟩ := tcpClientSendMsg_cases h <;> rfl

theorem tcpClientSendMsg_log {w w' : Server} {t : Target} {p : Nat} {cb : SendCb} {r : Int}
    (h : w.tcpClientSendMsg t p cb = (w', r)) :
    w'.log = w.log ++ [.uvWrite t p cb ((w.cmds p).wire w.heap) r] := by
  obtain ⟨-, rfl⟩ | ⟨-, rfl⟩ := tcpClientSendMsg_cases h <;> rfl

@[simp]
theorem tcpClientSendMsg_fst_nCmds (w : Server) (t : Target) (p : Nat) (cb : SendCb) :
    (w.tcpClientSendMsg t p cb).1.nCmds = w.nCmds :=
  tcpClientSendMsg_nCmds (Prod.eta _).symm

/-! ## Actions that leave the clients and sessions alone -/

/-- No client, session, ring or link of the manager is touched. -/
structure SameNet (w w' : Server) : Prop where
  clients : w'.clients = w.clients
  nClients : w'.nClients = w.nClients
  sessions : w'.sessions = w.sessions
  nSessions : w'.nSessions = w.nSessions
  rings : w'.rings = w.rings
  manager : w'.manager = w.manager

/-- Nor is anything observed of the clients' streams. -/
structure MemOnly (w w' : Server) : Prop extends SameNet w w' where
  log : ∃ m, w'.log = w.log ++ m ∧ ∀ o ∈ m, o.ofStream = false

theorem SameNet.trans {a b c : Server} (h : SameNet a b) (h' : SameNet b c) : SameNet a c :=
  ⟨h'.clients.trans h.clients, h'.nClients.trans h.nClients, h'.sessions.trans h.sessions,
    h'.nSessions.trans h.nSessions, h'.rings.trans h.rings, h'.manager.trans h.manager⟩

theorem SameNet.emit (w : Server) (o : Obs) : SameNet w (w.emit o) :=
  ⟨rfl, rfl, rfl, rfl, rfl, rfl⟩

namespace MemOnly

theorem of_log_eq {w w' : Server} (h : SameNet w w') (hlog : w'.log = w.log) : MemOnly w w' :=
  ⟨h, [], by simp [hlog], by simp⟩

theorem trans {a b c : Server} (h : MemOnly a b) (h' : MemOnly b c) : MemOnly a c := by
  obtain ⟨m, hm, hmo⟩ := h.log
  obtain ⟨m', hm', hmo'⟩ := h'.log
  refine ⟨h.toSameNet.trans h'.toSameNet, m ++ m', by rw [hm', hm, List.append_assoc], ?_⟩
  intro o ho
  exact (List.mem_append.mp ho).elim (hmo o) (hmo' o)

theorem uvCall {w w' : Server} {r : Int} (h : w.uvCall = (w', r)) : MemOnly w w' := by
  obtain ⟨rfl, -⟩ := Prod.mk.inj h
  exact of_log_eq ⟨rfl, rfl, rfl, rfl, rfl, rfl⟩ rfl

theorem emit (w : Server) {o : Obs} (ho : o.ofStream = false) : MemOnly w (w.emit o) :=
  ⟨.emit w o, [o], rfl, by simpa using ho⟩

theorem setHeap (w : Server) (h : Heap) : MemOnly w (w.setHeap h) :=
  of_log_eq ⟨rfl, rfl, rfl, rfl, rfl, rfl⟩ rfl

theorem addCmd (w : Server) (t : NvmpCmd) : MemOnly w (w.addCmd t) :=
  of_log_eq ⟨rfl, rfl, rfl, rfl, rfl, rfl⟩ rfl

theorem addFrame (w : Server) (x : SmtsFrame) : MemOnly w (w.addFrame x) :=
  of_log_eq ⟨rfl, rfl, rfl, rfl, rfl, rfl⟩ rfl

theorem setCmd (w : Server) (p : Nat) (t : NvmpCmd) : MemOnly w (w.setCmd p t) :=
  of_log_eq ⟨rfl, rfl, rfl, rfl, rfl, rfl⟩ rfl

theorem eraseWrite (w : Server) (k : Nat) : MemOnly w (w.eraseWrite k) :=
  of_log_eq ⟨rfl, rfl, rfl, rfl, rfl, rfl⟩ rfl

theorem encodeNew {w w' : Server} {t : NvmpCmd} (h : w.encodeNew t = some w') : MemOnly w w' := by
  obtain ⟨⟨h', t'⟩, -, h⟩ := Option.bind_eq_some_iff.mp h
  obtain rfl := Option.some.inj h
  exact (setHeap w h').trans (addCmd _ t')

theorem protoCmdDestroy (w : Server) (p : Nat) : MemOnly w (w.protoCmdDestroy p) := by
  refine ⟨⟨rfl, rfl, rfl, rfl, rfl, rfl⟩, _, rfl, fun o ho => ?_⟩
  obtain ⟨x, -, rfl⟩ := List.mem_map.mp ho
  rfl

theorem destroySmtsFrame (w : Server) (f : Nat) : MemOnly w (w.destroySmtsFrame f) :=
  (protoCmdDestroy w _).trans (emit _ rfl)

theorem onSmtsClientSendFrame {w w' : Server} {p : Nat}
    (h : w.onSmtsClientSendFrame p = some w') : MemOnly w w' := by
  have hset := setCmd w p { w.cmds p with ref := (w.cmds p).ref - 1 }
  obtain ⟨-, rfl⟩ | ⟨-, f, -, rfl⟩ := onSmtsClientSendFrame_cases h
  · exact hset
  · exact hset.trans ((protoCmdDestroy _ p).trans (destroySmtsFrame _ f))

theorem tcpClientSendMsg {w w' : Server} {t : Target} {p : Nat} {cb : SendCb} {r : Int}
    (h : w.tcpClientSendMsg t p cb = (w', r)) : MemOnly w w' := by
  obtain ⟨-, rfl⟩ | ⟨-, rfl⟩ := tcpClientSendMsg_cases h
  · exact ⟨⟨rfl, rfl, rfl, rfl, rfl, rfl⟩, _, rfl, by simp [Obs.ofStream]⟩
  · exact ⟨⟨rfl, rfl, rfl, rfl, rfl, rfl⟩, _, rfl, by simp [Obs.ofStream]⟩

end MemOnly

/-! ## Only more is allocated -/

/-- The allocators only count up: no session, packet, frame or buffer is unmade. -/
structure Grows (w w' : Server) : Prop where
  nSessions : w.nSessions ≤ w'.nSessions
  nCmds : w.nCmds ≤ w'.nCmds
  nFrames : w.nFrames ≤ w'.nFrames
  blocks : w.heap.blocks.length ≤ w'.heap.blocks.length

theorem Grows.of_eq {w w' : Server} (hs : w'.nSessions = w.nSessions) (hc : w'.nCmds = w.nCmds)
    (hf : w'.nFrames = w.nFrames) (hb : w'.heap = w.heap) : Grows w w' :=
  ⟨hs.ge, hc.ge, hf.ge, by rw [hb]⟩

theorem Grows.trans {a b c : Server} (h : Grows a b) (h' : Grows b c) : Grows a c :=
  ⟨h.nSessions.trans h'.nSessions, h.nCmds.trans h'.nCmds, h.nFrames.trans h'.nFrames,
    h.blocks.trans h'.blocks⟩

theorem stopSmtsClient_nSessions (w : Server) (c : Nat) :
    (w.stopSmtsClient c).nSessions = w.nSessions := by
  obtain ⟨-, h⟩ | ⟨-, -, h⟩ | ⟨-, s, -, h⟩ := stopSmtsClient_cases w c <;> rw [h]

theorem NetOnly.grows {w w' : Server} (h : NetOnly w w') (hs : w.nSessions ≤ w'.nSessions) :
    Grows w w' :=
  ⟨hs, h.nCmds.ge, h.nFrames.ge, by rw [h.heap]⟩

theorem Action.grows {S : Scope} {w₀ w w' : Server} (h : Action S w₀ w w') : Grows w w' := by
  cases h with
  | uvCall h =>
      obtain ⟨rfl, -⟩ := Prod.mk.inj h
      exact .of_eq rfl rfl rfl rfl
  | emit _ _ _ _ => exact .of_eq rfl rfl rfl rfl
  | encodeNew hwf _ _ h =>
      obtain ⟨block, t', rfl, -⟩ := encodeNew_spec hwf h
      exact ⟨by simp, by simp, by simp, by simp⟩
  | receive _ => exact ⟨by simp, by simp, by simp, by simp [Heap.receive]⟩
  | drop bytes => exact ⟨by simp, by simp, by simp, by simp [Heap.receive]⟩
  | addFrame _ _ => exact ⟨by simp, by simp, by simp, by simp⟩
  | increaseRef _ => exact .of_eq (by simp) (by simp) (by simp) (by simp)
  | addRef _ _ => exact .of_eq (by simp) (by simp) (by simp) (by simp)
  | destroy _ => exact .of_eq (by simp) (by simp) (by simp) (by simp)
  | dropRef _ h =>
      obtain ⟨-, rfl⟩ | ⟨-, f, -, rfl⟩ := onSmtsClientSendFrame_cases h
      · exact .of_eq (by simp) (by simp) (by simp) (by simp)
      · exact .of_eq (by simp) (by simp) (by simp) (by simp)
  | destroyFrame _ _ => exact .of_eq (by simp) (by simp) (by simp) (by simp)
  | send _ _ _ _ h =>
      obtain ⟨-, rfl⟩ | ⟨-, rfl⟩ := tcpClientSendMsg_cases h <;> exact .of_eq rfl rfl rfl rfl
  | sendPreviewRes _ _ _ h =>
      obtain ⟨-, rfl⟩ | ⟨-, rfl⟩ := tcpClientSendMsg_cases h <;> exact .of_eq rfl rfl rfl rfl
  | complete _ _ _ => exact .of_eq rfl rfl rfl rfl
  | previewResDone _ _ _ _ => exact .of_eq (by simp) (by simp) (by simp) (by simp)
  | relay _ _ => exact .of_eq rfl rfl rfl rfl
  | stop _ => exact (NetOnly.stopSmtsClient w _).grows (stopSmtsClient_nSessions w _).ge
  | touch _ => exact .of_eq rfl rfl rfl rfl
  | delete h =>
      obtain ⟨⟨m, r⟩, -, h⟩ := Option.bind_eq_some_iff.mp h
      obtain rfl := Option.some.inj h
      exact .of_eq rfl rfl rfl rfl
  | initClient _ => exact .of_eq rfl rfl rfl rfl
  | startRead _ c => exact .of_eq rfl rfl rfl rfl
  | close _ _ => exact .of_eq rfl rfl rfl rfl
  | closed _ => exact .of_eq rfl rfl rfl rfl
  | initSession _ key => exact ⟨Nat.le_succ _, le_rfl, le_rfl, le_rfl⟩
  | attach _ s => exact .of_eq rfl rfl rfl rfl
  | manage _ m => exact .of_eq rfl rfl rfl rfl
  | abort _ s => exact .of_eq rfl rfl rfl rfl

theorem Does.grows {S : Scope} {w₀ w : Server} (h : Does S w₀ w) : Grows w₀ w := by
  induction h with
  | start => exact .of_eq rfl rfl rfl rfl
  | step _ ha ih => exact ih.trans ha.grows

/-! ## Rounds of the loops over a ring -/

/-- A round at client `c` leaves the ring alone or takes `c` out of it, and
leaves the other clients alone. -/
structure Tame (c : Nat) (w w' : Server) : Prop where
  rings : w'.rings = w.rings ∨ w'.rings = w.rings.remove (.client c)
  clients : ∀ d, d ≠ c → w'.clients d = w.clients d
  nCmds : w.nCmds ≤ w'.nCmds

theorem MemOnly.tame {w w' : Server} (h : MemOnly w w') (hle : w.nCmds ≤ w'.nCmds) (c : Nat) :
    Tame c w w' :=
  ⟨.inl h.rings, fun _ _ => by rw [h.clients], hle⟩

theorem MemOnly.tame_trans {c : Nat} {a b w : Server} (h : MemOnly a b)
    (hle : a.nCmds ≤ b.nCmds) (h' : Tame c b w) : Tame c a w :=
  ⟨h.rings ▸ h'.rings, fun d hd => by rw [h'.clients d hd, h.clients], hle.trans h'.nCmds⟩

theorem setClient_tame_trans {c : Nat} {w w' : Server} {x : SmtsClient}
    (h : Tame c (w.setClient c x) w') : Tame c w w' :=
  ⟨h.rings, fun d hd => by rw [h.clients d hd, setClient_clients, Function.update_of_ne hd],
    h.nCmds⟩

theorem emit_tame_trans {c : Nat} {w w' : Server} {o : Obs} (h : Tame c (w.emit o) w') :
    Tame c w w' :=
  ⟨h.rings, h.clients, h.nCmds⟩

theorem stopSmtsClient_tame (w : Server) (c : Nat) : Tame c w (w.stopSmtsClient c) := by
  obtain ⟨-, h⟩ | ⟨-, -, h⟩ | ⟨-, s, -, h⟩ := stopSmtsClient_cases w c <;> rw [h]
  · exact ⟨.inl rfl, fun _ _ => rfl, le_rfl⟩
  · exact ⟨.inl rfl, fun d hd => Function.update_of_ne hd .., le_rfl⟩
  · exact ⟨.inr rfl, fun d hd => Function.update_of_ne hd .., le_rfl⟩

/-- What the loops over the ring of `s` rest on: their rounds come only to
clients in reach. -/
def Scope.Loops (S : Scope) (w₀ : Server) (s : Nat) : Prop :=
  ∀ ⦃fuel : Nat⦄ ⦃w w' : Server⦄ ⦃body : Nat → Server → Option Server⦄, Does S w₀ w →
    (∀ c a b, Does S w₀ a → w.nCmds ≤ a.nCmds → S.reach c → body c a = some b →
      Does S w₀ b ∧ Tame c a b) →
    w.forEachClient fuel s body = some w' → Does S w₀ w'

/-- Nothing has to be known when every client is in reach. -/
theorem Scope.loops_of_forall {S : Scope} (hS : ∀ c, S.reach c) (w₀ : Server) (s : Nat) :
    S.Loops w₀ s := by
  intro fuel w w' body h hbody hr
  refine (Links.forEach_preserves
    (R := fun a b => Does S w₀ a → w.nCmds ≤ a.nCmds → Does S w₀ b ∧ w.nCmds ≤ b.nCmds)
    (fun _ ha hle => ⟨ha, hle⟩) (fun hab hbc ha hle => ?_) (fun q a b hq ha hle => ?_) hr h le_rfl).1
  · obtain ⟨hb, hle⟩ := hab ha hle
    exact hbc hb hle
  · cases q with
    | head t => cases hq
    | client c =>
        obtain ⟨hb, htame⟩ := hbody c a b ha hle (hS c) hq
        exact ⟨hb, hle.trans htame.nCmds⟩

end Server

end Smts
