import Smts.Lib.Simulation
import Smts.Tcp.Bounds
import Smts.Server.Exits
import Smts.Server.Status

/-!
# Server — at the sockets

The handlers are called with whole packets. Here they are put on what is below
them: connections whose peers send bytes, in pieces, which libuv reads through
`tcp_client_alloc_cb` and `tcp_client_read_cb`, and these call the handlers. What
is seen of the server is the same.
-/

namespace Smts

/-! ## Reading a connection -/

namespace Reading

/-- A round in which libuv's read fails, as it does at the end of the stream. -/
def fail (s : Reading) (junk : Int → Byte) (status : Int) : Option Reading := do
  let (c, _, len) ← s.client.allocCb (s.heldWord junk)
  if len = 0 then none else some { s with client := c.readCb status, held := none }

/-- One round of the reading: a read that brings something, or one that fails. -/
inductive Comes (s : Reading) : Reading → Prop where
  | round {r : Read} {s' : Reading} (h : s.round r = some s') : Comes s s'
  | fail {junk : Int → Byte} {status : Int} {s' : Reading} (hneg : status < 0)
      (h : s.fail junk status = some s') : Comes s s'

/-- `tcp_client_start_read`. What was sent before is still to be read. -/
def restart (s : Reading) : Reading := .start s.client.heap s.stream

end Reading

/-- The errors that `tcp_client_read_cb` reports to its handler. -/
def IsReadError (status : Int) : Prop := status < 0 ∨ status = dvrRecvInvalidPacketError

instance (status : Int) : Decidable (IsReadError status) := inferInstanceAs (Decidable (_ ∨ _))

/-! ## The server and its connections -/

/-- The event that a call of `read_packet_cb` is: of `dispatch_packet` for a
client, and of `on_dvr_client_read_frame_cb` for a DVR. -/
inductive Event.Calls : Event → Target → ReadPacketCall → Prop where
  | packet (c : Nat) (buf : UvBuf) (bytes : List Byte) (junk : Int → Byte) :
      Calls (.packet c bytes junk) (.client c) (.packet buf (some bytes))
  | readError (c : Nat) (status : Int) : Calls (.readError c status) (.client c) (.error status)
  | dvrPacket (s : Nat) (buf : UvBuf) (bytes : List Byte) (junk : Int → Byte) :
      Calls (.dvrPacket s bytes junk) (.dvr s) (.packet buf (some bytes))
  | dvrReadError (s : Nat) (status : Int) :
      Calls (.dvrReadError s status) (.dvr s) (.error status)

/-- An error that is read is one of those that there are. -/
def Event.Raised : Event → Prop
  | .readError _ status | .dvrReadError _ status => IsReadError status
  | _ => True

instance : (e : Event) → Decidable e.Raised
  | .readError .. | .dvrReadError .. => inferInstanceAs (Decidable (IsReadError _))
  | .connection | .packet .. | .dvrConnected .. | .dvrPacket .. | .writeDone .. | .timer _
  | .clientClosed _ | .dvrClosed _ => inferInstanceAs (Decidable True)

/-- libuv reads from the connection: neither `uv_read_stop` nor `uv_close` was
called since `uv_read_start`. -/
def Server.Reads (w : Server) : Target → Prop
  | .client c => c < w.nClients ∧ (w.clients c).reading = true ∧ (w.clients c).closing = false
  | .dvr s =>
      s < w.nSessions ∧ (w.sessions s).dvr.reading = true ∧ (w.sessions s).dvr.closing = false

instance (w : Server) : (t : Target) → Decidable (w.Reads t)
  | .client _ | .dvr _ => inferInstanceAs (Decidable (_ ∧ _ ∧ _))

/-- The server, and what has come in for each of its connections. -/
structure Sockets where
  server : Server
  inputs : Target → Reading

namespace Sockets

def init (uv : Nat → Int) (garbage : Nat → Values NvmpName) : Sockets :=
  { server := .init uv garbage, inputs := fun _ => .start ⟨[]⟩ [] }

/-- The server goes on to `w`. The connections that are read from now on, and
were not before, are those that `tcp_client_start_read` was called for. -/
def goOn (v : Sockets) (w : Server) : Sockets where
  server := w
  inputs t := if w.Reads t ∧ ¬ v.server.Reads t then (v.inputs t).restart else v.inputs t

/-- The sockets after something was read at the connection of `t`. -/
def setInput (v : Sockets) (t : Target) (i : Reading) : Sockets :=
  { v with inputs := Function.update v.inputs t i }

/-- What can happen at the sockets. What the server notices of it has a label. -/
inductive Step (v : Sockets) : Option Event → Sockets → Prop where
  /-- The peer sends something. -/
  | arrive (t : Target) (bytes : List Byte) :
      Step v none
        (v.setInput t { v.inputs t with stream := (v.inputs t).stream ++ bytes })
  /-- Something is read, and no packet is complete. -/
  | read {t : Target} {i : Reading} (hreads : v.server.Reads t) (hcomes : (v.inputs t).Comes i)
      (hquiet : i.client.calls = (v.inputs t).client.calls) : Step v none (v.setInput t i)
  /-- Something is read, and `read_packet_cb` is called. -/
  | call {t : Target} {i : Reading} {k : ReadPacketCall} {e : Event} {fuel : Nat} {w : Server}
      (hreads : v.server.Reads t) (hcomes : (v.inputs t).Comes i)
      (hcall : i.client.calls = (v.inputs t).client.calls ++ [k]) (he : e.Calls t k)
      (hr : v.server.handle fuel e = some w) : Step v (some e) ((v.setInput t i).goOn w)
  /-- Another callback. -/
  | other {e : Event} {w : Server} (hno : ∀ t k, ¬ e.Calls t k) (h : Server.Step v.server e w) :
      Step v (some e) (v.goOn w)

@[simp] theorem setInput_server (v : Sockets) (t : Target) (i : Reading) :
    (v.setInput t i).server = v.server := rfl

@[simp] theorem setInput_self (v : Sockets) (t : Target) (i : Reading) :
    (v.setInput t i).inputs t = i := Function.update_self ..

theorem setInput_of_ne {t u : Target} (v : Sockets) (i : Reading) (h : u ≠ t) :
    (v.setInput t i).inputs u = v.inputs u := Function.update_of_ne h ..

theorem goOn_of_kept {v : Sockets} {w : Server} {t : Target} (h : w.Reads t → v.server.Reads t) :
    (v.goOn w).inputs t = v.inputs t := if_neg fun hnew => hnew.2 (h hnew.1)

theorem goOn_of_begun {v : Sockets} {w : Server} {t : Target} (h : w.Reads t)
    (hnot : ¬ v.server.Reads t) : (v.goOn w).inputs t = (v.inputs t).restart := if_pos ⟨h, hnot⟩

end Sockets

/-! ## What a read calls -/

theorem TcpClient.receive_nil {c c' : TcpClient} {base : ReadBase} (h : c.receive base [] = some c') :
    c' = c := by
  cases base with
  | packetLen j =>
      obtain rfl := Option.some.inj h
      simp
  | body p => exact (Option.some.inj h).symm
  | null => cases h

theorem TcpClient.calls_receive {c c' : TcpClient} {base : ReadBase} {bs : List Byte}
    (h : c.receive base bs = some c') : c'.calls = c.calls := by
  cases base with
  | packetLen j =>
      obtain rfl := Option.some.inj h
      rfl
  | body p =>
      obtain ⟨heap, -, h⟩ := Option.bind_eq_some_iff.mp h
      obtain rfl := Option.some.inj h
      rfl
  | null => cases h

theorem TcpClient.calls_allocCb {c c' : TcpClient} {word : BitVec 32} {base : ReadBase} {len : Nat}
    (h : c.allocCb word = some (c', base, len)) : c'.calls = c.calls := by
  rcases TcpClient.allocCb_cases h with ⟨-, rfl, -⟩ | ⟨-, -, rfl, -⟩ | ⟨-, -, -, rfl, -⟩ | ⟨-, rfl, -⟩ <;>
    rfl

/-- `read_cb` calls back once or not at all, and reports the error that it was
told or that it found. -/
theorem TcpClient.calls_readCb (c : TcpClient) (nread : Int) :
    (c.readCb nread).calls = c.calls ∨ ∃ k, (c.readCb nread).calls = c.calls ++ [k] ∧
      ∀ status, k = .error status → IsReadError status := by
  rcases c.readCb_cases nread with ⟨-, h⟩ | ⟨-, hneg, h⟩ | ⟨-, -, h⟩ | ⟨-, -, -, -, h⟩ |
    ⟨-, -, -, h⟩ <;> rw [h]
  · refine .inr ⟨_, rfl, fun status hk => ?_⟩
    obtain rfl := ReadPacketCall.error.inj hk
    exact .inr rfl
  · refine .inr ⟨_, rfl, fun status hk => ?_⟩
    obtain rfl := ReadPacketCall.error.inj hk
    exact .inl hneg
  · exact .inl rfl
  · exact .inr ⟨_, rfl, by simp⟩
  · exact .inl rfl

theorem TcpClient.Turns.calls {c c' : TcpClient} {t : Turn} (h : c.Turns t c') :
    c'.calls = c.calls ∨ ∃ k, c'.calls = c.calls ++ [k] ∧
      ∀ status, k = .error status → IsReadError status := by
  cases h with
  | @error _ _ _ status c₁ halloc _ => exact calls_allocCb halloc ▸ c₁.calls_readCb status
  | @again _ _ _ c₁ halloc => exact calls_allocCb halloc ▸ c₁.calls_readCb 0
  | @bytes _ _ _ bs c₁ c₂ halloc _ _ hrecv =>
      exact (calls_receive hrecv).trans (calls_allocCb halloc) ▸ c₂.calls_readCb bs.length

/-- Such a round is a turn of the connection's framing. -/
theorem Reading.Comes.turns {i i' : Reading} (h : i.Comes i') : ∃ t, i.client.Turns t i'.client := by
  cases h with
  | @round r _ h =>
      obtain ⟨c, base, len, halloc, ⟨-, -, rfl⟩ | ⟨-, hle, hstream, c', hrecv, rfl⟩⟩ := round_cases h
      · exact ⟨_, .error halloc (by decide)⟩
      · by_cases hn : r.n = 0
        · rw [hn] at hrecv ⊢
          obtain rfl := c.receive_nil hrecv
          exact ⟨_, .again halloc⟩
        · have hlen : (i.stream.take r.n).length = r.n := by
            rw [List.length_take]
            omega
          have hturn := TcpClient.Turns.bytes halloc (by omega) (by omega) hrecv
          rw [hlen] at hturn
          exact ⟨_, hturn⟩
  | fail hneg h =>
      obtain ⟨⟨c, base, len⟩, halloc, h⟩ := Option.bind_eq_some_iff.mp h
      dsimp only at h
      split at h
      · cases h
      · obtain rfl := Option.some.inj h
        exact ⟨_, .error halloc hneg⟩

theorem Delivered.deliverable {ts : List Turn} {buf : UvBuf} {contents : Option (List Byte)}
    (h : Delivered ts buf contents) : ∃ bytes, contents = some bytes ∧ Deliverable bytes := by
  obtain ⟨b, bytes, -, hcontents, -, hlo, hhi, hbytes, -⟩ := h
  refine ⟨bytes, hcontents, hlo, hhi, ?_⟩
  have htake : bytes.take 4 = BigEndian.bytes 4 (BitVec.ofNat 32 bytes.length) := by
    conv_lhs => rw [hbytes]
    exact List.take_left' (BigEndian.length_bytes ..)
  rw [lenWord, htake]
  exact BigEndian.value_bytes (n := 4) _

/-! ## What is seen is a run of the server -/

/-- The sockets show the server `w`, and the receive buffer of every connection
is in order. -/
structure Sockets.Shows (v : Sockets) (w : Server) : Prop where
  server : v.server = w
  inputs : ∀ t, ∃ ts, Receiving ts (v.inputs t).client

theorem Sockets.shows_init (uv : Nat → Int) (garbage : Nat → Values NvmpName) :
    (init uv garbage).Shows (.init uv garbage) :=
  ⟨rfl, fun _ => ⟨[], receiving_startRead _⟩⟩

theorem Reading.Comes.receiving {i i' : Reading} (h : i.Comes i')
    (hi : ∃ ts, Receiving ts i.client) : ∃ ts, Receiving ts i'.client := by
  obtain ⟨ts, hi⟩ := hi
  obtain ⟨t, ht⟩ := h.turns
  exact ⟨_, hi.step ht⟩

namespace Sockets

variable {v v' : Sockets} {w : Server} {e : Event} {t : Target} {i : Reading} {k : ReadPacketCall}

theorem Shows.setInput (h : v.Shows w) (hi : ∃ ts, Receiving ts i.client) :
    (v.setInput t i).Shows w := by
  refine ⟨h.server, fun u => ?_⟩
  by_cases hu : u = t
  · subst hu
    rw [setInput_self]
    exact hi
  · rw [setInput_of_ne v i hu]
    exact h.inputs u

theorem Shows.goOn (h : v.Shows w) (w' : Server) : (v.goOn w').Shows w' := by
  refine ⟨rfl, fun u => ?_⟩
  by_cases hnew : w'.Reads u ∧ ¬ v.server.Reads u
  · rw [goOn_of_begun hnew.1 hnew.2]
    exact ⟨[], receiving_startRead _⟩
  · rw [goOn_of_kept fun hr => not_not.mp fun hnot => hnew ⟨hr, hnot⟩]
    exact h.inputs u

/-- What is read next is one more call, and a packet that is delivered is one
that the handlers expect. -/
theorem call_spec (hi : ∃ ts, Receiving ts (v.inputs t).client) (hreads : v.server.Reads t)
    (hcomes : (v.inputs t).Comes i) (hcall : i.client.calls = (v.inputs t).client.calls ++ [k])
    (he : e.Calls t k) : e.Raised ∧ v.server.Enabled e := by
  obtain ⟨ts, hrecv⟩ := hcomes.receiving hi
  obtain ⟨turn, hturn⟩ := hcomes.turns
  have herror : ∀ status, k = .error status → IsReadError status := by
    rcases hturn.calls with heq | ⟨k', heq, hk'⟩
    · simp [hcall] at heq
    · obtain rfl : k = k' := by simpa [hcall] using heq
      exact hk'
  have hzero : ∀ status, k = .error status → status ≠ 0 := by
    intro status hk hz
    rcases herror status hk with hneg | hinvalid
    · omega
    · exact absurd (hz.symm.trans hinvalid) (by decide)
  have hdeliver : ∀ buf bytes, k = .packet buf (some bytes) → Deliverable bytes := by
    intro buf bytes hk
    obtain ⟨bytes', heq, hd⟩ := (hrecv.delivered buf (some bytes) (by simp [hcall, hk])).1.deliverable
    exact Option.some.inj heq ▸ hd
  cases he with
  | packet c buf bytes junk => exact ⟨trivial, hreads.1, hreads.2.1, hreads.2.2, hdeliver buf bytes rfl⟩
  | readError c status =>
      exact ⟨herror status rfl, hreads.1, hreads.2.1, hreads.2.2, hzero status rfl⟩
  | dvrPacket s buf bytes junk =>
      exact ⟨trivial, hreads.1, hreads.2.1, hreads.2.2, hdeliver buf bytes rfl⟩
  | dvrReadError s status =>
      exact ⟨herror status rfl, hreads.1, hreads.2.1, hreads.2.2, hzero status rfl⟩

theorem raised_of_not_calls (hno : ∀ t k, ¬ e.Calls t k) : e.Raised := by
  cases e with
  | readError c status => exact absurd (.readError c status) (hno _ _)
  | dvrReadError s status => exact absurd (.dvrReadError s status) (hno _ _)
  | _ => trivial

theorem simulates :
    Transition.Simulates Step (fun w e w' => e.Raised ∧ Server.Step w e w') Shows where
  silent {v v' w} h hstep := by
    cases hstep with
    | arrive t bytes => exact h.setInput (h.inputs t)
    | read _ hcomes _ => exact h.setInput (hcomes.receiving (h.inputs _))
  labelled {v v' w e} h hstep := by
    obtain rfl := h.server
    cases hstep with
    | call hreads hcomes hcall he hr =>
        obtain ⟨hraised, hen⟩ := call_spec (h.inputs _) hreads hcomes hcall he
        exact ⟨_, ⟨hraised, hen, _, hr⟩, (h.setInput (hcomes.receiving (h.inputs _))).goOn _⟩
    | other hno hstep => exact ⟨_, ⟨raised_of_not_calls hno, hstep⟩, h.goOn _⟩

end Sockets

/-! ## Every packet can be sent -/

namespace Reading

variable {h : Heap} {done : List (List Byte)} {i : Reading} {ts : List Turn}

/-- A round that brings no more than was asked for and was sent. -/
theorem exists_round {r : Read} (hi : Receiving ts i.client) (hn : r.n ≤ i.stream.length)
    (hfit : ∀ c base len, i.client.allocCb (i.heldWord r.junk) = some (c, base, len) →
      if len = 0 then r.n = 0 else r.n ≤ len) : ∃ i', i.round r = some i' := by
  obtain ⟨c, base, len, halloc⟩ := hi.allocCb_isSome (i.heldWord r.junk)
  have hfit := hfit c base len halloc
  have hlen : (i.stream.take r.n).length = r.n := by
    rw [List.length_take]
    omega
  rw [round, halloc]
  simp only [Option.bind_eq_bind, Option.bind_some]
  split
  next hzero =>
    rw [if_pos hzero] at hfit
    exact ⟨_, if_pos hfit⟩
  next hzero =>
    rw [if_neg hzero] at hfit
    rw [if_pos ⟨hfit, hn⟩]
    have hrecv : ∃ c', c.receive base (i.stream.take r.n) = some c' := by
      obtain ⟨-, ⟨-, rfl, -⟩ | ⟨-, hnull⟩ | ⟨b, word, data, hfill, -, rfl, rfl⟩⟩ := hi.allocCb halloc
      · exact ⟨_, rfl⟩
      · exact absurd hnull hzero
      · obtain ⟨B, -, hrecv⟩ := hfill.receive (hlen.trans_le hfit)
        exact ⟨_, hrecv⟩
    obtain ⟨c', hrecv⟩ := hrecv
    rw [hrecv]
    exact ⟨_, rfl⟩

/-- The four bytes of a length word can be read in one piece. -/
theorem exists_round_header (hi : Receiving ts i.client) (hat : AtHeader h done [] i.client)
    (hlen : 4 ≤ i.stream.length) (hok : i.stream.take 4 ≠ List.replicate 4 0xFF)
    (junk : Int → Byte) : ∃ i', i.round ⟨4, junk⟩ = some i' ∧
      AtHeader h done (i.stream.take 4) i'.client ∧ i'.stream = i.stream.drop 4 ∧
      i'.held = some (.packetLen 0) := by
  have hoff : i.client.recvTmpBuf.offset = 0 := by rw [hat.tmp]; rfl
  obtain ⟨i', hr⟩ := exists_round (r := ⟨4, junk⟩) hi hlen fun c base len halloc => by
    obtain ⟨-, -, -, rfl⟩ | ⟨h4, -⟩ | ⟨h4, -⟩ | ⟨h4, -⟩ := TcpClient.allocCb_cases halloc
    · simp [hoff]
    · omega
    · omega
    · omega
  obtain ⟨-, -, hat', hstream, hheld⟩ := round_header hat (by simp) (by simpa using hok) hr
  exact ⟨i', hr, by simpa using hat', hstream, hheld rfl⟩

/-- When the length word has been read, the whole body can be read in one piece. -/
theorem exists_round_body {p : List Byte} (hp : IsPacket p) (hi : Receiving ts i.client)
    (hat : AtHeader h done (p.take 4) i.client) (hstream : i.stream = p.drop 4)
    (hheld : i.held = some (.packetLen 0)) (junk : Int → Byte) :
    ∃ i', i.round ⟨p.length - 4, junk⟩ = some i' ∧ AtHeader h (done ++ [p]) [] i'.client ∧
      i'.stream = [] := by
  have hlo : 4 < p.length := hp.lo
  have hoff := hat.offset_four hp
  have hword : i.heldWord junk = lenWord p :=
    (heldWord_header hp hat hheld junk).trans (headerWord_zero hp junk)
  have hfit : ∀ c base len, i.client.allocCb (i.heldWord junk) = some (c, base, len) →
      len = p.length - 4 := by
    intro c base len halloc
    rw [hword] at halloc
    obtain ⟨h4, -⟩ | ⟨-, hbad, -⟩ | ⟨-, -, -, -, -, hlen⟩ | ⟨h4, -⟩ := TcpClient.allocCb_cases halloc
    · omega
    · have := hp.hi
      rw [hp.toInt_lenWord] at hbad
      omega
    · rw [hlen, hp.toNat_lenWord]
    · omega
  obtain ⟨i', hr⟩ := exists_round (r := ⟨p.length - 4, junk⟩) hi (by simp [hstream])
    fun c base len halloc => by
      rw [hfit c base len halloc, if_neg (by omega)]
  have hrest : i.stream = p.drop 4 ++ [] := by rw [hstream, List.append_nil]
  have hpos : 0 < p.length - 4 := by omega
  have hfull : 4 + (p.length - 4) = p.length := by omega
  have hnext : Progress h done p (4 + (p.length - 4)) i'.client ∧
      i'.stream = p.drop (4 + (p.length - 4)) ++ [] :=
    (round_alloc (r := ⟨p.length - 4, junk⟩) hp hat hrest hword hpos hr).2
  rw [hfull, Progress, if_pos rfl, List.drop_length] at hnext
  exact ⟨i', hr, hnext⟩

/-- A read that fails between two packets reports its error and takes no bytes. -/
theorem exists_fail (hat : AtHeader h done [] i.client) {status : Int} (hneg : status < 0)
    (junk : Int → Byte) : ∃ i', i.fail junk status = some i' ∧
      i'.client.calls = i.client.calls ++ [.error status] ∧ i'.stream = i.stream := by
  have hoff : i.client.recvTmpBuf.offset = 0 := by rw [hat.tmp]; rfl
  have hok : i.client.recvTmpBuf.packetLen ≠ packetInvalid := by rw [hat.tmp]; decide
  have halloc : i.client.allocCb (i.heldWord junk) = some (i.client, .packetLen 0, 4) := by
    rw [TcpClient.allocCb, if_pos (by rw [hoff]; decide), hoff]
    rfl
  refine ⟨{ i with client := i.client.readCb status, held := none }, ?_, ?_, rfl⟩
  · rw [fail, halloc]
    rfl
  · obtain ⟨hinv, -⟩ | ⟨-, -, heq⟩ | ⟨-, hz, -⟩ | ⟨-, hpos, -⟩ | ⟨-, hpos, -⟩ :=
      i.client.readCb_cases status
    · exact absurd hinv hok
    · rw [heq]
    · omega
    · omega
    · omega

theorem wordAt_zeros (junk : Int → Byte) : wordAt [0, 0, 0, 0] junk = 0 := by
  have htake : (Reader.beyond [0, 0, 0, 0] junk).take 0 4 = some [0, 0, 0, 0] :=
    Reader.take_beyond junk (by rw [Reader.take_within_zero _ (by decide)]; rfl)
  rw [wordAt, decodeInt32, decodeInt_value, htake]
  rfl

/-- A length word that is none is found out when the body is asked for. -/
theorem exists_round_invalid (hi : Receiving ts i.client)
    (hat : AtHeader h done [0, 0, 0, 0] i.client) (hheld : i.held = some (.packetLen 0))
    (junk : Int → Byte) : ∃ i', i.round ⟨0, junk⟩ = some i' ∧
      i'.client.calls = i.client.calls ++ [.error dvrRecvInvalidPacketError] ∧
      i'.stream = i.stream := by
  have hoff : i.client.recvTmpBuf.offset = 4 := by rw [hat.tmp]; rfl
  have hword : i.heldWord junk = 0 := by
    rw [heldWord, hheld, hat.tmp]
    exact wordAt_zeros junk
  have hsplit : ∀ {c base len}, i.client.allocCb (i.heldWord junk) = some (c, base, len) →
      c = { i.client with recvTmpBuf := i.client.recvTmpBuf.setPacketLen packetInvalid } ∧ len = 0 := by
    intro c base len halloc
    rw [hword] at halloc
    obtain ⟨h4, -⟩ | ⟨-, -, hc, -, hlen⟩ | ⟨-, hlo, -⟩ | ⟨h4, -⟩ := TcpClient.allocCb_cases halloc
    · omega
    · exact ⟨hc, hlen⟩
    · exact absurd hlo (by decide)
    · omega
  obtain ⟨i', hr⟩ := exists_round (r := ⟨0, junk⟩) hi (Nat.zero_le _) fun c base len halloc =>
    (if_pos (hsplit halloc).2).mpr rfl
  obtain ⟨c, base, len, halloc, hcase⟩ := round_cases hr
  obtain ⟨rfl, rfl⟩ := hsplit halloc
  obtain ⟨-, -, rfl⟩ | ⟨hne, -⟩ := hcase
  · refine ⟨_, hr, ?_, rfl⟩
    simp only [TcpClient.readCb, ClientReadTmpBuf.packetLen_setPacketLen, if_pos]
  · exact absurd rfl hne

end Reading

/-! ## What is not read any more -/

namespace Server

/-- The socket of every client that was stopped is being closed. -/
def Halted (w : Server) : Prop :=
  ∀ c, (w.clients c).status = .onStop → (w.clients c).closing = true

section Halted

variable {w w' w₀ : Server} {S : Scope} {fuel s c : Nat} {status : Int}

theorem Halted.of_clients (h : w.Halted) (hc : w'.clients = w.clients) : w'.Halted := by
  intro c hst
  rw [hc] at hst ⊢
  exact h c hst

theorem Halted.update (h : w.Halted) {x : SmtsClient}
    (hc : w'.clients = Function.update w.clients c x) (hx : x.status = .onStop → x.closing = true) :
    w'.Halted := by
  intro d hst
  rw [hc] at hst ⊢
  by_cases hd : d = c
  · subst hd
    rw [Function.update_self] at hst ⊢
    exact hx hst
  · rw [Function.update_of_ne hd] at hst ⊢
    exact h d hst

theorem Halted.action (h : w.Halted) (ha : Action S w₀ w w') : w'.Halted := by
  cases ha with
  | uvCall hr => exact h.of_clients (MemOnly.uvCall hr).clients
  | encodeNew _ _ _ hr => exact h.of_clients (encodeNew_clients hr)
  | dropRef _ hr => exact h.of_clients (MemOnly.onSmtsClientSendFrame hr).clients
  | send _ _ _ _ hr => exact h.of_clients (MemOnly.tcpClientSendMsg hr).clients
  | @sendPreviewRes d _ _ _ _ _ _ hr =>
      refine h.update (c := d) ((MemOnly.tcpClientSendMsg hr).clients.trans rfl) ?_
      simp
  | @previewResDone _ _ d _ _ _ _ => exact h.update (c := d) rfl (by simp)
  | @stop d _ =>
      obtain ⟨-, hw⟩ | ⟨-, -, hw⟩ | ⟨-, t, -, hw⟩ := stopSmtsClient_cases w d
      · rw [hw]
        exact h
      · rw [hw]
        exact h.update (c := d) rfl fun _ => rfl
      · rw [hw]
        exact h.update (c := d) rfl fun _ => rfl
  | delete hr =>
      obtain ⟨m, rfl⟩ := deleteSession_eq hr
      exact h.of_clients rfl
  | initClient _ => exact h.update (c := w.nClients) rfl (by simp)
  | startRead _ d => exact h.update (c := d) rfl (h d)
  | @close _ d _ => exact h.update (c := d) rfl fun _ => rfl
  | @closed d _ => exact h.update (c := d) rfl (h d)
  | @attach d _ _ => exact h.update (c := d) rfl (h d)
  | @abort d _ _ => exact h.update (c := d) rfl (h d)
  | _ => exact h.of_clients rfl

theorem halted_of_run {uv : Nat → Int} {garbage : Nat → Values NvmpName} {es : List Event}
    (h : Transition.Run Step (init uv garbage) es w) : w.Halted := by
  have hdoes : ∀ {S : Scope} {u v : Server}, u.Halted → Does S u v → v.Halted := fun hu hd => by
    induction hd with
    | start => exact hu
    | step _ ha ih => exact ih.action ha
  refine h.invariant (fun u e v hu hstep => ?_) (fun c hst => by cases hst)
  obtain ⟨hen, fuel, hr⟩ := hstep
  exact hdoes hu (handle_does_any hen hr)

/-- After an error nothing is read from a client. -/
theorem Halted.not_reads_of_readError (h : w.Halted) (hstep : Step w (.readError c status) w') :
    ¬ w'.Reads (.client c) := by
  obtain ⟨-, fuel, hr⟩ := hstep
  obtain rfl := Option.some.inj hr
  rintro ⟨-, -, hopen⟩
  have hclosing : ((w.stopSmtsClient c).clients c).closing = true := by
    obtain ⟨hst, hw⟩ | ⟨-, -, hw⟩ | ⟨-, s, -, hw⟩ := stopSmtsClient_cases w c <;> rw [hw]
    · exact h c hst
    · simp [SmtsClient.stopped]
    · simp [SmtsClient.stopped]
  rw [hclosing] at hopen
  cases hopen

/-- After an error on a DVR's socket nothing is read from it. -/
theorem not_reads_of_dvrReadError (hstep : Step w (.dvrReadError s status) w') :
    ¬ w'.Reads (.dvr s) := by
  obtain ⟨-, fuel, hr⟩ := hstep
  rintro ⟨-, hreading, -⟩
  let v := w.setSession s { w.sessions s with dvr := { (w.sessions s).dvr with reading := false } }
  have hstop : (v.setExitCode s dvrRecvFrameError).stopMediaSession fuel s = some w' := by
    rw [handle, onDvrClientReadError] at hr
    dsimp only at hr
    rwa [onSmtsDvrClientRecvFrame, if_pos (by decide)] at hr
  have hd : Does {} (v.setExitCode s dvrRecvFrameError) w' :=
    Does.start.stopMediaSession (Scope.loops_of_forall (fun _ => trivial) _ s) hstop
  have hkeep : (w'.sessions s).dvr.reading = true →
      ((v.setExitCode s dvrRecvFrameError).sessions s).dvr.reading = true := by
    clear hstop hreading hr
    induction hd with
    | start => exact id
    | step _ ha ih =>
        obtain hdvr | ⟨-, hmono⟩ := (ha.meets (s := s) rfl (by simp)).dvr
        · cases hdvr
        · exact fun hnew => ih (hmono hnew)
  have hbefore := hkeep hreading
  simp [v] at hbefore

end Halted

end Server

/-! ## Every run of the server can be seen -/

namespace Sockets

variable {uv : Nat → Int} {garbage : Nat → Values NvmpName} {v : Sockets} {w w' : Server} {e : Event}
  {t : Target} {i : Reading} {fuel : Nat} {bytes : List Byte} {status : Int}

@[simp] theorem setInput_setInput (v : Sockets) (t : Target) (i j : Reading) :
    (v.setInput t i).setInput t j = v.setInput t j := by
  simp [setInput]

/-- The server is where a run leads, nothing is on its way to it, and whatever it
reads is between two packets. -/
structure Between (uv : Nat → Int) (garbage : Nat → Values NvmpName) (v : Sockets) (w : Server) :
    Prop extends v.Shows w where
  run : ∃ es, Transition.Run Server.Step (.init uv garbage) es w
  stream : ∀ t, (v.inputs t).stream = []
  header : ∀ t, w.Reads t → ∃ h done, AtHeader h done [] (v.inputs t).client

theorem between_init : Between uv garbage (init uv garbage) (.init uv garbage) where
  toShows := shows_init uv garbage
  run := ⟨[], .refl⟩
  stream _ := rfl
  header t ht := by cases t <;> exact absurd ht.1 (Nat.not_lt_zero _)

theorem Between.step (h : Between uv garbage v w) (hstep : Server.Step w e w') :
    ∃ es, Transition.Run Server.Step (.init uv garbage) es w' := by
  obtain ⟨es, hrun⟩ := h.run
  exact ⟨es ++ [e], hrun.snoc hstep⟩

/-- Where the server goes on, what it begins to read is between two packets. -/
theorem Between.goOn (h : Between uv garbage v w) (hstep : Server.Step w e w') :
    Between uv garbage (v.goOn w') w' := by
  refine ⟨h.toShows.goOn w', h.step hstep, fun u => ?_, fun u hu => ?_⟩
  · by_cases hnew : w'.Reads u ∧ ¬ v.server.Reads u
    · rw [goOn_of_begun hnew.1 hnew.2]
      exact h.stream u
    · rw [goOn_of_kept fun hr => not_not.mp fun hnot => hnew ⟨hr, hnot⟩]
      exact h.stream u
  · by_cases hold : v.server.Reads u
    · rw [goOn_of_kept fun _ => hold]
      exact h.header u (h.server ▸ hold)
    · rw [goOn_of_begun hu hold]
      exact ⟨_, [], atHeader_start _⟩

/-- The same behind a read of the connection `t`. -/
theorem Between.goOn_setInput (h : Between uv garbage v w) (hreads : w.Reads t)
    (hstep : Server.Step w e w') (hi : ∃ ts, Receiving ts i.client) (hstream : i.stream = [])
    (hheader : w'.Reads t → ∃ h done, AtHeader h done [] i.client) :
    Between uv garbage ((v.setInput t i).goOn w') w' := by
  have hgo := h.goOn hstep
  have hsame : ((v.setInput t i).goOn w').inputs t = i := by
    rw [goOn_of_kept fun _ => h.server ▸ hreads, setInput_self]
  have hother : ∀ u, u ≠ t → ((v.setInput t i).goOn w').inputs u = (v.goOn w').inputs u := by
    intro u hu
    simp only [Sockets.goOn, setInput_server, setInput_of_ne v i hu]
  refine ⟨(h.toShows.setInput hi).goOn w', hgo.run, fun u => ?_, fun u hu => ?_⟩
  · by_cases hut : u = t
    · rw [hut, hsame]
      exact hstream
    · rw [hother u hut]
      exact hgo.stream u
  · by_cases hut : u = t
    · subst hut
      rw [hsame]
      exact hheader hu
    · rw [hother u hut]
      exact hgo.header u hu

/-- Something is sent in one piece, and its length word is read. -/
theorem Between.lengthWord (h : Between uv garbage v w) (hreads : w.Reads t) (bytes : List Byte)
    (hlen : 4 ≤ bytes.length) (hok : bytes.take 4 ≠ List.replicate 4 0xFF) :
    ∃ i heap done, Transition.Run Step v [none, none] (v.setInput t i) ∧
      (∃ ts, Receiving ts i.client) ∧ AtHeader heap done (bytes.take 4) i.client ∧
      i.stream = bytes.drop 4 ∧ i.held = some (.packetLen 0) := by
  obtain ⟨ts, hrecv⟩ := h.inputs t
  obtain ⟨heap, done, hat⟩ := h.header t hreads
  let i₁ : Reading := { v.inputs t with stream := (v.inputs t).stream ++ bytes }
  have hstream₁ : i₁.stream = bytes := by
    show (v.inputs t).stream ++ bytes = bytes
    rw [h.stream, List.nil_append]
  have harrive : Step v none (v.setInput t i₁) := .arrive t bytes
  obtain ⟨i₂, hround, hat₂, hstream₂, hheld⟩ := Reading.exists_round_header (i := i₁) hrecv hat
    (by rwa [hstream₁]) (by rwa [hstream₁]) (fun _ => 0)
  rw [hstream₁] at hat₂ hstream₂
  have hcomes : i₁.Comes i₂ := .round hround
  have hread : Step (v.setInput t i₁) none (v.setInput t i₂) := by
    have hquiet : i₂.client.calls = i₁.client.calls := hat₂.calls.trans hat.calls.symm
    rw [← setInput_setInput v t i₁ i₂]
    exact .read (by rwa [setInput_server, h.server]) (by rwa [setInput_self]) (by rwa [setInput_self])
  exact ⟨i₂, heap, done, (Transition.Run.refl.snoc harrive).snoc hread,
    hcomes.receiving ⟨ts, hrecv⟩, hat₂, hstream₂, hheld⟩

/-- When a read makes a call, the server's callback can be the next step. -/
theorem Between.call {k : ReadPacketCall} {i₁ i₂ : Reading} (h : Between uv garbage v w)
    (hreads : w.Reads t) (hcomes : i₁.Comes i₂) (hcall : i₂.client.calls = i₁.client.calls ++ [k])
    (he : e.Calls t k) (hr : w.handle fuel e = some w') :
    Step (v.setInput t i₁) (some e) ((v.setInput t i₂).goOn w') := by
  rw [← setInput_setInput v t i₁ i₂]
  exact .call (by rwa [setInput_server, h.server]) (by rwa [setInput_self])
    (by rwa [setInput_self]) he (by rwa [setInput_server, h.server])

/-- A packet is sent, and read in two pieces. -/
theorem Between.packet (h : Between uv garbage v w) (hreads : w.Reads t) (hbytes : Deliverable bytes)
    (he : ∀ buf, e.Calls t (.packet buf (some bytes))) (hen : w.Enabled e)
    (hr : w.handle fuel e = some w') :
    ∃ os v', Transition.Run Step v os v' ∧ os.reduceOption = [e] ∧ Between uv garbage v' w' := by
  have hp : IsPacket bytes := ⟨hbytes.1, hbytes.2.1, hbytes.2.2⟩
  have hlo : 4 < bytes.length := hp.lo
  obtain ⟨i₁, heap, done, hrun, hrecv, hat, hstream, hheld⟩ :=
    h.lengthWord hreads bytes hlo.le hp.take_ne_ones
  obtain ⟨ts, hts⟩ := hrecv
  obtain ⟨i₂, hround, hat₂, hstream₂⟩ := Reading.exists_round_body hp hts hat hstream hheld fun _ => 0
  have hcomes : i₁.Comes i₂ := .round hround
  obtain ⟨buf, hcall⟩ : ∃ buf, i₂.client.calls = i₁.client.calls ++ [.packet buf (some bytes)] := by
    rw [hat₂.calls, hat.calls, deliveries_append]
    exact ⟨_, rfl⟩
  refine ⟨_, _, hrun.snoc (h.call hreads hcomes hcall (he buf) hr), rfl, ?_⟩
  exact h.goOn_setInput hreads ⟨hen, fuel, hr⟩ (hcomes.receiving ⟨ts, hts⟩) hstream₂
    fun _ => ⟨heap, _, hat₂⟩

/-- An error is libuv's, or a length word that is none is sent. -/
theorem Between.error (h : Between uv garbage v w) (hreads : w.Reads t) (hstatus : IsReadError status)
    (he : e.Calls t (.error status)) (hen : w.Enabled e) (hr : w.handle fuel e = some w')
    (hlast : ¬ w'.Reads t) :
    ∃ os v', Transition.Run Step v os v' ∧ os.reduceOption = [e] ∧ Between uv garbage v' w' := by
  rcases hstatus with hneg | rfl
  · obtain ⟨heap, done, hat⟩ := h.header t hreads
    obtain ⟨i, hfail, hcall, hstream⟩ := Reading.exists_fail hat hneg fun _ => 0
    have hcomes : (v.inputs t).Comes i := .fail hneg hfail
    have hstep := h.call hreads hcomes hcall he hr
    rw [show v.setInput t (v.inputs t) = v by simp [setInput]] at hstep
    refine ⟨_, _, .single hstep, rfl, ?_⟩
    exact h.goOn_setInput hreads ⟨hen, fuel, hr⟩ (hcomes.receiving (h.inputs t))
      (hstream.trans (h.stream t)) fun hnew => absurd hnew hlast
  · obtain ⟨i₁, heap, done, hrun, hrecv, hat, hstream, hheld⟩ :=
      h.lengthWord hreads [0, 0, 0, 0] le_rfl (by decide)
    obtain ⟨ts, hts⟩ := hrecv
    obtain ⟨i₂, hround, hcall, hstream₂⟩ := Reading.exists_round_invalid hts hat hheld fun _ => 0
    have hcomes : i₁.Comes i₂ := .round hround
    refine ⟨_, _, hrun.snoc (h.call hreads hcomes hcall he hr), rfl, ?_⟩
    exact h.goOn_setInput hreads ⟨hen, fuel, hr⟩ (hcomes.receiving ⟨ts, hts⟩)
      (hstream₂.trans hstream) fun hnew => absurd hnew hlast

theorem realises : Transition.Realises Step (fun w e w' => e.Raised ∧ Server.Step w e w')
    (Between uv garbage) := by
  intro v w e w' h hstep
  obtain ⟨hraised, hstep⟩ := hstep
  obtain ⟨hen, fuel, hr⟩ := id hstep
  obtain ⟨es, hrun⟩ := h.run
  cases e with
  | packet c bytes junk =>
      have hreads : w.Reads (.client c) := ⟨hen.1, hen.2.1, hen.2.2.1⟩
      exact h.packet hreads hen.2.2.2 (fun buf => .packet c buf bytes junk) hen hr
  | readError c status =>
      have hreads : w.Reads (.client c) := ⟨hen.1, hen.2.1, hen.2.2.1⟩
      have hlast := (Server.halted_of_run hrun).not_reads_of_readError hstep
      exact h.error hreads hraised (.readError c status) hen hr hlast
  | dvrPacket s bytes junk =>
      have hreads : w.Reads (.dvr s) := ⟨hen.1, hen.2.1, hen.2.2.1⟩
      exact h.packet hreads hen.2.2.2 (fun buf => .dvrPacket s buf bytes junk) hen hr
  | dvrReadError s status =>
      have hreads : w.Reads (.dvr s) := ⟨hen.1, hen.2.1, hen.2.2.1⟩
      have hlast := Server.not_reads_of_dvrReadError hstep
      exact h.error hreads hraised (.dvrReadError s status) hen hr hlast
  | _ =>
      refine ⟨_, _, .single (.other (fun t k hcalls => ?_) (h.server.symm ▸ hstep)), rfl, h.goOn hstep⟩
      cases hcalls

/-- **The framing layer delivers what the handlers expect, and all of it.**
Whatever peers send, in whatever pieces it is read, the server comes to the
states, and by the callbacks, of the runs in which it is handed whole packets and
libuv's errors; and it can come to all of them. -/
theorem server_runs_iff {es : List Event} :
    (∃ os v, Transition.Run Step (init uv garbage) os v ∧ os.reduceOption = es ∧ v.server = w) ↔
      Transition.Run (fun w e w' => e.Raised ∧ Server.Step w e w') (.init uv garbage) es w := by
  have hreal : Transition.Realises Step _ (Between uv garbage) := realises
  exact Transition.traces_iff simulates hreal Shows.server (fun h => h.server)
    (shows_init uv garbage) between_init

end Sockets

end Smts
