import Smts.Proto.Buffer

/-!
# Tcp — how packets are received

The reading half of `smts_abstract_tcp_client.c`. libuv asks `tcp_client_alloc_cb`
where to put the next bytes and tells `tcp_client_read_cb` how many came. The
length word of a packet is received into `packet_len` itself, and decoded by
the next `tcp_client_alloc_cb` through the `uv_buf_t` that libuv hands it,
which need not be the one filled last.
-/

namespace Smts

/-- `PACKET_INVALID`. -/
def packetInvalid : BitVec 32 := BitVec.ofInt 32 (-1)

/-- `DVR_RECV_INVALID_PACKET_ERROR`. -/
def dvrRecvInvalidPacketError : Int := 8004

/-- `UV_ENOBUFS`: what libuv reports when it is offered no room. -/
def uvEnobufs : Int := -105

/-- `client_read_tmp_buf_t`, with `packet_len` as its four bytes in memory,
low byte first. -/
structure ClientReadTmpBuf where
  packetLenBytes : List Byte
  buf : UvBuf
  offset : Nat
deriving DecidableEq, Repr

namespace ClientReadTmpBuf

/-- `packet_len`, as the program reads it. -/
def packetLen (t : ClientReadTmpBuf) : BitVec 32 := BigEndian.value 32 t.packetLenBytes.reverse

/-- `packet->packet_len = x`. -/
def setPacketLen (t : ClientReadTmpBuf) (x : BitVec 32) : ClientReadTmpBuf :=
  { t with packetLenBytes := (BigEndian.bytes 4 x).reverse }

/-- `init_client_read_tmp_buf`. -/
def init : ClientReadTmpBuf :=
  { packetLenBytes := [0, 0, 0, 0], buf := { base := none, len := 0 }, offset := 0 }

@[simp] theorem packetLen_setPacketLen (t : ClientReadTmpBuf) (x : BitVec 32) :
    (t.setPacketLen x).packetLen = x := by
  simp only [packetLen, setPacketLen, List.reverse_reverse]
  exact BigEndian.value_bytes (n := 4) x

end ClientReadTmpBuf

/-- Where the `base` of a read's `uv_buf_t` points. -/
inductive ReadBase where
  /-- `(char*) &packet->packet_len + j` -/
  | packetLen (j : Nat)
  /-- into the body -/
  | body (p : Ptr)
  | null
deriving DecidableEq, Repr

/-- A call of `read_packet_cb`: with a buffer, and what is in it, and status
0, or without one. -/
inductive ReadPacketCall where
  | packet (buf : UvBuf) (contents : Option (List Byte))
  | error (status : Int)
deriving DecidableEq, Repr

/-- `abstract_tcp_client_t` as its reads see it, with the memory they work on
and what they did: the calls of `read_packet_cb` and the buffers freed. -/
structure TcpClient where
  heap : Heap
  recvTmpBuf : ClientReadTmpBuf
  calls : List ReadPacketCall
  freed : List Ptr
deriving DecidableEq, Repr

namespace TcpClient

/-- `tcp_client_start_read`. -/
def startRead (h : Heap) : TcpClient :=
  { heap := h, recvTmpBuf := .init, calls := [], freed := [] }

/-- `tcp_client_alloc_cb`; `size`, libuv's suggestion, is never 0. `word` is
`decode_int32(buf->base)`. The region offered is returned. -/
def allocCb (c : TcpClient) (word : BitVec 32) : Option (TcpClient × ReadBase × Nat) :=
  let packet := c.recvTmpBuf
  if packet.offset < packetLenFieldSize then
    some (c, .packetLen packet.offset, packetLenFieldSize - packet.offset)
  else if packet.offset = packetLenFieldSize then
    -- read packet body
    if word.toInt ≤ packetLenFieldSize ∨ word.toInt > maxPacketLen then
      some ({ c with recvTmpBuf := packet.setPacketLen packetInvalid }, .null, 0)
    else do
      let (h, p) := c.heap.malloc word.toNat
      let h ← encodeInt32 h p 0 word
      let packet := { packet.setPacketLen word with
        buf := { base := some p, len := word.signExtend 64 } }
      some ({ c with heap := h, recvTmpBuf := packet }, .body (p.add packetLenFieldSize),
        word.toNat - packetLenFieldSize)
  else do
    -- continue read body
    let p ← packet.buf.base
    some (c, .body (p.add packet.offset), (packet.packetLen.toInt - packet.offset).toNat)

/-- `tcp_client_read_cb`. -/
def readCb (c : TcpClient) (nread : Int) : TcpClient :=
  let packet := c.recvTmpBuf
  if packet.packetLen = packetInvalid then
    { c with calls := c.calls ++ [.error dvrRecvInvalidPacketError] }
  else if nread < 0 then
    { c with
      freed := c.freed ++ packet.buf.base.toList
      recvTmpBuf := .init
      calls := c.calls ++ [.error nread] }
  else if nread > 0 then
    if nread + packet.offset = packet.packetLen.toInt ∧
        packet.packetLen.toInt > packetLenFieldSize then
      -- read body completed
      let contents := packet.buf.base.bind fun p => c.heap.loadBytes p packet.buf.len.toNat
      { c with
        calls := c.calls ++ [.packet packet.buf contents]
        recvTmpBuf := .init }
    else { c with recvTmpBuf := { packet with offset := packet.offset + nread.toNat } }
  else c

/-- What libuv does with a region: `bytes` are received into it. -/
def receive (c : TcpClient) (base : ReadBase) (bytes : List Byte) : Option TcpClient :=
  match base with
  | .packetLen j =>
      let old := c.recvTmpBuf.packetLenBytes
      some { c with recvTmpBuf := { c.recvTmpBuf with
        packetLenBytes := old.take j ++ bytes ++ old.drop (j + bytes.length) } }
  | .body p => do
      let h ← c.heap.storeBytes p bytes
      some { c with heap := h }
  | .null => none

end TcpClient

/-! ## libuv's reads -/

/-- One round of libuv: `n` bytes are there to be read, and `junk` is what
memory holds where the program has no business, counted from `buf->base`. -/
structure Read where
  n : Nat
  junk : Int → Byte

/-- `decode_int32(buf->base)` when the bytes `known` lie there, and `junk`
around them. -/
def wordAt (known : List Byte) (junk : Int → Byte) : BitVec 32 :=
  (decodeInt32 (Reader.beyond known junk) 0).getD 0

/-- A client being read: `held` is where `buf->base` points when libuv asks
for the next region, `none` when that is unspecified; `stream` is what the
peer sent and nobody read. -/
structure Reading where
  client : TcpClient
  held : Option ReadBase
  stream : List Byte

namespace Reading

def start (h : Heap) (stream : List Byte) : Reading :=
  { client := .startRead h, held := none, stream := stream }

/-- The word that `tcp_client_alloc_cb` reads at `buf->base`, as libuv hands it
over. -/
def heldWord (s : Reading) (junk : Int → Byte) : BitVec 32 :=
  match s.held with
  | some (.packetLen j) => wordAt (s.client.recvTmpBuf.packetLenBytes.drop j) junk
  | some (.body p) =>
      (decodeInt32 (fun i => some ((s.client.heap.load (p.add i)).getD (junk i))) 0).getD 0
  | _ => wordAt [] junk

/-- One round: `alloc_cb`, the bytes, `read_cb`. It has no result when more
bytes come than there is room for or than were sent. A burst of rounds, in
which libuv keeps its `uv_buf_t`, ends with one that does not fill its region. -/
def round (s : Reading) (r : Read) : Option Reading := do
  let (c, base, len) ← s.client.allocCb (s.heldWord r.junk)
  if len = 0 then
    if r.n = 0 then some { s with client := c.readCb uvEnobufs, held := none }
    else none
  else if r.n ≤ len ∧ r.n ≤ s.stream.length then do
    let c ← c.receive base (s.stream.take r.n)
    some { client := c.readCb r.n
           held := if r.n = len then some base else none
           stream := s.stream.drop r.n }
  else none

def rounds : Reading → List Read → Option Reading
  | s, [] => some s
  | s, r :: rs => do
      let s ← s.round r
      s.rounds rs

end Reading

end Smts
