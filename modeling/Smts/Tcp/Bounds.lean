import Smts.Tcp.Framing
import Smts.Lib.Transition

/-!
# Tcp — receiving from anybody

The two callbacks against a peer that sends anything, cut anyhow, and with
any word found under `buf->base`: where bytes may land, what the counters can
reach, and what a delivered buffer holds.
-/

namespace Smts

/-! ## Turns -/

/-- What libuv tells `read_cb`: an error, nothing yet, or bytes. -/
inductive Outcome where
  | error (status : Int)
  | again
  | bytes (bs : List Byte)

/-- One call of `alloc_cb` and the call of `read_cb` after it: the word under
`buf->base`, the region that was offered, and what came of it. -/
structure Turn where
  word : BitVec 32
  base : ReadBase
  len : Nat
  outcome : Outcome

namespace TcpClient

/-- libuv fills no more of a region than it was offered. -/
inductive Turns (c : TcpClient) : Turn → TcpClient → Prop where
  | error {word : BitVec 32} {base : ReadBase} {len : Nat} {status : Int} {c₁ : TcpClient}
      (halloc : c.allocCb word = some (c₁, base, len)) (hneg : status < 0) :
      Turns c ⟨word, base, len, .error status⟩ (c₁.readCb status)
  | again {word : BitVec 32} {base : ReadBase} {len : Nat} {c₁ : TcpClient}
      (halloc : c.allocCb word = some (c₁, base, len)) :
      Turns c ⟨word, base, len, .again⟩ (c₁.readCb 0)
  | bytes {word : BitVec 32} {base : ReadBase} {len : Nat} {bs : List Byte} {c₁ c₂ : TcpClient}
      (halloc : c.allocCb word = some (c₁, base, len)) (hpos : 0 < bs.length)
      (hle : bs.length ≤ len) (hrecv : c₁.receive base bs = some c₂) :
      Turns c ⟨word, base, len, .bytes bs⟩ (c₂.readCb bs.length)

end TcpClient

/-- What was received into buffer `b`, and where. -/
def bodyReads (b : Nat) (ts : List Turn) : List (Int × List Byte) :=
  ts.filterMap fun t =>
    match t.base, t.outcome with
    | .body p, .bytes bs => if p.block = b then some (p.off, bs) else none
    | _, _ => none

/-- Reads that fill a buffer from behind its length word up to `n`, one right
after the other. -/
inductive InOrder : List (Int × List Byte) → Nat → Prop where
  | nil : InOrder [] packetLenFieldSize
  | snoc {ws : List (Int × List Byte)} {n : Nat} (bs : List Byte) :
      InOrder ws n → InOrder (ws ++ [((n : Int), bs)]) (n + bs.length)

namespace TcpClient

/-- A region of `alloc_cb`'s: inside `packet_len`, or inside the buffer of the
packet, behind its length word and not yet given away. -/
def Offers (c : TcpClient) : ReadBase → Nat → Prop
  | .packetLen j, len => j + len ≤ c.recvTmpBuf.packetLenBytes.length
  | .body p, len => ∃ blk, c.recvTmpBuf.buf.base = some ⟨p.block, 0⟩ ∧
      c.heap.blocks[p.block]? = some blk ∧ packetLenFieldSize ≤ p.off ∧ p.off + len ≤ blk.length ∧
      (∀ q ∈ c.freed, q.block ≠ p.block) ∧
      ∀ buf contents, .packet buf contents ∈ c.calls → buf.base ≠ some ⟨p.block, 0⟩
  | .null, len => len = 0

/-- With these bytes `read_cb` would take the packet for complete. -/
def Completes (c : TcpClient) (nread : Int) : Prop :=
  nread + c.recvTmpBuf.offset = c.recvTmpBuf.packetLen.toInt ∧
    c.recvTmpBuf.packetLen.toInt > packetLenFieldSize

end TcpClient

/-- A buffer delivered with status 0: `len` bytes, the first four of which say
so, and the others were received in order, each once. -/
def Delivered (ts : List Turn) (buf : UvBuf) (contents : Option (List Byte)) : Prop :=
  ∃ b bytes, buf.base = some ⟨b, 0⟩ ∧ contents = some bytes ∧ buf.len.toNat = bytes.length ∧
    packetLenFieldSize < bytes.length ∧ bytes.length ≤ maxPacketLen ∧
    bytes = BigEndian.bytes 4 (BitVec.ofNat 32 bytes.length)
      ++ (bodyReads b ts).flatMap Prod.snd ∧
    InOrder (bodyReads b ts) bytes.length

/-! ## The invariant -/

/-- The buffer of the packet being received is `b`, of `word` bytes, and
`data` came behind the length word. -/
structure Filling (ts : List Turn) (b : Nat) (word : BitVec 32) (data : List Byte)
    (c : TcpClient) : Prop where
  buf : c.recvTmpBuf.buf = { base := some ⟨b, 0⟩, len := word.signExtend 64 }
  packetLen : c.recvTmpBuf.packetLen = word
  lo : 4 < word.toInt
  hi : word.toInt ≤ maxPacketLen
  heap : ∃ B : List (List (Option Byte)), B.length = b ∧
    c.heap = Heap.pending B (BigEndian.bytes 4 word ++ data) (word.toNat - (4 + data.length))
  le : 4 + data.length ≤ word.toNat
  reads : (bodyReads b ts).flatMap Prod.snd = data
  inOrder : InOrder (bodyReads b ts) (4 + data.length)
  freed : ∀ q ∈ c.freed, q.block ≠ b
  calls : ∀ buf contents, .packet buf contents ∈ c.calls → buf.base ≠ some ⟨b, 0⟩

/-- Where the reading of a stream is: in a length word, or in the body that it
announced. -/
structure Receiving (ts : List Turn) (c : TcpClient) : Prop where
  word : c.recvTmpBuf.packetLenBytes.length = 4
  place : c.recvTmpBuf.offset ≤ 4 ∨ ∃ b word data, Filling ts b word data c ∧
    c.recvTmpBuf.offset = 4 + data.length ∧ 4 + data.length < word.toNat
  fresh : ∀ b, c.heap.blocks.length ≤ b → bodyReads b ts = []
  base : ∀ p, c.recvTmpBuf.buf.base = some p → p.block < c.heap.blocks.length
  freed : ∀ p ∈ c.freed, p.block < c.heap.blocks.length
  delivered : ∀ buf contents, .packet buf contents ∈ c.calls →
    Delivered ts buf contents ∧ ∀ p, buf.base = some p → p.block < c.heap.blocks.length

theorem receiving_startRead (h : Heap) : Receiving [] (.startRead h) where
  word := rfl
  place := .inl (Nat.zero_le _)
  fresh _ _ := rfl
  base p hp := by cases hp
  freed p hp := by cases hp
  delivered buf contents hc := by cases hc

/-! ## Traces -/

theorem bodyReads_append (b : Nat) (ts us : List Turn) :
    bodyReads b (ts ++ us) = bodyReads b ts ++ bodyReads b us :=
  List.filterMap_append

theorem bodyReads_snoc_bytes (ts : List Turn) (word : BitVec 32) (p : Ptr) (len : Nat)
    (bs : List Byte) :
    bodyReads p.block (ts ++ [⟨word, .body p, len, .bytes bs⟩])
      = bodyReads p.block ts ++ [(p.off, bs)] := by
  rw [bodyReads_append]
  simp [bodyReads]

/-- A turn that brings nothing into the buffer `b` leaves what was read into it. -/
theorem bodyReads_snoc {b : Nat} {ts : List Turn} {t : Turn}
    (ht : ∀ p bs, t.base = .body p → t.outcome = .bytes bs → p.block ≠ b) :
    bodyReads b (ts ++ [t]) = bodyReads b ts := by
  obtain ⟨word, base, len, outcome⟩ := t
  rw [bodyReads_append]
  cases base <;> cases outcome <;> simp_all [bodyReads]

theorem Delivered.snoc {ts : List Turn} {t : Turn} {buf : UvBuf} {contents : Option (List Byte)}
    (h : Delivered ts buf contents)
    (ht : ∀ p bs, t.base = .body p → t.outcome = .bytes bs → buf.base ≠ some ⟨p.block, 0⟩) :
    Delivered (ts ++ [t]) buf contents := by
  obtain ⟨b, bytes, hb, hcontents, hlen, hlo, hhi, hbytes, horder⟩ := h
  have hstay : bodyReads b (ts ++ [t]) = bodyReads b ts := by
    refine bodyReads_snoc fun p bs hp ho heq => ht p bs hp ho ?_
    rw [hb, heq]
  exact ⟨b, bytes, hb, hcontents, hlen, hlo, hhi, by rw [hstay]; exact hbytes,
    by rw [hstay]; exact horder⟩

/-! ## What is offered -/

theorem Filling.toNat_word {ts : List Turn} {b : Nat} {word : BitVec 32} {data : List Byte}
    {c : TcpClient} (h : Filling ts b word data c) : (word.toNat : Int) = word.toInt := by
  have hlo := h.lo
  have := BitVec.toInt_eq_toNat_cond word
  split at this <;> omega

theorem Filling.offers {ts : List Turn} {b : Nat} {word : BitVec 32} {data : List Byte}
    {c : TcpClient} (h : Filling ts b word data c) :
    c.Offers (.body ⟨b, (4 + data.length : Nat)⟩) (word.toNat - (4 + data.length)) := by
  obtain ⟨B, rfl, hheap⟩ := h.heap
  have hle := h.le
  refine ⟨_, by rw [h.buf], by rw [hheap, Heap.pending, List.getElem?_concat_length], ?_, ?_,
    h.freed, h.calls⟩
  · simp [packetLenFieldSize]
  · simp only [List.length_append, List.length_map, List.length_replicate, BigEndian.length_bytes]
    omega

theorem Receiving.allocCb_isSome {ts : List Turn} {c : TcpClient} (h : Receiving ts c)
    (word : BitVec 32) : ∃ c₁ base len, c.allocCb word = some (c₁, base, len) := by
  rw [TcpClient.allocCb]
  split
  · exact ⟨_, _, _, rfl⟩
  split
  · split
    · exact ⟨_, _, _, rfl⟩
    next hbad =>
      have hlo : 4 < word.toInt := by
        rw [not_or, packetLenFieldSize] at hbad
        omega
      have hword := encodeInt32_malloc c.heap hlo
      simp only [Heap.malloc_pending] at hword ⊢
      rw [hword]
      exact ⟨_, _, _, rfl⟩
  next hne heq =>
    rw [packetLenFieldSize] at hne heq
    obtain hle | ⟨b, w, data, hfill, -⟩ := h.place
    · omega
    · rw [hfill.buf]
      exact ⟨_, _, _, rfl⟩

/-- `alloc_cb` offers room for the length word, or none, or room in the
packet's buffer. -/
theorem Receiving.allocCb {ts : List Turn} {c c₁ : TcpClient} {word : BitVec 32} {base : ReadBase}
    {len : Nat} (h : Receiving ts c) (halloc : c.allocCb word = some (c₁, base, len)) :
    Receiving ts c₁ ∧
      ((c₁.recvTmpBuf.offset < 4 ∧ base = .packetLen c₁.recvTmpBuf.offset ∧
          len = 4 - c₁.recvTmpBuf.offset) ∨
        (base = .null ∧ len = 0) ∨
        ∃ b w data, Filling ts b w data c₁ ∧ c₁.recvTmpBuf.offset = 4 + data.length ∧
          base = .body ⟨b, (4 + data.length : Nat)⟩ ∧ len = w.toNat - (4 + data.length)) := by
  rcases TcpClient.allocCb_cases halloc with ⟨hlt, rfl, rfl, rfl⟩ | ⟨heq, -, rfl, rfl, rfl⟩ |
    ⟨heq, hlo, hhi, hc₁, rfl, rfl⟩ | ⟨hgt, rfl, p, hp, rfl, rfl⟩
  · exact ⟨h, .inl ⟨hlt, rfl, rfl⟩⟩
  · refine ⟨⟨by simp [ClientReadTmpBuf.setPacketLen, BigEndian.length_bytes], .inl heq.le, h.fresh, h.base, h.freed, h.delivered⟩, .inr (.inl ⟨rfl, rfl⟩)⟩
  -- a new block: nothing was read into it, and nothing that was freed or handed over lies in it
  · have hnew := h.fresh c.heap.blocks.length le_rfl
    have hlen : c₁.heap.blocks.length = c.heap.blocks.length + 1 := by
      rw [hc₁]
      simp [Heap.pending]
    have hoff : c₁.recvTmpBuf.offset = 4 := by
      rw [hc₁]
      exact heq
    have hbase : c₁.recvTmpBuf.buf.base = some ⟨c.heap.blocks.length, 0⟩ := by rw [hc₁]
    have hfreed : c₁.freed = c.freed := by rw [hc₁]
    have hcalls : c₁.calls = c.calls := by rw [hc₁]
    have hrecv : Receiving ts c₁ := by
      refine ⟨?_, .inl hoff.le, fun b hb => h.fresh b (by omega), fun p hp => ?_, fun p hp => ?_,
        fun buf contents hc => ?_⟩
      · rw [hc₁]
        simp [ClientReadTmpBuf.setPacketLen, BigEndian.length_bytes]
      · rw [hbase] at hp
        obtain rfl := Option.some.inj hp
        exact hlen ▸ Nat.lt_succ_self _
      · have := h.freed p (hfreed ▸ hp)
        omega
      · obtain ⟨hdel, hb⟩ := h.delivered buf contents (hcalls ▸ hc)
        exact ⟨hdel, fun p hp => by have := hb p hp; omega⟩
    refine ⟨hrecv, .inr (.inr ⟨c.heap.blocks.length, word, [], ?_, hoff, rfl, rfl⟩)⟩
    refine ⟨by rw [hc₁], ?_, hlo, hhi, ?_, ?_, by rw [hnew]; rfl, by rw [hnew]; exact .nil,
      fun q hq heq => ?_, fun buf contents hc heq => ?_⟩
    · rw [hc₁]
      exact c.recvTmpBuf.packetLen_setPacketLen word
    · exact ⟨c.heap.blocks, rfl, by rw [hc₁]; simp⟩
    · have := BitVec.toInt_eq_toNat_cond word
      simp only [List.length_nil]
      split at this <;> omega
    · have := h.freed q (hfreed ▸ hq)
      omega
    · have := (h.delivered buf contents (hcalls ▸ hc)).2 _ heq
      exact absurd this (Nat.lt_irrefl _)
  · obtain hle | ⟨b, w, data, hfill, hoff, hlt⟩ := h.place
    · omega
    · refine ⟨h, .inr (.inr ⟨b, w, data, hfill, hoff, ?_, ?_⟩)⟩
      · rw [hfill.buf] at hp
        obtain rfl := Option.some.inj hp
        simp [Ptr.add, hoff]
      · rw [hfill.packetLen, ← hfill.toNat_word, hoff]
        omega

/-! ## What `read_cb` makes of it -/

/-- A turn that brings no bytes into a body only adds to the run. -/
theorem Receiving.snoc {ts : List Turn} {c : TcpClient} (h : Receiving ts c) {t : Turn}
    (ht : ∀ p bs, t.base = .body p → t.outcome ≠ .bytes bs) : Receiving (ts ++ [t]) c where
  word := h.word
  place := by
    refine h.place.imp_right ?_
    rintro ⟨b, word, data, hfill, hoff, hlt⟩
    have hstay : bodyReads b (ts ++ [t]) = bodyReads b ts :=
      bodyReads_snoc fun p bs hp ho => absurd ho (ht p bs hp)
    exact ⟨b, word, data, { hfill with
      reads := by rw [hstay]; exact hfill.reads
      inOrder := by rw [hstay]; exact hfill.inOrder }, hoff, hlt⟩
  fresh b hb := by
    rw [bodyReads_snoc fun p bs hp ho => absurd ho (ht p bs hp)]
    exact h.fresh b hb
  base := h.base
  freed := h.freed
  delivered buf contents hc :=
    ⟨(h.delivered buf contents hc).1.snoc fun p bs hp ho => absurd ho (ht p bs hp),
      (h.delivered buf contents hc).2⟩

/-- `read_cb` without bytes, or with the marker in `packet_len`. -/
theorem Receiving.readCb {ts : List Turn} {c : TcpClient} (h : Receiving ts c) {nread : Int}
    (hn : nread ≤ 0 ∨ c.recvTmpBuf.packetLen = packetInvalid) : Receiving ts (c.readCb nread) := by
  rcases c.readCb_cases nread with ⟨-, heq⟩ | ⟨-, -, heq⟩ | ⟨-, -, heq⟩ |
    ⟨hinv, hpos, -⟩ | ⟨hinv, hpos, -⟩
  · rw [heq]
    refine ⟨h.word, h.place.imp_right ?_, h.fresh, h.base, h.freed, fun buf contents hc => ?_⟩
    · rintro ⟨b, word, data, hfill, hoff, hlt⟩
      refine ⟨b, word, data, { hfill with calls := ?_ }, hoff, hlt⟩
      exact fun buf contents hc => hfill.calls buf contents (by simpa using hc)
    · exact h.delivered buf contents (by simpa using hc)
  · rw [heq]
    refine ⟨rfl, .inl (Nat.zero_le _), h.fresh, by rintro p ⟨⟩, fun p hp => ?_,
      fun buf contents hc => h.delivered buf contents (by simpa using hc)⟩
    rcases List.mem_append.mp hp with hp | hp
    · exact h.freed p hp
    · exact h.base p (by simpa using hp)
  · rw [heq]
    exact h
  · rcases hn with hle | hmark
    · omega
    · exact absurd hmark hinv
  · rcases hn with hle | hmark
    · omega
    · exact absurd hmark hinv

/-- Bytes of a length word. They are no complete packet yet. -/
theorem Receiving.header {ts : List Turn} {c c' : TcpClient} (h : Receiving ts c)
    (hlt : c.recvTmpBuf.offset < 4) {bs : List Byte} (hpos : 0 < bs.length)
    (hle : bs.length ≤ 4 - c.recvTmpBuf.offset)
    (hrecv : c.receive (.packetLen c.recvTmpBuf.offset) bs = some c') :
    ¬ c'.Completes bs.length ∧ Receiving ts (c'.readCb bs.length) := by
  have hword := h.word
  have hlen : (c.recvTmpBuf.packetLenBytes.take c.recvTmpBuf.offset ++ bs
      ++ c.recvTmpBuf.packetLenBytes.drop (c.recvTmpBuf.offset + bs.length)).length = 4 := by
    simp only [List.length_append, List.length_take, List.length_drop]
    omega
  have hc' := (Option.some.inj hrecv).symm
  have hoff : c'.recvTmpBuf.offset = c.recvTmpBuf.offset := by rw [hc']
  have hbuf : c'.recvTmpBuf.buf = c.recvTmpBuf.buf := by rw [hc']
  have hrecv' : Receiving ts c' := by
    refine ⟨by rw [hc']; exact hlen, .inl (by omega), ?_, ?_, ?_, ?_⟩
    · rw [hc']
      exact h.fresh
    · rw [hbuf, hc']
      exact h.base
    · rw [hc']
      exact h.freed
    · rw [hc']
      exact h.delivered
  -- four bytes complete no packet, whatever they say its length is
  have hnot : ¬ c'.Completes bs.length := by
    rintro ⟨hsum, hlarge⟩
    rw [packetLenFieldSize] at hlarge
    omega
  refine ⟨hnot, ?_⟩
  by_cases hinv : c'.recvTmpBuf.packetLen = packetInvalid
  · exact hrecv'.readCb (.inr hinv)
  rcases c'.readCb_cases bs.length with ⟨hmark, -⟩ | ⟨-, hneg, -⟩ | ⟨-, hz, -⟩ |
    ⟨-, -, hdone, hlarge, -⟩ | ⟨-, -, -, heq⟩
  · exact absurd hmark hinv
  · omega
  · omega
  · exact absurd ⟨hdone, hlarge⟩ hnot
  · rw [heq]
    refine { hrecv' with word := hrecv'.word, place := .inl ?_ }
    simp only [Int.toNat_natCast]
    omega

/-- A length that fits an `int` is the same as a `size_t`. -/
theorem toNat_signExtend {word : BitVec 32} (h : 0 ≤ word.toInt) :
    (word.signExtend 64).toNat = word.toNat := by
  have hmsb : word.msb = false := by
    rw [BitVec.msb_eq_toInt]
    simpa using h
  rw [BitVec.signExtend_eq_setWidth_of_msb_false hmsb, BitVec.toNat_setWidth]
  exact Nat.mod_eq_of_lt (by omega)

/-- While a buffer is being filled there is room in it for all that libuv may
bring. -/
theorem Filling.receive {ts : List Turn} {b : Nat} {word : BitVec 32} {data : List Byte}
    {c : TcpClient} (h : Filling ts b word data c) {bs : List Byte}
    (hle : bs.length ≤ word.toNat - (4 + data.length)) :
    ∃ B : List (List (Option Byte)), B.length = b ∧
      c.receive (.body ⟨b, (4 + data.length : Nat)⟩) bs = some { c with
        heap := Heap.pending B (BigEndian.bytes 4 word ++ (data ++ bs))
          (word.toNat - (4 + (data ++ bs).length)) } := by
  obtain ⟨B, rfl, hheap⟩ := h.heap
  refine ⟨B, rfl, ?_⟩
  have hle' := h.le
  have hstore := Heap.storeBytes_pending B (BigEndian.bytes 4 word ++ data) bs
    (word.toNat - (4 + (data ++ bs).length))
  have hlen : (BigEndian.bytes 4 word ++ data).length = 4 + data.length := by
    rw [List.length_append, BigEndian.length_bytes]
  have hroom : bs.length + (word.toNat - (4 + (data ++ bs).length))
      = word.toNat - (4 + data.length) := by
    rw [List.length_append]
    omega
  rw [hlen, hroom, ← hheap, List.append_assoc] at hstore
  rw [TcpClient.receive, hstore]
  rfl

/-- A buffer that has been filled up is delivered with what the run brought. -/
theorem Filling.delivered {ts : List Turn} {b : Nat} {word : BitVec 32} {data : List Byte}
    {c : TcpClient} (h : Filling ts b word data c) (hfull : 4 + data.length = word.toNat) :
    Delivered ts { base := some ⟨b, 0⟩, len := word.signExtend 64 }
      (c.heap.loadBytes ⟨b, 0⟩ (word.signExtend 64).toNat) := by
  obtain ⟨B, rfl, hheap⟩ := h.heap
  have hlo := h.lo
  have hhi := h.hi
  have hnat := h.toNat_word
  have hlen : (BigEndian.bytes 4 word ++ data).length = word.toNat := by
    rw [List.length_append, BigEndian.length_bytes, hfull]
  have hblk : c.heap.blocks[B.length]? = some ((BigEndian.bytes 4 word ++ data).map some) := by
    rw [hheap, hfull, Nat.sub_self, Heap.pending_zero, List.getElem?_concat_length]
  have hload := Heap.loadBytes_of_block hblk 0 word.toNat (by omega)
  rw [List.drop_zero, ← hlen, List.take_length, hlen] at hload
  refine ⟨B.length, BigEndian.bytes 4 word ++ data, rfl, ?_, ?_, ?_, ?_, ?_, ?_⟩
  · rw [toNat_signExtend (by omega)]
    exact hload
  · rw [toNat_signExtend (by omega), hlen]
  · rw [hlen, packetLenFieldSize]
    omega
  · rw [hlen]
    omega
  · rw [hlen, BitVec.ofNat_toNat, BitVec.setWidth_eq, h.reads]
  · rw [hlen, ← hfull]
    exact h.inOrder

/-- Bytes of a body: the next read goes on behind them, or the packet is
delivered. -/
theorem Receiving.body {ts : List Turn} {b : Nat} {word w : BitVec 32} {data : List Byte}
    {c c' : TcpClient} (h : Receiving ts c) (hfill : Filling ts b w data c)
    (hoff : c.recvTmpBuf.offset = 4 + data.length) {bs : List Byte} (hpos : 0 < bs.length)
    (hle : bs.length ≤ w.toNat - (4 + data.length))
    (hrecv : c.receive (.body ⟨b, (4 + data.length : Nat)⟩) bs = some c') (len : Nat) :
    Receiving (ts ++ [⟨word, .body ⟨b, (4 + data.length : Nat)⟩, len, .bytes bs⟩])
      (c'.readCb bs.length) := by
  obtain ⟨B, hB, hc'⟩ := hfill.receive hle
  replace hc' := Option.some.inj (hrecv.symm.trans hc')
  let t : Turn := ⟨word, .body ⟨b, (4 + data.length : Nat)⟩, len, .bytes bs⟩
  have hreads : bodyReads b (ts ++ [t]) = bodyReads b ts ++ [(((4 + data.length : Nat) : Int), bs)] :=
    bodyReads_snoc_bytes ts word ⟨b, (4 + data.length : Nat)⟩ len bs
  have hother : ∀ d, d ≠ b → bodyReads d (ts ++ [t]) = bodyReads d ts := by
    intro d hd
    refine bodyReads_snoc ?_
    rintro p bs ⟨⟩ -
    exact hd.symm
  have hlen : c'.heap.blocks.length = b + 1 ∧ c.heap.blocks.length = b + 1 := by
    obtain ⟨B', hB', hheap⟩ := hfill.heap
    rw [hc', hheap]
    simp [Heap.pending, hB, hB']
  -- the bytes went behind those that were there, and the block is still the one of the packet
  have hfill' : Filling (ts ++ [t]) b w (data ++ bs) c' := by
    refine ⟨by rw [hc']; exact hfill.buf, by rw [hc']; exact hfill.packetLen, hfill.lo, hfill.hi,
      ⟨B, hB, by rw [hc']⟩, ?_, ?_, ?_, by rw [hc']; exact hfill.freed,
      by rw [hc']; exact hfill.calls⟩
    · have := hfill.le
      rw [List.length_append]
      omega
    · rw [hreads, List.flatMap_append, hfill.reads]
      simp
    · rw [hreads, List.length_append, ← Nat.add_assoc]
      exact hfill.inOrder.snoc bs
  have hdelivered : ∀ buf contents, .packet buf contents ∈ c'.calls →
      Delivered (ts ++ [t]) buf contents ∧ ∀ p, buf.base = some p → p.block < c'.heap.blocks.length := by
    intro buf contents hc
    rw [hc'] at hc
    obtain ⟨hdel, hlt⟩ := h.delivered buf contents hc
    refine ⟨hdel.snoc ?_, fun p hp => ?_⟩
    · rintro p bs ⟨⟩ -
      exact hfill.calls buf contents hc
    · have := hlt p hp
      omega
  have hfresh : ∀ d, c'.heap.blocks.length ≤ d → bodyReads d (ts ++ [t]) = [] := by
    intro d hd
    rw [hother d (by omega)]
    exact h.fresh d (by omega)
  have hfreed : ∀ p ∈ c'.freed, p.block < c'.heap.blocks.length := by
    intro p hp
    rw [hc'] at hp
    have := h.freed p hp
    omega
  have hword : c'.recvTmpBuf.packetLenBytes.length = 4 := by
    rw [hc']
    exact h.word
  have hoff' : c'.recvTmpBuf.offset = 4 + data.length := by
    rw [hc']
    exact hoff
  have hnat := hfill.toNat_word
  -- the packet is either complete now, and handed over, or its block goes on being filled
  rcases c'.readCb_cases bs.length with ⟨hmark, -⟩ | ⟨-, hneg, -⟩ | ⟨-, hz, -⟩ |
    ⟨-, -, hdone, hlarge, heq⟩ | ⟨-, -, hnot, heq⟩
  · have hlo := hfill.lo
    rw [← hfill'.packetLen, hmark] at hlo
    exact absurd hlo (by decide)
  · omega
  · omega
  · rw [heq]
    refine ⟨rfl, .inl (Nat.zero_le _), hfresh, by rintro p ⟨⟩, hfreed, fun buf contents hc => ?_⟩
    rcases List.mem_append.mp hc with hc | hc
    · exact hdelivered buf contents hc
    · rw [hfill'.packetLen, hoff'] at hdone
      obtain ⟨rfl, rfl⟩ := by simpa using hc
      rw [hfill'.buf]
      refine ⟨hfill'.delivered ?_, fun p hp => ?_⟩
      · rw [List.length_append]
        omega
      · obtain rfl := Option.some.inj hp
        exact hlen.1 ▸ Nat.lt_succ_self b
  · rw [heq]
    rw [hfill'.packetLen, hoff'] at hnot
    have hlo := hfill.lo
    have hle' := hfill.le
    refine ⟨hword, .inr ⟨b, w, data ++ bs, ?_, ?_, ?_⟩, hfresh, ?_, hfreed, hdelivered⟩
    · exact { hfill' with }
    · simp only [hoff', Int.toNat_natCast, List.length_append]
      omega
    · rw [List.length_append]
      omega
    · intro p hp
      have := h.base p (by simpa [hc'] using hp)
      exact hlen.1 ▸ hlen.2 ▸ this

/-! ## Whole runs -/

theorem Receiving.step {ts : List Turn} {c c' : TcpClient} {t : Turn} (h : Receiving ts c)
    (ht : c.Turns t c') : Receiving (ts ++ [t]) c' := by
  cases ht with
  | error halloc hneg =>
      refine ((h.allocCb halloc).1.readCb (.inl hneg.le)).snoc ?_
      rintro p bs - ⟨⟩
  | again halloc =>
      refine ((h.allocCb halloc).1.readCb (.inl le_rfl)).snoc ?_
      rintro p bs - ⟨⟩
  | bytes halloc hpos hle hrecv =>
      obtain ⟨h₁, ⟨hlt, rfl, rfl⟩ | ⟨rfl, rfl⟩ | ⟨b, w, data, hfill, hoff, rfl, rfl⟩⟩ :=
        h.allocCb halloc
      · refine (h₁.header hlt hpos hle hrecv).2.snoc ?_
        rintro p bs ⟨⟩
      · omega
      · exact h₁.body hfill hoff hpos hle hrecv _

theorem receiving_of_run {h : Heap} {ts : List Turn} {c : TcpClient}
    (hrun : Transition.Run TcpClient.Turns (.startRead h) ts c) : Receiving ts c := by
  induction hrun with
  | refl => exact receiving_startRead h
  | snoc _ ht ih => exact ih.step ht

/-- What holds of a client whenever libuv is about to ask for room: the
counters are within bounds, what `alloc_cb` will offer is the program's to
write, as many bytes as then come are taken in without a sum that overflows,
and what was delivered is whole. -/
structure Bounded (ts : List Turn) (c : TcpClient) : Prop where
  offset : c.recvTmpBuf.offset ≤ packetLenFieldSize ∨
    (c.recvTmpBuf.offset : Int) ≤ c.recvTmpBuf.packetLen.toInt ∧
      c.recvTmpBuf.packetLen.toInt ≤ maxPacketLen
  alloc : ∀ word, ∃ c₁ base len, c.allocCb word = some (c₁, base, len) ∧ c₁.Offers base len ∧
    c₁.recvTmpBuf.offset + len < 2 ^ 31 ∧
    ∀ bs : List Byte, 0 < bs.length → bs.length ≤ len → ∃ c₂, c₁.receive base bs = some c₂ ∧
      (c₂.recvTmpBuf.offset < packetLenFieldSize → ¬ c₂.Completes bs.length)
  delivered : ∀ buf contents, .packet buf contents ∈ c.calls → Delivered ts buf contents

/-- **Whatever comes from the socket**, nothing is written or read outside a
buffer. -/
theorem bounded_of_run {h : Heap} {ts : List Turn} {c : TcpClient}
    (hrun : Transition.Run TcpClient.Turns (.startRead h) ts c) : Bounded ts c := by
  have hr := receiving_of_run hrun
  refine ⟨?_, fun word => ?_, fun buf contents hc => (hr.delivered buf contents hc).1⟩
  · refine hr.place.imp_right ?_
    rintro ⟨b, w, data, hfill, hoff, hlt⟩
    have := hfill.toNat_word
    rw [hfill.packetLen, hoff]
    exact ⟨by omega, hfill.hi⟩
  obtain ⟨c₁, base, len, halloc⟩ := hr.allocCb_isSome word
  refine ⟨c₁, base, len, halloc, ?_⟩
  obtain ⟨h₁, ⟨hlt, rfl, rfl⟩ | ⟨rfl, rfl⟩ | ⟨b, w, data, hfill, hoff, rfl, rfl⟩⟩ :=
    hr.allocCb halloc
  · refine ⟨?_, by omega, fun bs hpos hle => ⟨_, rfl, fun _ => (h₁.header hlt hpos hle rfl).1⟩⟩
    have := h₁.word
    rw [TcpClient.Offers]
    omega
  · have hoff : c₁.recvTmpBuf.offset ≤ maxPacketLen := by
      rcases h₁.place with hle | ⟨b, w, data, hfill, hoff, hlt⟩
      · exact hle.trans (by decide)
      · have := hfill.toNat_word
        have := hfill.hi
        omega
    have hmax : maxPacketLen < 2 ^ 31 := by decide
    exact ⟨rfl, by omega, fun bs hpos hle => absurd hle (by omega)⟩
  · have hhi := hfill.hi
    have hnat := hfill.toNat_word
    have hle := hfill.le
    have hmax : maxPacketLen < 2 ^ 31 := by decide
    refine ⟨hfill.offers, by omega, fun bs hpos hle => ?_⟩
    obtain ⟨B, -, hrecv⟩ := hfill.receive hle
    exact ⟨_, hrecv, fun hlt => absurd hlt (by simp only [hoff, packetLenFieldSize]; omega)⟩

/-- A packet of five bytes, in two reads. -/
theorem bounded_of_run_twoReads :
    ∃ ts c, c.calls = [.packet { base := some ⟨0, 0⟩, len := 5 } (some [0, 0, 0, 5, 7])] ∧
      Bounded ts c := by
  have hheader : (TcpClient.startRead ⟨[]⟩).Turns
      ⟨0, .packetLen 0, 4, .bytes [0, 0, 0, 5]⟩ _ := .bytes rfl (by decide) le_rfl rfl
  refine ⟨_, _, ?_, bounded_of_run (.snoc (.snoc .refl hheader)
    (show TcpClient.Turns _ ⟨5, .body ⟨0, 4⟩, 1, .bytes [7]⟩ _ from
      .bytes rfl (by decide) (by decide) rfl))⟩
  decide +kernel

end Smts
