import Smts.Tcp.Client
import Smts.Proto.Decode

/-!
# Tcp — framing

What the two callbacks make of a stream of packets. Started between packets
they deliver every packet, in its own buffer, as long as the length word is
decoded from where it was received and the body is not asked for twice; from
the first packet where this fails nothing repairs the stream.
-/

namespace Smts

/-! ## What the callbacks can do -/

/-- A new buffer takes its own length word. -/
theorem encodeInt32_malloc (h : Heap) {word : BitVec 32} (hlo : 4 < word.toInt) :
    encodeInt32 (h.malloc word.toNat).1 (h.malloc word.toNat).2 0 word
      = some (Heap.pending h.blocks (BigEndian.bytes 4 word) (word.toNat - 4)) := by
  have hnat : word.toNat = 4 + (word.toNat - 4) := by
    have := BitVec.toInt_eq_toNat_cond word
    split at this <;> omega
  have hstore := Heap.storeBytes_pending h.blocks [] (BigEndian.bytes 4 word) (word.toNat - 4)
  rw [BigEndian.length_bytes, ← hnat] at hstore
  rw [Heap.malloc_pending, encodeInt32, encodeInt_eq _ _ _ _ (Nat.le_refl (8 * 4))]
  exact hstore

namespace TcpClient

/-- `tcp_client_alloc_cb`, case by case. -/
theorem allocCb_cases {c c' : TcpClient} {word : BitVec 32} {base : ReadBase} {len : Nat}
    (h : c.allocCb word = some (c', base, len)) :
    (c.recvTmpBuf.offset < 4 ∧ c' = c ∧ base = .packetLen c.recvTmpBuf.offset ∧
      len = 4 - c.recvTmpBuf.offset) ∨
    (c.recvTmpBuf.offset = 4 ∧ (word.toInt ≤ 4 ∨ word.toInt > maxPacketLen) ∧
      c' = { c with recvTmpBuf := c.recvTmpBuf.setPacketLen packetInvalid } ∧
      base = .null ∧ len = 0) ∨
    (c.recvTmpBuf.offset = 4 ∧ 4 < word.toInt ∧ word.toInt ≤ maxPacketLen ∧
      c' = { c with
        heap := Heap.pending c.heap.blocks (BigEndian.bytes 4 word) (word.toNat - 4)
        recvTmpBuf := { c.recvTmpBuf.setPacketLen word with
          buf := { base := some ⟨c.heap.blocks.length, 0⟩, len := word.signExtend 64 } } } ∧
      base = .body ⟨c.heap.blocks.length, 4⟩ ∧ len = word.toNat - 4) ∨
    (4 < c.recvTmpBuf.offset ∧ c' = c ∧ ∃ p, c.recvTmpBuf.buf.base = some p ∧
      base = .body (p.add c.recvTmpBuf.offset) ∧
      len = (c.recvTmpBuf.packetLen.toInt - c.recvTmpBuf.offset).toNat) := by
  rw [allocCb] at h
  by_cases hlt : c.recvTmpBuf.offset < packetLenFieldSize
  · rw [if_pos hlt, Option.some.injEq] at h
    obtain ⟨rfl, rfl, rfl⟩ := h
    exact Or.inl ⟨hlt, rfl, rfl, rfl⟩
  · rw [if_neg hlt] at h
    by_cases heq : c.recvTmpBuf.offset = packetLenFieldSize
    · rw [if_pos heq] at h
      by_cases hbad : word.toInt ≤ packetLenFieldSize ∨ word.toInt > maxPacketLen
      · rw [if_pos hbad, Option.some.injEq] at h
        obtain ⟨rfl, rfl, rfl⟩ := h
        exact Or.inr (Or.inl ⟨heq, hbad, rfl, rfl, rfl⟩)
      · have hlo : 4 < word.toInt := by
          rw [not_or, packetLenFieldSize] at hbad
          omega
        rw [if_neg hbad] at h
        dsimp only at h
        rw [encodeInt32_malloc c.heap hlo, Heap.malloc_pending] at h
        simp only [Option.bind_eq_bind, Option.bind_some, Option.some.injEq, Prod.mk.injEq] at h
        obtain ⟨rfl, rfl, rfl⟩ := h
        exact Or.inr (Or.inr (Or.inl ⟨heq, hlo, by omega, rfl, rfl, rfl⟩))
    · rw [if_neg heq] at h
      obtain ⟨p, hp, h⟩ := Option.bind_eq_some_iff.mp h
      rw [Option.some.injEq] at h
      obtain ⟨rfl, rfl, rfl⟩ := h
      rw [packetLenFieldSize] at hlt heq
      exact Or.inr (Or.inr (Or.inr ⟨by omega, rfl, p, hp, rfl, rfl⟩))

/-- `tcp_client_read_cb`, case by case. -/
theorem readCb_cases (c : TcpClient) (nread : Int) :
    (c.recvTmpBuf.packetLen = packetInvalid ∧
      c.readCb nread = { c with calls := c.calls ++ [.error dvrRecvInvalidPacketError] }) ∨
    (c.recvTmpBuf.packetLen ≠ packetInvalid ∧ nread < 0 ∧
      c.readCb nread = { c with
        freed := c.freed ++ c.recvTmpBuf.buf.base.toList
        recvTmpBuf := .init
        calls := c.calls ++ [.error nread] }) ∨
    (c.recvTmpBuf.packetLen ≠ packetInvalid ∧ nread = 0 ∧ c.readCb nread = c) ∨
    (c.recvTmpBuf.packetLen ≠ packetInvalid ∧ 0 < nread ∧
      nread + c.recvTmpBuf.offset = c.recvTmpBuf.packetLen.toInt ∧
      4 < c.recvTmpBuf.packetLen.toInt ∧
      c.readCb nread = { c with
        calls := c.calls ++ [.packet c.recvTmpBuf.buf
          (c.recvTmpBuf.buf.base.bind fun p => c.heap.loadBytes p c.recvTmpBuf.buf.len.toNat)]
        recvTmpBuf := .init }) ∨
    (c.recvTmpBuf.packetLen ≠ packetInvalid ∧ 0 < nread ∧
      ¬ (nread + c.recvTmpBuf.offset = c.recvTmpBuf.packetLen.toInt ∧
        4 < c.recvTmpBuf.packetLen.toInt) ∧
      c.readCb nread = { c with
        recvTmpBuf := { c.recvTmpBuf with offset := c.recvTmpBuf.offset + nread.toNat } }) := by
  by_cases hinv : c.recvTmpBuf.packetLen = packetInvalid
  · exact Or.inl ⟨hinv, by simp [readCb, hinv]⟩
  · by_cases hneg : nread < 0
    · exact Or.inr (Or.inl ⟨hinv, hneg, by simp [readCb, hinv, hneg]⟩)
    · by_cases hpos : 0 < nread
      · by_cases hdone : nread + c.recvTmpBuf.offset = c.recvTmpBuf.packetLen.toInt ∧
            c.recvTmpBuf.packetLen.toInt > packetLenFieldSize
        · refine Or.inr (Or.inr (Or.inr (Or.inl ⟨hinv, hpos, hdone.1, hdone.2, ?_⟩)))
          simp only [readCb, if_neg hinv, if_neg hneg, gt_iff_lt, if_pos hpos]
          rw [if_pos hdone]
        · refine Or.inr (Or.inr (Or.inr (Or.inr ⟨hinv, hpos, hdone, ?_⟩)))
          simp only [readCb, if_neg hinv, if_neg hneg, gt_iff_lt, if_pos hpos]
          rw [if_neg hdone]
      · exact Or.inr (Or.inr (Or.inl ⟨hinv, by omega, by simp [readCb, hinv, hneg, hpos]⟩))

end TcpClient

namespace Reading

/-- A round is `alloc_cb` and then one of two things. -/
theorem round_cases {s s' : Reading} {r : Read} (h : s.round r = some s') :
    ∃ c base len, s.client.allocCb (s.heldWord r.junk) = some (c, base, len) ∧
      ((len = 0 ∧ r.n = 0 ∧ s' = { s with client := c.readCb uvEnobufs, held := none }) ∨
      (len ≠ 0 ∧ r.n ≤ len ∧ r.n ≤ s.stream.length ∧
        ∃ c', c.receive base (s.stream.take r.n) = some c' ∧
          s' = { client := c'.readCb r.n
                 held := if r.n = len then some base else none
                 stream := s.stream.drop r.n })) := by
  obtain ⟨⟨c, base, len⟩, halloc, h⟩ := Option.bind_eq_some_iff.mp h
  refine ⟨c, base, len, halloc, ?_⟩
  dsimp only at h
  by_cases hlen : len = 0
  · rw [if_pos hlen] at h
    by_cases hn : r.n = 0
    · rw [if_pos hn, Option.some.injEq] at h
      exact Or.inl ⟨hlen, hn, h.symm⟩
    · rw [if_neg hn] at h
      cases h
  · rw [if_neg hlen] at h
    by_cases hn : r.n ≤ len ∧ r.n ≤ s.stream.length
    · rw [if_pos hn] at h
      obtain ⟨c', hc', h⟩ := Option.bind_eq_some_iff.mp h
      exact Or.inr ⟨hlen, hn.1, hn.2, c', hc', (Option.some.inj h).symm⟩
    · rw [if_neg hn] at h
      cases h

end Reading

/-! ## Packets, cuts, and what is to be delivered -/

/-- A packet the framing accepts: it begins with its own length. -/
structure IsPacket (p : List Byte) : Prop where
  lo : packetLenFieldSize < p.length
  hi : p.length ≤ maxPacketLen
  len : lenWord p = BitVec.ofNat 32 p.length

/-- The word found where the last piece of the length word was received, its
first `j` bytes having come before. -/
def headerWord (p : List Byte) (j : Nat) (junk : Int → Byte) : BitVec 32 :=
  wordAt ((p.take 4).drop j) junk

/-- **The cuts the framing survives.** Of the first packet `pos` bytes were
read; the last region for the length word began at byte `j` of it. When the
length word is complete, the word found at that region has to be the packet's
length, as it is when the whole length word came in one read; and the read
that follows has to bring something. -/
def CutsOk : List (List Byte) → Nat → Nat → List Read → Prop
  | _, _, _, [] => True
  | [], _, _, _ :: _ => True
  | p :: ps, pos, j, r :: rs =>
      if pos < 4 then CutsOk (p :: ps) (pos + r.n) pos rs
      else
        (pos = 4 → headerWord p j r.junk = lenWord p ∧ 0 < r.n) ∧
          if pos + r.n = p.length then CutsOk ps 0 0 rs else CutsOk (p :: ps) (pos + r.n) j rs

/-- The buffer that a call of `read_packet_cb` handed over, unless it reported
an error. -/
def ReadPacketCall.block : ReadPacketCall → Option Nat
  | .packet buf _ => buf.base.map Ptr.block
  | .error _ => none

/-- The contents of the buffer the call handed over. -/
def ReadPacketCall.contents : ReadPacketCall → Option (List Byte)
  | .packet _ contents => contents
  | .error _ => none

/-- Every packet was delivered, in order, and every buffer that was allocated
was handed over. -/
structure Framed (h : Heap) (packets : List (List Byte)) (c : TcpClient) : Prop where
  calls : c.calls.map ReadPacketCall.contents = packets.map some
  blocks : ∀ b, h.blocks.length ≤ b → b < c.heap.blocks.length →
    ∃ call ∈ c.calls, call.block = some b

/-- The calls that deliver `packets`, each in a buffer of its own, the first
in buffer `b`. -/
def deliveries (b : Nat) : List (List Byte) → List ReadPacketCall
  | [] => []
  | p :: ps =>
      .packet { base := some ⟨b, 0⟩, len := BitVec.ofNat 64 p.length } (some p)
        :: deliveries (b + 1) ps

theorem deliveries_append (b : Nat) (ps qs : List (List Byte)) :
    deliveries b (ps ++ qs) = deliveries b ps ++ deliveries (b + ps.length) qs := by
  induction ps generalizing b with
  | nil => rfl
  | cons p ps ih =>
      simp only [List.cons_append, deliveries, ih, List.length_cons]
      rw [show b + 1 + ps.length = b + (ps.length + 1) by omega]

@[simp] theorem length_deliveries (b : Nat) (ps : List (List Byte)) :
    (deliveries b ps).length = ps.length := by
  induction ps generalizing b with
  | nil => rfl
  | cons p ps ih => simp [deliveries, ih]

theorem contents_deliveries (b : Nat) (ps : List (List Byte)) :
    (deliveries b ps).map ReadPacketCall.contents = ps.map some := by
  induction ps generalizing b with
  | nil => rfl
  | cons p ps ih => simp [deliveries, ih, ReadPacketCall.contents]

theorem block_deliveries {b : Nat} {ps : List (List Byte)} {k : Nat} :
    (∃ call ∈ deliveries b ps, call.block = some k) ↔ b ≤ k ∧ k < b + ps.length := by
  induction ps generalizing b with
  | nil => simp [deliveries]
  | cons p ps ih =>
      simp only [deliveries, List.mem_cons, exists_eq_or_imp, ih]
      simp only [ReadPacketCall.block, Option.map_some, Option.some.injEq, List.length_cons]
      omega

/-! ## Inside a packet -/

theorem IsPacket.toNat_lenWord {p : List Byte} (hp : IsPacket p) :
    (lenWord p).toNat = p.length := by
  have hhi := hp.hi
  have hmax : maxPacketLen < 2 ^ 31 := by decide
  rw [hp.len, BitVec.toNat_ofNat]
  exact Nat.mod_eq_of_lt (by omega)

theorem IsPacket.toInt_lenWord {p : List Byte} (hp : IsPacket p) :
    (lenWord p).toInt = p.length := by
  have hhi := hp.hi
  have hmax : maxPacketLen < 2 ^ 31 := by decide
  rw [BitVec.toInt_eq_toNat_of_lt (by rw [hp.toNat_lenWord]; omega), hp.toNat_lenWord]

theorem IsPacket.bytes_lenWord {p : List Byte} (hp : IsPacket p) :
    BigEndian.bytes 4 (lenWord p) = p.take 4 := by
  have := hp.lo
  rw [packetLenFieldSize] at this
  exact BigEndian.bytes_value (by rw [List.length_take]; omega)

/-- A length word that came in one read is read as it is. -/
theorem headerWord_zero {p : List Byte} (hp : IsPacket p) (junk : Int → Byte) :
    headerWord p 0 junk = lenWord p := by
  have hlo : 4 < p.length := hp.lo
  have htake : (Reader.beyond (p.take 4) junk).take 0 4 = some (p.take 4) := by
    apply Reader.take_beyond
    rw [Reader.take_within_zero _ (by rw [List.length_take]; omega), List.take_take]
    rfl
  rw [headerWord, wordAt, decodeInt32, decodeInt_value, List.drop_zero, htake]
  rfl

/-- `packet_len` is `PACKET_INVALID` only when its four bytes are all ones. -/
theorem packetLen_ne_invalid {t : ClientReadTmpBuf} (hlen : t.packetLenBytes.length = 4)
    (hne : t.packetLenBytes ≠ List.replicate 4 0xFF) : t.packetLen ≠ packetInvalid := by
  intro hinv
  apply hne
  have hbytes := BigEndian.bytes_value (n := 4) (l := t.packetLenBytes.reverse)
    (by rw [List.length_reverse, hlen])
  rw [show BigEndian.value (8 * 4) t.packetLenBytes.reverse = packetInvalid from hinv] at hbytes
  rw [← List.reverse_reverse t.packetLenBytes, ← hbytes]
  decide

theorem IsPacket.take_ne_ones {p : List Byte} (hp : IsPacket p) :
    p.take 4 ≠ List.replicate 4 0xFF := by
  intro heq
  have hone : lenWord p = packetInvalid := by
    rw [lenWord, heq]
    decide
  have := hp.toInt_lenWord
  rw [hone] at this
  have hneg : packetInvalid.toInt = -1 := by decide
  omega

theorem IsPacket.lenWord_ne_invalid {p : List Byte} (hp : IsPacket p) :
    lenWord p ≠ packetInvalid := by
  intro hone
  have := hp.toInt_lenWord
  rw [hone] at this
  have hneg : packetInvalid.toInt = -1 := by decide
  omega

/-- The packets `done` were delivered, and of the length word of the next one
`hdr` was received. -/
structure AtHeader (h : Heap) (done : List (List Byte)) (hdr : List Byte) (c : TcpClient) :
    Prop where
  calls : c.calls = deliveries h.blocks.length done
  blocks : c.heap.blocks.length = h.blocks.length + done.length
  tmp : c.recvTmpBuf =
    { packetLenBytes := hdr ++ List.replicate (4 - hdr.length) 0
      buf := { base := none, len := 0 }
      offset := hdr.length }

/-- The buffer for `p` is allocated and its first `pos` bytes are there. -/
structure Allocated (h : Heap) (done : List (List Byte)) (p : List Byte) (pos : Nat)
    (c : TcpClient) : Prop where
  calls : c.calls = deliveries h.blocks.length done
  heap : ∃ B : List (List (Option Byte)), B.length = h.blocks.length + done.length ∧
    c.heap = Heap.pending B (p.take pos) (p.length - pos)
  packetLen : c.recvTmpBuf.packetLen = lenWord p
  buf : c.recvTmpBuf.buf =
    { base := some ⟨h.blocks.length + done.length, 0⟩, len := BitVec.ofNat 64 p.length }

/-- The reading is within the body of the packet `p`, at its byte `pos`. -/
structure InBody (h : Heap) (done : List (List Byte)) (p : List Byte) (pos : Nat)
    (c : TcpClient) : Prop extends Allocated h done p pos c where
  offset : c.recvTmpBuf.offset = pos
  lo : 4 < pos
  hi : pos < p.length

theorem atHeader_start (h : Heap) : AtHeader h [] [] (.startRead h) :=
  ⟨rfl, by simp [TcpClient.startRead], rfl⟩

/-- A round that receives the length word, or a piece of it. -/
theorem round_header {h : Heap} {done : List (List Byte)} {hdr : List Byte} {s s' : Reading}
    {r : Read} (hs : AtHeader h done hdr s.client) (hlt : hdr.length < 4)
    (hok : hdr ++ s.stream.take r.n ≠ List.replicate 4 0xFF) (hr : s.round r = some s') :
    hdr.length + r.n ≤ 4 ∧ r.n ≤ s.stream.length ∧
      AtHeader h done (hdr ++ s.stream.take r.n) s'.client ∧ s'.stream = s.stream.drop r.n ∧
      (hdr.length + r.n = 4 → s'.held = some (.packetLen hdr.length)) := by
  have hoff : s.client.recvTmpBuf.offset = hdr.length := by rw [hs.tmp]
  obtain ⟨c, base, len, halloc, hcase⟩ := Reading.round_cases hr
  rcases TcpClient.allocCb_cases halloc with ⟨-, rfl, rfl, rfl⟩ | ⟨h4, -⟩ | ⟨h4, -⟩ | ⟨h4, -⟩
  rotate_left
  · omega
  · omega
  · omega
  rw [hoff] at hcase
  rcases hcase with ⟨h0, -⟩ | ⟨-, hn, hstream, c', hc', rfl⟩
  · omega
  have hgot : (s.stream.take r.n).length = r.n := by rw [List.length_take]; omega
  -- the bytes of the word that are not read yet are zero, so the word is the stream's, padded
  have hbytes : (hdr ++ List.replicate (4 - hdr.length) 0).take hdr.length ++ s.stream.take r.n
      ++ (hdr ++ List.replicate (4 - hdr.length) 0).drop (hdr.length + (s.stream.take r.n).length)
      = (hdr ++ s.stream.take r.n)
        ++ List.replicate (4 - (hdr ++ s.stream.take r.n).length) 0 := by
    rw [List.take_left, List.drop_append, List.drop_eq_nil_of_le (by omega), List.nil_append,
      List.drop_replicate, List.length_append, hgot]
    congr 2
    omega
  have hrecv : c' = { s.client with recvTmpBuf := { s.client.recvTmpBuf with
      packetLenBytes := (hdr ++ s.stream.take r.n)
        ++ List.replicate (4 - (hdr ++ s.stream.take r.n).length) 0 } } := by
    have := Option.some.inj hc'
    rw [← this, ← hbytes]
    simp only [hs.tmp]
  have hlen' : (hdr ++ s.stream.take r.n).length = hdr.length + r.n := by
    rw [List.length_append, hgot]
  -- the mark for an invalid packet is four bytes 0xFF, and the padding is none of them
  have hvalid : c'.recvTmpBuf.packetLen ≠ packetInvalid := by
    apply packetLen_ne_invalid
    · rw [hrecv]
      simp only [List.length_append, List.length_replicate, hgot]
      omega
    · rw [hrecv]
      intro hones
      by_cases hfull : hdr.length + r.n = 4
      · rw [hlen', hfull] at hones
        exact hok (by simpa using hones)
      · have hmem : (0 : Byte) ∈ List.replicate 4 (0xFF : Byte) := by
          rw [← hones]
          refine List.mem_append_right _ (List.mem_replicate.mpr ⟨by omega, rfl⟩)
        revert hmem
        decide
  have hcalls : c'.calls = deliveries h.blocks.length done := by rw [hrecv]; exact hs.calls
  have hblocks : c'.heap.blocks.length = h.blocks.length + done.length := by
    rw [hrecv]
    exact hs.blocks
  have hoff' : c'.recvTmpBuf.offset = hdr.length := by rw [hrecv]; exact hoff
  refine ⟨by omega, hstream, ?_, rfl, fun hfull => if_pos (by omega)⟩
  rcases c'.readCb_cases r.n with ⟨hinv, -⟩ | ⟨-, hneg, -⟩ | ⟨-, h0, heq⟩ |
    ⟨-, hpos, hdone, hlarge, -⟩ | ⟨-, hpos, -, heq⟩
  · exact absurd hinv hvalid
  · omega
  · rw [heq]
    refine ⟨hcalls, hblocks, ?_⟩
    rw [hrecv, hs.tmp, hlen', show r.n = 0 by omega]
    rfl
  · omega
  · rw [heq]
    refine ⟨hcalls, hblocks, ?_⟩
    rw [hrecv, hs.tmp, hlen']
    simp

/-- `pos` bytes of `p` are there: it is delivered, or the next read goes on. -/
def Progress (h : Heap) (done : List (List Byte)) (p : List Byte) (pos : Nat) (c : TcpClient) :
    Prop :=
  if pos = p.length then AtHeader h (done ++ [p]) [] c else InBody h done p pos c

/-- `read_cb` with `n` bytes of the body just received. -/
theorem readCb_body {h : Heap} {done : List (List Byte)} {p : List Byte} {pos n : Nat}
    {c : TcpClient} (hp : IsPacket p) (hc : Allocated h done p (pos + n) c)
    (hoff : c.recvTmpBuf.offset = pos) (hlo : 4 < pos + n) (hn : pos + n ≤ p.length)
    (h0 : n = 0 → pos ≠ p.length) : Progress h done p (pos + n) (c.readCb n) := by
  have hvalid : c.recvTmpBuf.packetLen ≠ packetInvalid := by
    rw [hc.packetLen]
    exact hp.lenWord_ne_invalid
  have hlen : c.recvTmpBuf.packetLen.toInt = p.length := by rw [hc.packetLen, hp.toInt_lenWord]
  rw [Progress]
  rcases c.readCb_cases n with ⟨hinv, -⟩ | ⟨-, hneg, -⟩ | ⟨-, hz, heq⟩ |
    ⟨-, hpos, hdone, -, heq⟩ | ⟨-, hpos, hdone, heq⟩
  · exact absurd hinv hvalid
  · omega
  · have hz : n = 0 := by omega
    have := h0 hz
    rw [if_neg (by omega), heq]
    exact ⟨hc, by omega, hlo, by omega⟩
  -- the packet is complete: its block is read as a whole and given to the handler
  · rw [hlen, hoff] at hdone
    obtain ⟨B, hB, hheap⟩ := hc.heap
    have hblk : c.heap.blocks[B.length]? = some (p.map some) := by
      rw [hheap, show p.length - (pos + n) = 0 by omega, Heap.pending_zero,
        List.take_of_length_le (by omega)]
      simp
    have hload := Heap.loadBytes_of_block hblk 0 p.length (by omega)
    have hhi := hp.hi
    have hmax : maxPacketLen < 2 ^ 31 := by decide
    rw [if_pos (by omega), heq]
    refine ⟨?_, ?_, rfl⟩
    · rw [deliveries_append, hc.calls, hc.buf]
      simp only [deliveries, Option.bind_some, BitVec.toNat_ofNat]
      rw [Nat.mod_eq_of_lt (show p.length < 2 ^ 64 by omega), ← hB]
      simpa using hload
    · rw [hheap]
      simp only [Heap.pending, List.length_append, List.length_singleton]
      omega
  · rw [hlen, hoff] at hdone
    have hlo' := hp.lo
    rw [packetLenFieldSize] at hlo'
    rw [if_neg (by omega), heq]
    exact ⟨⟨hc.calls, hc.heap, hc.packetLen, hc.buf⟩, by simp [hoff], hlo, by omega⟩

/-- A round inside the body takes no byte beyond the packet, and hands it over
when it is complete. -/
theorem round_body {h : Heap} {done : List (List Byte)} {p rest : List Byte} {pos : Nat}
    {s s' : Reading} {r : Read} (hp : IsPacket p) (hs : InBody h done p pos s.client)
    (hstream : s.stream = p.drop pos ++ rest) (hr : s.round r = some s') :
    pos + r.n ≤ p.length ∧ Progress h done p (pos + r.n) s'.client ∧
      s'.stream = p.drop (pos + r.n) ++ rest := by
  have hlo := hs.lo
  have hhi := hs.hi
  have hoff := hs.offset
  obtain ⟨c, base, len, halloc, hcase⟩ := Reading.round_cases hr
  rcases TcpClient.allocCb_cases halloc with ⟨h4, -⟩ | ⟨h4, -⟩ | ⟨h4, -⟩ |
    ⟨-, rfl, q, hq, rfl, hlen⟩
  · omega
  · omega
  · omega
  rw [hs.packetLen, hp.toInt_lenWord, hoff] at hlen
  rw [hs.buf, Option.some.injEq] at hq
  rcases hcase with ⟨h0, -⟩ | ⟨-, hn, hle, c', hc', rfl⟩
  · omega
  have hpos : pos + r.n ≤ p.length := by omega
  have htake : s.stream.take r.n = (p.drop pos).take r.n := by
    rw [hstream, List.take_append_of_le_length (by rw [List.length_drop]; omega)]
  have hgot : ((p.drop pos).take r.n).length = r.n := by
    rw [List.length_take, List.length_drop]
    omega
  obtain ⟨B, hB, hheap⟩ := hs.heap
  have hstore := Heap.storeBytes_pending B (p.take pos) ((p.drop pos).take r.n)
    (p.length - (pos + r.n))
  rw [hgot, show r.n + (p.length - (pos + r.n)) = p.length - pos by omega, ← List.take_add,
    List.length_take, Nat.min_eq_left (by omega), hB] at hstore
  have hrecv : c' = { s.client with
      heap := Heap.pending B (p.take (pos + r.n)) (p.length - (pos + r.n)) } := by
    rw [TcpClient.receive, htake, hheap, ← hq, hoff] at hc'
    rw [show (⟨h.blocks.length + done.length, 0⟩ : Ptr).add pos
        = ⟨h.blocks.length + done.length, pos⟩ by simp [Ptr.add], hstore] at hc'
    exact (Option.some.inj hc').symm
  refine ⟨hpos, ?_, ?_⟩
  · apply readCb_body hp _ _ (by omega) hpos (by omega)
    · rw [hrecv]
      exact ⟨hs.calls, ⟨B, hB, rfl⟩, hs.packetLen, hs.buf⟩
    · rw [hrecv]
      exact hoff
  · simp only [hstream]
    rw [List.drop_append_of_le_length (by rw [List.length_drop]; omega), List.drop_drop]

/-- The word the program finds under `buf->base` once the length word is
complete. -/
theorem heldWord_header {h : Heap} {done : List (List Byte)} {p : List Byte} {s : Reading}
    {j : Nat} (hp : IsPacket p) (hs : AtHeader h done (p.take 4) s.client)
    (hheld : s.held = some (.packetLen j)) (junk : Int → Byte) :
    s.heldWord junk = headerWord p j junk := by
  have hlo : 4 < p.length := hp.lo
  have hbytes : s.client.recvTmpBuf.packetLenBytes = p.take 4 := by
    rw [hs.tmp, List.length_take, Nat.min_eq_left (by omega)]
    simp
  rw [Reading.heldWord, hheld]
  simp only [hbytes, headerWord]

theorem AtHeader.offset_four {h : Heap} {done : List (List Byte)} {p : List Byte}
    {c : TcpClient} (hc : AtHeader h done (p.take 4) c) (hp : IsPacket p) :
    c.recvTmpBuf.offset = 4 := by
  have hlo : 4 < p.length := hp.lo
  simp only [hc.tmp, List.length_take]
  omega

/-- The round that allocates the body, with the length word read, begins to fill
it. -/
theorem round_alloc {h : Heap} {done : List (List Byte)} {p rest : List Byte} {s s' : Reading}
    {r : Read} (hp : IsPacket p) (hs : AtHeader h done (p.take 4) s.client)
    (hstream : s.stream = p.drop 4 ++ rest) (hword : s.heldWord r.junk = lenWord p)
    (hpos : 0 < r.n) (hr : s.round r = some s') :
    4 + r.n ≤ p.length ∧ Progress h done p (4 + r.n) s'.client ∧
      s'.stream = p.drop (4 + r.n) ++ rest := by
  have hlo : 4 < p.length := hp.lo
  have hhi := hp.hi
  have hmax : maxPacketLen < 2 ^ 31 := by decide
  have hoff := hs.offset_four hp
  obtain ⟨c, base, len, halloc, hcase⟩ := Reading.round_cases hr
  rw [hword] at halloc
  rcases TcpClient.allocCb_cases halloc with ⟨h4, -⟩ | ⟨-, hbad, -⟩ |
    ⟨-, -, -, hc, rfl, hlen⟩ | ⟨h4, -⟩
  · omega
  · rw [hp.toInt_lenWord] at hbad
    omega
  · rw [hp.toNat_lenWord] at hlen
    rcases hcase with ⟨h0, -⟩ | ⟨-, hn, hle, c', hc', rfl⟩
    · omega
    have htake : s.stream.take r.n = (p.drop 4).take r.n := by
      rw [hstream, List.take_append_of_le_length (by rw [List.length_drop]; omega)]
    have hgot : ((p.drop 4).take r.n).length = r.n := by
      rw [List.length_take, List.length_drop]
      omega
    have hstore := Heap.storeBytes_pending s.client.heap.blocks (p.take 4) ((p.drop 4).take r.n)
      (p.length - (4 + r.n))
    rw [hgot, show r.n + (p.length - (4 + r.n)) = p.length - 4 by omega, ← List.take_add,
      List.length_take, Nat.min_eq_left (by omega)] at hstore
    rw [hp.toNat_lenWord, hp.bytes_lenWord] at hc
    have hrecv : c' = { c with
        heap := Heap.pending s.client.heap.blocks (p.take (4 + r.n)) (p.length - (4 + r.n)) } := by
      rw [TcpClient.receive, htake, hc] at hc'
      dsimp only at hc'
      rw [show (⟨s.client.heap.blocks.length, 4⟩ : Ptr)
        = ⟨s.client.heap.blocks.length, ((4 : Nat) : Int)⟩ from rfl, hstore] at hc'
      rw [hc]
      exact (Option.some.inj hc').symm
    refine ⟨by omega, ?_, ?_⟩
    · apply readCb_body hp _ _ (by omega) (by omega) (by omega)
      · rw [hrecv, hc]
        refine ⟨hs.calls, ⟨_, hs.blocks, rfl⟩, ?_, ?_⟩
        · exact s.client.recvTmpBuf.packetLen_setPacketLen (lenWord p)
        · simp only [hs.blocks, UvBuf.mk.injEq, true_and]
          apply BitVec.eq_of_toNat_eq
          rw [BitVec.signExtend_eq_setWidth_of_msb_false, BitVec.toNat_setWidth, hp.toNat_lenWord,
            BitVec.toNat_ofNat]
          rw [BitVec.msb_eq_decide, hp.toNat_lenWord, decide_eq_false_iff_not]
          omega
      · rw [hrecv, hc]
        exact hoff
    · simp only [hstream]
      rw [List.drop_append_of_le_length (by rw [List.length_drop]; omega), List.drop_drop]
  · omega

/-! ## Beyond repair -/

/-- Buffer `b` is allocated, was not handed over, and nobody knows it. -/
structure Leaked (b : Nat) (c : TcpClient) : Prop where
  block : b < c.heap.blocks.length
  calls : ∀ call ∈ c.calls, call.block ≠ some b
  buf : c.recvTmpBuf.buf.base.map Ptr.block ≠ some b

/-- The framing has lost `p`, and what follows cannot change that. -/
inductive Doomed (h : Heap) (done : List (List Byte)) (p : List Byte) (c : TcpClient) : Prop where
  /-- a call was made in its place -/
  | called (call : ReadPacketCall) (hcall : c.calls[done.length]? = some call)
      (hne : call.contents ≠ some p)
  /-- a buffer of another length is being filled for it -/
  | misread (hcalls : c.calls = deliveries h.blocks.length done)
      (hoff : 4 < c.recvTmpBuf.offset) (hlo : 4 < c.recvTmpBuf.packetLen.toInt)
      (hbuf : c.recvTmpBuf.buf = { base := some ⟨h.blocks.length + done.length, 0⟩
                                   len := c.recvTmpBuf.packetLen.signExtend 64 })
      (hne : c.recvTmpBuf.packetLen.toInt ≠ p.length)
  /-- its buffer is allocated, and the next is about to be -/
  | twice (hcalls : c.calls = deliveries h.blocks.length done) (hoff : c.recvTmpBuf.offset = 4)
      (hblock : h.blocks.length + done.length < c.heap.blocks.length)
  /-- its buffer is forgotten -/
  | leaked (hleak : Leaked (h.blocks.length + done.length) c)

/-- No list of packets that has `p` at this place is delivered any more. -/
theorem Doomed.not_framed {h : Heap} {done ps : List (List Byte)} {p : List Byte}
    {c : TcpClient} (hd : Doomed h done p c) : ¬ Framed h (done ++ p :: ps) c := by
  intro hf
  have hlen := congrArg List.length hf.calls
  simp only [List.length_map, List.length_append, List.length_cons] at hlen
  cases hd with
  | called call hcall hne =>
      have hat := congrArg (fun l => l[done.length]?) hf.calls
      simp only [List.getElem?_map, hcall, Option.map_some,
        List.getElem?_append_right (Nat.le_refl _), Nat.sub_self, List.getElem?_cons_zero,
        Option.some.injEq] at hat
      exact hne hat
  | misread hcalls =>
      rw [hcalls, length_deliveries] at hlen
      omega
  | twice hcalls =>
      rw [hcalls, length_deliveries] at hlen
      omega
  | leaked hleak =>
      obtain ⟨call, hmem, hb⟩ := hf.blocks _ (by omega) hleak.block
      exact hleak.calls call hmem hb

/-- Receiving changes bytes, and nothing else that matters here. -/
theorem TcpClient.receive_keeps {c c' : TcpClient} {base : ReadBase} {bytes : List Byte}
    (h : c.receive base bytes = some c') :
    c'.calls = c.calls ∧ c'.heap.blocks.length = c.heap.blocks.length ∧
      c'.recvTmpBuf.buf = c.recvTmpBuf.buf ∧ c'.recvTmpBuf.offset = c.recvTmpBuf.offset ∧
      ((∀ j, base ≠ .packetLen j) → c'.recvTmpBuf = c.recvTmpBuf) := by
  cases base with
  | packetLen j =>
      obtain rfl := Option.some.inj h
      exact ⟨rfl, rfl, rfl, rfl, fun hne => absurd rfl (hne j)⟩
  | body p =>
      obtain ⟨hp, hstore, heq⟩ := Option.bind_eq_some_iff.mp h
      obtain rfl := Option.some.inj heq
      exact ⟨rfl, Heap.length_storeBytes hstore, rfl, rfl, fun _ => rfl⟩
  | null => cases h

theorem TcpClient.readCb_calls (c : TcpClient) (nread : Int) :
    ∃ l, (c.readCb nread).calls = c.calls ++ l := by
  rcases c.readCb_cases nread with ⟨-, heq⟩ | ⟨-, -, heq⟩ | ⟨-, -, heq⟩ | ⟨-, -, -, -, heq⟩ |
    ⟨-, -, -, heq⟩ <;> rw [heq]
  · exact ⟨_, rfl⟩
  · exact ⟨_, rfl⟩
  · exact ⟨[], by simp⟩
  · exact ⟨_, rfl⟩
  · exact ⟨[], by simp⟩

theorem TcpClient.allocCb_calls {c c' : TcpClient} {word : BitVec 32} {base : ReadBase}
    {len : Nat} (h : c.allocCb word = some (c', base, len)) : c'.calls = c.calls := by
  rcases allocCb_cases h with ⟨-, rfl, -⟩ | ⟨-, -, rfl, -⟩ | ⟨-, -, -, rfl, -⟩ | ⟨-, rfl, -⟩ <;> rfl

/-- A round only adds calls of `read_packet_cb` to those made before. -/
theorem round_calls {s s' : Reading} {r : Read} (hr : s.round r = some s') :
    ∃ l, s'.client.calls = s.client.calls ++ l := by
  obtain ⟨c, base, len, halloc, hcase⟩ := Reading.round_cases hr
  rw [← TcpClient.allocCb_calls halloc]
  rcases hcase with ⟨-, -, rfl⟩ | ⟨-, -, -, c', hc', rfl⟩
  · exact c.readCb_calls _
  · rw [← (TcpClient.receive_keeps hc').1]
    exact c'.readCb_calls _

theorem Leaked.readCb {b : Nat} {c : TcpClient} (hc : Leaked b c) (nread : Int) :
    Leaked b (c.readCb nread) := by
  have herror : ∀ status, ∀ call ∈ c.calls ++ [.error status], call.block ≠ some b := by
    intro status call hmem
    rcases List.mem_append.mp hmem with hmem | hmem
    · exact hc.calls call hmem
    · obtain rfl := List.mem_singleton.mp hmem
      simp [ReadPacketCall.block]
  have hnone : ClientReadTmpBuf.init.buf.base.map Ptr.block ≠ some b := by
    simp [ClientReadTmpBuf.init]
  rcases c.readCb_cases nread with ⟨-, heq⟩ | ⟨-, -, heq⟩ | ⟨-, -, heq⟩ | ⟨-, -, -, -, heq⟩ |
    ⟨-, -, -, heq⟩ <;> rw [heq]
  · exact ⟨hc.block, herror _, hc.buf⟩
  · exact ⟨hc.block, herror _, hnone⟩
  · exact hc
  · refine ⟨hc.block, fun call hmem => ?_, hnone⟩
    rcases List.mem_append.mp hmem with hmem | hmem
    · exact hc.calls call hmem
    · obtain rfl := List.mem_singleton.mp hmem
      exact hc.buf
  · exact ⟨hc.block, hc.calls, hc.buf⟩

theorem Leaked.receive {b : Nat} {c c' : TcpClient} {base : ReadBase} {bytes : List Byte}
    (hc : Leaked b c) (h : c.receive base bytes = some c') : Leaked b c' := by
  obtain ⟨hcalls, hblocks, hbuf, -, -⟩ := TcpClient.receive_keeps h
  exact ⟨hblocks ▸ hc.block, hcalls ▸ hc.calls, hbuf ▸ hc.buf⟩

/-- A buffer that was lost stays lost: those that `alloc_cb` allocates are new
ones. -/
theorem Leaked.allocCb {b : Nat} {c c' : TcpClient} {word : BitVec 32} {base : ReadBase}
    {len : Nat} (hc : Leaked b c) (h : c.allocCb word = some (c', base, len)) : Leaked b c' := by
  rcases TcpClient.allocCb_cases h with ⟨-, rfl, -⟩ | ⟨-, -, rfl, -⟩ | ⟨-, -, -, rfl, -⟩ |
    ⟨-, rfl, -⟩
  · exact hc
  · exact ⟨hc.block, hc.calls, hc.buf⟩
  · have hlt := hc.block
    refine ⟨?_, hc.calls, ?_⟩
    · simp only [Heap.pending, List.length_append, List.length_singleton]
      omega
    · simp only [Option.map_some, ne_eq, Option.some.injEq]
      omega
  · exact hc

/-- After an error the broken packet is not delivered any more. -/
theorem Doomed.error {h : Heap} {done : List (List Byte)} {p : List Byte} {c : TcpClient}
    {r : Int} (hcalls : c.calls = deliveries h.blocks.length done ++ [.error r]) :
    Doomed h done p c := by
  apply Doomed.called (.error r)
  · rw [hcalls, List.getElem?_append_right (by rw [length_deliveries])]
    simp
  · simp [ReadPacketCall.contents]

/-- `read_cb` in a region of length 0 ends in an error. -/
theorem readCb_enobufs {h : Heap} {done : List (List Byte)} {p : List Byte} {c : TcpClient}
    (hcalls : c.calls = deliveries h.blocks.length done) : Doomed h done p (c.readCb uvEnobufs) := by
  rcases c.readCb_cases uvEnobufs with ⟨-, heq⟩ | ⟨-, -, heq⟩ | ⟨-, h0, -⟩ | ⟨-, h0, -⟩ |
    ⟨-, h0, -⟩
  · rw [heq]
    exact Doomed.error (r := dvrRecvInvalidPacketError) (by simp only [hcalls])
  · rw [heq]
    exact Doomed.error (r := uvEnobufs) (by simp only [hcalls])
  · cases h0
  · cases h0
  · cases h0

/-- `read_cb` while a buffer of another length is filled for `p`. -/
theorem readCb_misread {h : Heap} {done : List (List Byte)} {p : List Byte} {c : TcpClient}
    {n : Nat} (hcalls : c.calls = deliveries h.blocks.length done)
    (hoff : 4 < c.recvTmpBuf.offset + n) (hlo : 4 < c.recvTmpBuf.packetLen.toInt)
    (hbuf : c.recvTmpBuf.buf = { base := some ⟨h.blocks.length + done.length, 0⟩
                                 len := c.recvTmpBuf.packetLen.signExtend 64 })
    (hne : c.recvTmpBuf.packetLen.toInt ≠ p.length) : Doomed h done p (c.readCb n) := by
  rcases c.readCb_cases n with ⟨hinv, -⟩ | ⟨-, hneg, -⟩ | ⟨-, h0, heq⟩ | ⟨-, -, -, -, heq⟩ |
    ⟨-, -, -, heq⟩
  · rw [hinv] at hlo
    exact absurd hlo (by decide)
  · omega
  · rw [heq]
    exact Doomed.misread hcalls (by omega) hlo hbuf hne
  · rw [heq]
    apply Doomed.called
    · simp only [hcalls]
      rw [List.getElem?_append_right (by rw [length_deliveries])]
      simp only [length_deliveries, Nat.sub_self, List.getElem?_cons_zero]
      rfl
    · intro hload
      simp only [ReadPacketCall.contents, hbuf, Option.bind_some] at hload
      have hlen := Heap.length_loadBytes hload
      have hmsb : c.recvTmpBuf.packetLen.msb = false := by
        rw [BitVec.msb_eq_toInt]
        simp only [decide_eq_false_iff_not]
        omega
      rw [BitVec.signExtend_eq_setWidth_of_msb_false hmsb, BitVec.toNat_setWidth] at hlen
      rw [BitVec.toInt_eq_toNat_of_msb hmsb] at hne
      have := c.recvTmpBuf.packetLen.isLt
      rw [Nat.mod_eq_of_lt (by omega)] at hlen
      omega
  · rw [heq]
    exact Doomed.misread hcalls (by simpa using hoff) hlo hbuf hne

/-- The buffer just allocated is a new one, so the last one is forgotten. -/
theorem Doomed.round {h : Heap} {done : List (List Byte)} {p : List Byte} {s s' : Reading}
    {r : Read} (hd : Doomed h done p s.client) (hr : s.round r = some s') :
    Doomed h done p s'.client := by
  have hround := hr
  obtain ⟨c, base, len, halloc, hcase⟩ := Reading.round_cases hr
  have hkeep := TcpClient.allocCb_calls halloc
  cases hd with
  | called call hcall hne =>
      obtain ⟨l, hl⟩ := round_calls hround
      apply Doomed.called call _ hne
      rw [hl, List.getElem?_append_left (List.getElem?_eq_some_iff.mp hcall).1]
      exact hcall
  --  leaked hleak =>|a block that nothing points to stays so
  | leaked hleak =>
      have hc := hleak.allocCb halloc
      rcases hcase with ⟨-, -, rfl⟩ | ⟨-, -, -, c', hc', rfl⟩
      · exact Doomed.leaked (hc.readCb _)
      · exact Doomed.leaked ((hc.receive hc').readCb _)
  --  misread hcalls hoff hlo hbuf hne =>|the rest of the packet is read up to another length
  | misread hcalls hoff hlo hbuf hne =>
      rcases TcpClient.allocCb_cases halloc with ⟨h4, -⟩ | ⟨h4, -⟩ | ⟨h4, -⟩ |
        ⟨-, rfl, q, -, rfl, -⟩
      · omega
      · omega
      · omega
      · rcases hcase with ⟨-, -, rfl⟩ | ⟨-, -, -, c', hc', rfl⟩
        · exact readCb_enobufs hcalls
        · obtain ⟨hcalls', -, -, -, htmp⟩ := TcpClient.receive_keeps hc'
          have htmp := htmp (by simp)
          apply readCb_misread
          · rw [hcalls', hcalls]
          · rw [htmp]
            omega
          · rw [htmp]
            exact hlo
          · rw [htmp]
            exact hbuf
          · rw [htmp]
            exact hne
  --  twice hcalls hoff hblock =>|alloc_cb runs again at offset 4, so the first block is lost
  | twice hcalls hoff hblock =>
      rcases TcpClient.allocCb_cases halloc with ⟨h4, -⟩ | ⟨-, -, -, -, h0⟩ |
        ⟨-, -, -, hc, -⟩ | ⟨h4, -⟩
      · omega
      · rcases hcase with ⟨-, -, rfl⟩ | ⟨hpos, -⟩
        · exact readCb_enobufs (hkeep.trans hcalls)
        · exact absurd h0 hpos
      · have hleak : Leaked (h.blocks.length + done.length) c := by
          refine ⟨?_, ?_, ?_⟩
          · simp only [hc, Heap.pending, List.length_append, List.length_singleton]
            omega
          · intro call hmem hb
            rw [hkeep, hcalls] at hmem
            have := block_deliveries.mp ⟨call, hmem, hb⟩
            omega
          · simp only [hc, Option.map_some, ne_eq, Option.some.injEq]
            omega
        rcases hcase with ⟨-, -, rfl⟩ | ⟨-, -, -, c', hc', rfl⟩
        · exact Doomed.leaked (hleak.readCb _)
        · exact Doomed.leaked ((hleak.receive hc').readCb _)
      · omega

/-- The length word is misread, or the body is asked for twice. -/
theorem round_misalloc {h : Heap} {done : List (List Byte)} {p : List Byte} {s s' : Reading}
    {r : Read} (hp : IsPacket p) (hs : AtHeader h done (p.take 4) s.client)
    (hbad : ¬ (s.heldWord r.junk = lenWord p ∧ 0 < r.n)) (hr : s.round r = some s') :
    Doomed h done p s'.client := by
  have hoff := hs.offset_four hp
  obtain ⟨c, base, len, halloc, hcase⟩ := Reading.round_cases hr
  have hkeep := (TcpClient.allocCb_calls halloc).trans hs.calls
  rcases TcpClient.allocCb_cases halloc with ⟨h4, -⟩ | ⟨-, -, -, -, h0⟩ |
    ⟨-, hlo, -, hc, rfl, -⟩ | ⟨h4, -⟩
  · omega
  · rcases hcase with ⟨-, -, rfl⟩ | ⟨hpos, -⟩
    · exact readCb_enobufs hkeep
    · exact absurd h0 hpos
  · rcases hcase with ⟨-, -, rfl⟩ | ⟨-, -, -, c', hc', rfl⟩
    · exact readCb_enobufs hkeep
    · obtain ⟨hcalls', hblocks', -, -, htmp⟩ := TcpClient.receive_keeps hc'
      have htmp := htmp (by simp)
      have hlen : c'.recvTmpBuf.packetLen = s.heldWord r.junk := by
        rw [htmp, hc]
        exact s.client.recvTmpBuf.packetLen_setPacketLen _
      have hoff' : c'.recvTmpBuf.offset = 4 := by rw [htmp, hc]; exact hoff
      -- without bytes the offset stays at 4; else the length word differs from the packet's
      by_cases hn : r.n = 0
      · rcases c'.readCb_cases r.n with ⟨hinv, -⟩ | ⟨-, hneg, -⟩ | ⟨-, -, heq⟩ | ⟨-, hpos, -⟩ |
          ⟨-, hpos, -⟩
        · rw [hlen] at hinv
          rw [hinv] at hlo
          exact absurd hlo (by decide)
        · omega
        · change Doomed h done p (c'.readCb r.n)
          rw [heq]
          apply Doomed.twice (hcalls'.trans hkeep) hoff'
          have hblocks := hs.blocks
          rw [hblocks', hc]
          simp only [Heap.pending, List.length_append, List.length_singleton]
          omega
        · omega
        · omega
      · apply readCb_misread (hcalls'.trans hkeep)
        · omega
        · rw [hlen]
          exact hlo
        · rw [hlen, htmp, hc]
          simp only [hs.blocks]
        · rw [hlen, ← hp.toInt_lenWord]
          intro heq
          exact hbad ⟨BitVec.eq_of_toInt_eq heq, by omega⟩
  · omega

/-! ## Whole streams -/

/-- The packets `done` were delivered, `pos` bytes of the first of `packets`
were read, and the rest of `packets` is all there is to be read. -/
def OnTrack (h : Heap) (done packets : List (List Byte)) (pos j : Nat) (s : Reading) : Prop :=
  match packets with
  | [] => AtHeader h done [] s.client ∧ s.stream = [] ∧ pos = 0
  | p :: ps => s.stream = p.drop pos ++ ps.flatten ∧
      ((pos ≤ 4 ∧ AtHeader h done (p.take pos) s.client ∧
          (pos = 4 → s.held = some (.packetLen j))) ∨
        InBody h done p pos s.client)

/-- When a packet has been handed over, the reading is at the beginning of the
next one. -/
theorem OnTrack.next {h : Heap} {done ps : List (List Byte)} {p : List Byte} {s : Reading}
    (hs : AtHeader h (done ++ [p]) [] s.client) (hstream : s.stream = ps.flatten) (j : Nat) :
    OnTrack h (done ++ [p]) ps 0 j s := by
  cases ps with
  | nil => exact ⟨hs, hstream, rfl⟩
  | cons q qs =>
      exact ⟨by simpa using hstream, Or.inl ⟨by omega, by simpa using hs, by omega⟩⟩

/-- From a round in which bytes of the body came. -/
theorem OnTrack.progress {h : Heap} {done ps : List (List Byte)} {p : List Byte} {pos j : Nat}
    {s : Reading} (hprog : Progress h done p pos s.client)
    (hstream : s.stream = p.drop pos ++ ps.flatten) :
    (pos = p.length → OnTrack h (done ++ [p]) ps 0 0 s) ∧
      (pos ≠ p.length → OnTrack h done (p :: ps) pos j s) := by
  rw [Progress] at hprog
  constructor
  · intro heq
    rw [if_pos heq] at hprog
    rw [heq, List.drop_length, List.nil_append] at hstream
    exact OnTrack.next hprog hstream 0
  · intro hne
    rw [if_neg hne] at hprog
    exact ⟨hstream, Or.inr hprog⟩

theorem doomed_rounds {h : Heap} {done : List (List Byte)} {p : List Byte} {s s' : Reading}
    {rs : List Read} (hd : Doomed h done p s.client) (hr : s.rounds rs = some s') :
    Doomed h done p s'.client := by
  induction rs generalizing s with
  | nil =>
      obtain rfl := Option.some.inj hr
      exact hd
  | cons r rs ih =>
      obtain ⟨s₁, h₁, hr⟩ := Option.bind_eq_some_iff.mp hr
      exact ih (hd.round h₁) hr

/-- From any point between two rounds: what is left is delivered if and only
if the cuts allow it. -/
theorem framed_iff_cutsOk {h : Heap} {done packets : List (List Byte)} {pos j : Nat}
    {s s' : Reading} {rs : List Read} (hpk : ∀ p ∈ packets, IsPacket p)
    (hs : OnTrack h done packets pos j s) (hr : s.rounds rs = some s') (hend : s'.stream = []) :
    Framed h (done ++ packets) s'.client ↔ CutsOk packets pos j rs := by
  induction rs generalizing s done packets pos j with
  | nil =>
      obtain rfl := Option.some.inj hr
      cases packets with
      | nil =>
          obtain ⟨hc, -, -⟩ := hs
          refine ⟨fun _ => trivial, fun _ => ⟨?_, fun b hlo hhi => ?_⟩⟩
          · rw [hc.calls, contents_deliveries, List.append_nil]
          · rw [hc.calls, block_deliveries]
            exact ⟨hlo, hc.blocks ▸ hhi⟩
      | cons p ps =>
          -- the stream is not at its end
          exfalso
          obtain ⟨hstream, hs⟩ := hs
          have hlo : 4 < p.length := (hpk p (List.mem_cons_self ..)).lo
          have hlen := congrArg List.length hstream
          rw [hend, List.length_nil, List.length_append, List.length_drop] at hlen
          rcases hs with ⟨hpos, -⟩ | hbody
          · omega
          · have := hbody.hi
            omega
  | cons r rs ih =>
      obtain ⟨s₁, h₁, hr⟩ := Option.bind_eq_some_iff.mp hr
      cases packets with
      | nil =>
          -- nothing is left to be read: the round reads nothing
          obtain ⟨hc, hstream, rfl⟩ := hs
          have hok : [] ++ s.stream.take r.n ≠ List.replicate 4 (0xFF : Byte) := by simp [hstream]
          obtain ⟨-, hn, hc', hstream', -⟩ := round_header hc (by simp) hok h₁
          rw [hstream, List.length_nil] at hn
          rw [hstream, show r.n = 0 by omega] at hc' hstream'
          have hnext : OnTrack h done [] 0 j s₁ := ⟨by simpa using hc', hstream', rfl⟩
          rw [ih hpk hnext hr]
          rw [show CutsOk [] 0 j (r :: rs) = True from rfl, iff_true]
          cases rs <;> trivial
      | cons p ps =>
          have hp := hpk p (List.mem_cons_self ..)
          have hps : ∀ q ∈ ps, IsPacket q := fun q hq => hpk q (List.mem_cons_of_mem _ hq)
          have hlo : 4 < p.length := hp.lo
          obtain ⟨hstream, hs⟩ := hs
          have hbody : 4 ≤ pos → (pos = 4 → headerWord p j r.junk = lenWord p ∧ 0 < r.n) →
              Progress h done p (pos + r.n) s₁.client →
              s₁.stream = p.drop (pos + r.n) ++ ps.flatten →
              (Framed h (done ++ p :: ps) s'.client ↔ CutsOk (p :: ps) pos j (r :: rs)) := by
            intro hge hcond hprog hstream₁
            obtain ⟨hdone, hmore⟩ := OnTrack.progress (j := j) hprog hstream₁
            rw [CutsOk, if_neg (by omega), and_iff_right hcond]
            by_cases heq : pos + r.n = p.length
            · rw [if_pos heq, ← ih hps (hdone heq) hr, List.append_assoc, List.singleton_append]
            · rw [if_neg heq, ← ih hpk (hmore heq) hr]
          rcases hs with ⟨hle, hc, hheld⟩ | hc
          · by_cases hlt : pos < 4
            · have hlen : (p.take pos).length = pos := by rw [List.length_take]; omega
              have hgot : p.take pos ++ s.stream.take r.n = (p ++ ps.flatten).take (pos + r.n) := by
                rw [List.take_add, List.take_append_of_le_length (by omega),
                  List.drop_append_of_le_length (by omega), hstream]
              have hok : p.take pos ++ s.stream.take r.n ≠ List.replicate 4 (0xFF : Byte) := by
                intro heq
                have hfour := congrArg List.length heq
                rw [hgot, List.length_take, List.length_replicate] at hfour
                rw [hgot, show pos + r.n = 4 by
                  rw [List.length_append] at hfour
                  omega, List.take_append_of_le_length (by omega)] at heq
                exact hp.take_ne_ones heq
              obtain ⟨hn, -, hc', hstream', hheld'⟩ :=
                round_header hc (by omega) hok h₁
              rw [hlen] at hn hheld'
              rw [hgot, List.take_append_of_le_length (by omega)] at hc'
              rw [hstream, List.drop_append_of_le_length (by rw [List.length_drop]; omega),
                List.drop_drop] at hstream'
              rw [CutsOk, if_pos hlt]
              exact ih hpk ⟨hstream', Or.inl ⟨hn, hc', hheld'⟩⟩ hr
            · have hpos : pos = 4 := by omega
              subst hpos
              by_cases hgood : s.heldWord r.junk = lenWord p ∧ 0 < r.n
              · obtain ⟨-, hprog, hstream₁⟩ := round_alloc hp hc hstream hgood.1 hgood.2 h₁
                rw [heldWord_header hp hc (hheld rfl)] at hgood
                exact hbody (by omega) (fun _ => hgood) hprog hstream₁
              · have hdoom := doomed_rounds (round_misalloc hp hc hgood h₁) hr
                rw [heldWord_header hp hc (hheld rfl)] at hgood
                rw [CutsOk, if_neg (by omega)]
                exact ⟨fun hf => absurd hf hdoom.not_framed,
                  fun hcut => absurd (hcut.1 rfl) hgood⟩
          · obtain ⟨-, hprog, hstream₁⟩ := round_body hp hc hstream h₁
            have hge := hc.lo
            exact hbody (by omega) (by omega) hprog hstream₁

/-- **Framing and cuts.** Of a stream that is the packets one after another,
read to its end in whatever pieces, exactly the packets are delivered, each in
a buffer of its own and no buffer besides, if and only if the pieces are cut
so. -/
theorem framing_iff (h : Heap) {packets : List (List Byte)} (hpk : ∀ p ∈ packets, IsPacket p)
    (rs : List Read) {s : Reading}
    (hr : (Reading.start h packets.flatten).rounds rs = some s) (hend : s.stream = []) :
    Framed h packets s.client ↔ CutsOk packets 0 0 rs := by
  have hstart : OnTrack h [] packets 0 0 (Reading.start h packets.flatten) := by
    cases packets with
    | nil => exact ⟨atHeader_start h, rfl, rfl⟩
    | cons p ps => exact ⟨by simp [Reading.start], Or.inl ⟨by omega, atHeader_start h, by omega⟩⟩
  exact framed_iff_cutsOk hpk hstart hr hend

/-- What a run leaves, seen from outside: the rest of the stream, the calls made
and the number of buffers. -/
theorem rounds_view {s : Reading} {r : List Read} {l : List Byte} {c : List ReadPacketCall}
    {n : Nat}
    (hv : (s.rounds r).map (fun t => (t.stream, t.client.calls, t.client.heap.blocks.length))
      = some (l, c, n)) :
    ∃ t, s.rounds r = some t ∧ t.stream = l ∧ t.client.calls = c ∧
      t.client.heap.blocks.length = n := by
  obtain ⟨t, ht, heq⟩ := Option.map_eq_some_iff.mp hv
  simp only [Prod.mk.injEq] at heq
  exact ⟨t, ht, heq⟩

/-- A length word in one read, the body in two, whatever memory holds. -/
theorem framing_iff_wholeHeader :
    ∃ s, (Reading.start ⟨[]⟩ [0, 0, 0, 6, 7, 8]).rounds
        [⟨0, fun _ => 1⟩, ⟨4, fun _ => 1⟩, ⟨1, fun _ => 1⟩, ⟨0, fun _ => 1⟩, ⟨1, fun _ => 1⟩]
        = some s ∧ Framed ⟨[]⟩ [[0, 0, 0, 6, 7, 8]] s.client := by
  have hp : IsPacket [0, 0, 0, 6, 7, 8] := ⟨by decide, by decide, by decide⟩
  obtain ⟨s, hs, hend, -, -⟩ := rounds_view (s := Reading.start ⟨[]⟩ [0, 0, 0, 6, 7, 8])
    (r := [⟨0, fun _ => 1⟩, ⟨4, fun _ => 1⟩, ⟨1, fun _ => 1⟩, ⟨0, fun _ => 1⟩, ⟨1, fun _ => 1⟩])
    (l := []) (n := 1)
    (c := [.packet { base := some ⟨0, 0⟩, len := 6 } (some [0, 0, 0, 6, 7, 8])]) (by decide)
  have hpk : ∀ p ∈ [[0, 0, 0, 6, 7, 8]], IsPacket p := by simpa using hp
  refine ⟨s, hs, (framing_iff ⟨[]⟩ hpk _ hs hend).mpr ?_⟩
  have hword := headerWord_zero hp fun _ => 1
  simpa [CutsOk] using hword

/-- Nothing between length word and body: the second request for the body is
answered with a second buffer, even when the word found is the right one. A
length word in two pieces: it is read three bytes further on, and refused. -/
theorem framing_fails :
    (∃ s, (Reading.start ⟨[]⟩ [0, 0, 0, 5, 7]).rounds
        [⟨4, fun _ => 0⟩, ⟨0, fun _ => 0⟩, ⟨1, fun i => if i = 3 then 5 else 0⟩] = some s ∧
      s.stream = [] ∧ ¬ Framed ⟨[]⟩ [[0, 0, 0, 5, 7]] s.client) ∧
    (∃ s, (Reading.start ⟨[]⟩ [0, 0, 0, 5, 7]).rounds
        [⟨3, fun _ => 0⟩, ⟨1, fun _ => 0⟩, ⟨0, fun _ => 0⟩,
          ⟨1, fun i => if i = 3 then 5 else 0⟩] = some s ∧
      s.stream = [] ∧ ¬ Framed ⟨[]⟩ [[0, 0, 0, 5, 7]] s.client) := by
  constructor
  · obtain ⟨s, hs, hend, hcalls, hblocks⟩ := rounds_view (s := Reading.start ⟨[]⟩ [0, 0, 0, 5, 7])
      (r := [⟨4, fun _ => 0⟩, ⟨0, fun _ => 0⟩, ⟨1, fun i => if i = 3 then 5 else 0⟩])
      (l := []) (n := 2)
      (c := [.packet { base := some ⟨1, 0⟩, len := 5 } (some [0, 0, 0, 5, 7])]) (by decide)
    refine ⟨s, hs, hend, fun hf => ?_⟩
    obtain ⟨call, hmem, hb⟩ := hf.blocks 0 (Nat.le_refl 0) (by omega)
    rw [hcalls] at hmem
    obtain rfl := List.mem_singleton.mp hmem
    revert hb
    decide
  · obtain ⟨s, hs, hend, hcalls, hblocks⟩ := rounds_view (s := Reading.start ⟨[]⟩ [0, 0, 0, 5, 7])
      (r := [⟨3, fun _ => 0⟩, ⟨1, fun _ => 0⟩, ⟨0, fun _ => 0⟩,
        ⟨1, fun i => if i = 3 then 5 else 0⟩])
      (l := []) (n := 1)
      (c := [.error dvrRecvInvalidPacketError,
        .packet { base := some ⟨0, 0⟩, len := 5 } (some [0, 0, 0, 5, 7])]) (by decide)
    refine ⟨s, hs, hend, fun hf => ?_⟩
    have hmap := hf.calls
    rw [hcalls] at hmap
    cases hmap

end Smts
