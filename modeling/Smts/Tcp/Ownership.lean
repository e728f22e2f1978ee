import Smts.Tcp.Bounds

/-!
# Tcp — what becomes of the receive buffers

`tcp_client_alloc_cb` allocates a buffer for each body. Whatever comes, and
however it is read, the buffer is handed to `read_packet_cb`, freed, or still
being filled; but one that was allocated for a read that brought nothing is
lost.
-/

namespace Smts

/-- The read found nothing to be read: `nread` is 0, as after `EAGAIN`. -/
def Outcome.isAgain : Outcome → Bool
  | .again => true
  | _ => false

/-- What came of the reads that buffer `b` was allocated for. A region right
behind the length word is offered when there is a new buffer, and never again. -/
def allotments (b : Nat) (ts : List Turn) : List Outcome :=
  ts.filterMap fun t => if t.base = .body ⟨b, 4⟩ then some t.outcome else none

theorem allotments_snoc (b : Nat) (ts : List Turn) (t : Turn) :
    allotments b (ts ++ [t]) = allotments b ts ++ allotments b [t] := List.filterMap_append

namespace TcpClient

/-- The buffer `b` is the current one, and is being filled. -/
def Fills (c : TcpClient) (b : Nat) : Prop :=
  4 < c.recvTmpBuf.offset ∧ c.recvTmpBuf.buf.base.map Ptr.block = some b

instance (c : TcpClient) (b : Nat) : Decidable (c.Fills b) := inferInstanceAs (Decidable (_ ∧ _))

/-- How often the buffer `b` was handed to `read_packet_cb`. -/
def handed (c : TcpClient) (b : Nat) : Nat := c.calls.countP fun k => k.block = some b

/-- How often the buffer `b` was freed. -/
def frees (c : TcpClient) (b : Nat) : Nat := c.freed.countP fun p => p.block = b

/-- How often it was given away, and whether it is still here. -/
def owned (c : TcpClient) (b : Nat) : Nat :=
  c.handed b + c.frees b + if c.Fills b then 1 else 0

section ReadCb

variable {c : TcpClient} {b : Nat} {nread : Int}

theorem readCb_heap (c : TcpClient) (nread : Int) : (c.readCb nread).heap = c.heap := by
  rcases c.readCb_cases nread with ⟨-, heq⟩ | ⟨-, -, heq⟩ | ⟨-, -, heq⟩ | ⟨-, -, -, -, heq⟩ |
    ⟨-, -, -, heq⟩ <;> rw [heq]

theorem readCb_zero (hvalid : c.recvTmpBuf.packetLen ≠ packetInvalid) : c.readCb 0 = c := by
  simp [readCb, hvalid]

theorem owned_of_le (hoff : c.recvTmpBuf.offset ≤ 4) (b : Nat) : c.owned b = c.handed b + c.frees b := by
  have hno : ¬ c.Fills b := fun h => absurd h.1 (not_lt.mpr hoff)
  rw [owned, if_neg hno, Nat.add_zero]

theorem owned_of_none (hbase : c.recvTmpBuf.buf.base = none) (b : Nat) :
    c.owned b = c.handed b + c.frees b := by
  have hno : ¬ c.Fills b := fun h => by
    rw [Fills, hbase] at h
    cases h.2
  rw [owned, if_neg hno, Nat.add_zero]

/-- Without a current buffer `read_cb` gives nothing away, and there is none
afterwards. -/
theorem readCb_none (hbase : c.recvTmpBuf.buf.base = none) (hle : nread + c.recvTmpBuf.offset ≤ 4)
    (b : Nat) : (c.readCb nread).owned b = c.handed b + c.frees b ∧
      (c.readCb nread).recvTmpBuf.buf.base = none := by
  rcases c.readCb_cases nread with ⟨-, heq⟩ | ⟨-, -, heq⟩ | ⟨-, -, heq⟩ | ⟨-, -, hsum, hlo, -⟩ |
    ⟨-, -, -, heq⟩
  · rw [heq]
    refine ⟨(owned_of_none (by exact hbase) b).trans ?_, hbase⟩
    simp [handed, frees, ReadPacketCall.block]
  · rw [heq]
    refine ⟨(owned_of_none rfl b).trans ?_, rfl⟩
    simp [handed, frees, ReadPacketCall.block, hbase]
  · rw [heq]
    exact ⟨owned_of_none hbase b, hbase⟩
  · omega
  · rw [heq]
    exact ⟨owned_of_none (by exact hbase) b, hbase⟩

/-- The marker in `packet_len` keeps everything as it is. -/
theorem readCb_invalid (nread : Int) (hinvalid : c.recvTmpBuf.packetLen = packetInvalid)
    (hoff : c.recvTmpBuf.offset = 4) (b : Nat) :
    (c.readCb nread).owned b = c.handed b + c.frees b ∧ (c.readCb nread).recvTmpBuf.offset = 4 := by
  have heq : c.readCb nread = { c with calls := c.calls ++ [.error dvrRecvInvalidPacketError] } := by
    simp [readCb, hinvalid]
  rw [heq]
  refine ⟨(owned_of_le (by exact hoff.le) b).trans ?_, hoff⟩
  simp [handed, frees, ReadPacketCall.block]

/-- Whatever comes, the buffer has an owner afterwards, or is given away. -/
theorem readCb_settles (hbase : c.recvTmpBuf.buf.base = some ⟨b, 0⟩)
    (hvalid : c.recvTmpBuf.packetLen ≠ packetInvalid) (hoff : 4 ≤ c.recvTmpBuf.offset)
    (hne : nread ≠ 0) (x : Nat) :
    (c.readCb nread).owned x = c.handed x + c.frees x + (if b = x then 1 else 0) ∧
      ((c.readCb nread).recvTmpBuf.offset < 4 → (c.readCb nread).recvTmpBuf.buf.base = none) := by
  rcases c.readCb_cases nread with ⟨hinvalid, -⟩ | ⟨-, -, heq⟩ | ⟨-, hzero, -⟩ | ⟨-, -, -, -, heq⟩ |
    ⟨-, hpos, -, heq⟩
  · exact absurd hinvalid hvalid
  · -- it is freed
    rw [heq]
    refine ⟨(owned_of_le (Nat.zero_le 4) x).trans ?_, fun _ => rfl⟩
    by_cases hx : b = x <;> simp [handed, frees, ReadPacketCall.block, hbase, hx, Nat.add_assoc]
  · exact absurd hzero hne
  · -- it is handed over
    rw [heq]
    refine ⟨(owned_of_le (Nat.zero_le 4) x).trans ?_, fun _ => rfl⟩
    by_cases hx : b = x <;>
      simp [handed, frees, ReadPacketCall.block, hbase, hx, Nat.add_right_comm]
  · -- it is filled on
    rw [heq]
    have hgt : 4 < c.recvTmpBuf.offset + nread.toNat := by omega
    refine ⟨?_, fun hlt => absurd hlt (by simp only; omega)⟩
    have hfills : ({ c with recvTmpBuf :=
        { c.recvTmpBuf with offset := c.recvTmpBuf.offset + nread.toNat } } : TcpClient).Fills x ↔
          b = x := by
      rw [Fills, hbase]
      simp [hgt]
    rw [owned]
    by_cases hx : b = x
    · rw [if_pos hx, if_pos (hfills.mpr hx)]
      rfl
    · rw [if_neg hx, if_neg (mt hfills.mp hx)]
      rfl

end ReadCb

/-- What came into what was offered, and what `read_cb` is told of it. -/
structure Told (c c' : TcpClient) (t : Turn) (nread : Int) : Prop where
  le : nread ≤ t.len
  again : nread = 0 ↔ t.outcome.isAgain = true
  calls : c'.calls = c.calls
  freed : c'.freed = c.freed
  blocks : c'.heap.blocks.length = c.heap.blocks.length
  buf : c'.recvTmpBuf.buf = c.recvTmpBuf.buf
  offset : c'.recvTmpBuf.offset = c.recvTmpBuf.offset
  same : (∀ j, t.base ≠ .packetLen j) → c'.recvTmpBuf = c.recvTmpBuf

theorem Told.given {c c' : TcpClient} {t : Turn} {nread : Int} (h : c.Told c' t nread) (b : Nat) :
    c'.handed b = c.handed b ∧ c'.frees b = c.frees b := by
  rw [handed, handed, frees, frees, h.calls, h.freed]
  exact ⟨rfl, rfl⟩

theorem Turns.told {c c' : TcpClient} {t : Turn} (ht : c.Turns t c') :
    ∃ (c₁ c₂ : TcpClient) (nread : Int), c.allocCb t.word = some (c₁, t.base, t.len) ∧
      c' = c₂.readCb nread ∧ c₁.Told c₂ t nread := by
  cases ht with
  | @error word base len status c₁ halloc hneg =>
      have hagain : status = 0 ↔ Outcome.isAgain (.error status) = true :=
        ⟨fun hzero => by omega, fun hno => Bool.noConfusion hno⟩
      exact ⟨c₁, c₁, status, halloc, rfl, hneg.le.trans (Int.natCast_nonneg len), hagain, rfl, rfl, rfl,
        rfl, rfl, fun _ => rfl⟩
  | @again word base len c₁ halloc =>
      exact ⟨c₁, c₁, 0, halloc, rfl, Int.natCast_nonneg len, iff_of_true rfl rfl, rfl, rfl, rfl, rfl,
        rfl, fun _ => rfl⟩
  | @bytes word base len bs c₁ c₂ halloc hpos hle hrecv =>
      obtain ⟨hcalls, hheap, hbuf, hoff, hsame⟩ := receive_keeps hrecv
      have hfreed : c₂.freed = c₁.freed := by
        cases base with
        | packetLen j =>
            obtain rfl := Option.some.inj hrecv
            rfl
        | body p =>
            obtain ⟨h, -, heq⟩ := Option.bind_eq_some_iff.mp hrecv
            obtain rfl := Option.some.inj heq
            rfl
        | null => cases hrecv
      have hagain : (bs.length : Int) = 0 ↔ Outcome.isAgain (.bytes bs) = true :=
        ⟨fun hzero => by omega, fun hno => Bool.noConfusion hno⟩
      exact ⟨c₁, c₂, bs.length, halloc, rfl, Int.ofNat_le.mpr hle, hagain, hcalls, hfreed, hheap,
        hbuf, hoff, hsame⟩

end TcpClient

/-! ## Every run -/

section Allotments

variable {b : Nat} {t : Turn}

theorem allotments_other (ht : ∀ b, t.base ≠ .body ⟨b, 4⟩) (b : Nat) (ts : List Turn) :
    allotments b (ts ++ [t]) = allotments b ts := by
  have hnone : allotments b [t] = [] := by simp [allotments, ht b]
  rw [allotments_snoc, hnone, List.append_nil]

theorem allotments_new (ht : t.base = .body ⟨b, 4⟩) (x : Nat) (ts : List Turn) :
    allotments x (ts ++ [t]) = allotments x ts ++ if b = x then [t.outcome] else [] := by
  rw [allotments_snoc]
  congr 1
  by_cases hx : b = x <;> simp [allotments, ht, hx]

end Allotments

/-- Each buffer was allocated in one turn; if something came in it, it has an
owner, or was given away, once. -/
structure Owns (h : Heap) (ts : List Turn) (c : TcpClient) : Prop where
  receiving : Receiving ts c
  idle : c.recvTmpBuf.offset < 4 → c.recvTmpBuf.buf.base = none
  grown : h.blocks.length ≤ c.heap.blocks.length
  allotted : ∀ b, (allotments b ts).length
    = if h.blocks.length ≤ b ∧ b < c.heap.blocks.length then 1 else 0
  owned : ∀ b, c.owned b = (allotments b ts).countP fun o => !o.isAgain

section Owns

variable {h : Heap} {ts : List Turn} {c c' : TcpClient} {t : Turn}

theorem owns_startRead (h : Heap) : Owns h [] (.startRead h) where
  receiving := receiving_startRead h
  idle _ := rfl
  grown := le_rfl
  allotted b := by
    show 0 = if h.blocks.length ≤ b ∧ b < h.blocks.length then 1 else 0
    rw [if_neg (by omega)]
  owned b := TcpClient.owned_of_none rfl b

/-- Nothing was allocated, and nothing that is owned has changed. -/
theorem Owns.same (hc : Owns h ts c) (ht : c.Turns t c') (hbase : ∀ b, t.base ≠ .body ⟨b, 4⟩)
    (hidle : c'.recvTmpBuf.offset < 4 → c'.recvTmpBuf.buf.base = none)
    (hlen : c'.heap.blocks.length = c.heap.blocks.length) (howned : ∀ b, c'.owned b = c.owned b) :
    Owns h (ts ++ [t]) c' where
  receiving := hc.receiving.step ht
  idle := hidle
  grown := hlen ▸ hc.grown
  allotted b := by rw [allotments_other hbase, hlen, hc.allotted]
  owned b := by rw [allotments_other hbase, howned, hc.owned]

/-- The turn that allocates a buffer, and what its read does with it. -/
theorem Owns.fresh {c₁ c₂ : TcpClient} {nread : Int} (hc : Owns h ts c)
    (ht : c.Turns t (c₂.readCb nread)) (hd : c₁.Told c₂ t nread) (hfour : c.recvTmpBuf.offset = 4)
    (hlo : 4 < t.word.toInt) (hc₁ : c₁ = { c with
      heap := Heap.pending c.heap.blocks (BigEndian.bytes 4 t.word) (t.word.toNat - 4)
      recvTmpBuf := { c.recvTmpBuf.setPacketLen t.word with
        buf := { base := some ⟨c.heap.blocks.length, 0⟩, len := t.word.signExtend 64 } } })
    (hbase : t.base = .body ⟨c.heap.blocks.length, 4⟩) : Owns h (ts ++ [t]) (c₂.readCb nread) := by
  generalize hb : c.heap.blocks.length = b at hbase hc₁
  have hlen : c₂.heap.blocks.length = b + 1 := by
    rw [hd.blocks, hc₁, ← hb]
    simp [Heap.pending]
  have hbase₂ : c₂.recvTmpBuf.buf.base = some ⟨b, 0⟩ := by rw [hd.buf, hc₁]
  have hfour₂ : c₂.recvTmpBuf.offset = 4 := by
    rw [hd.offset, hc₁]
    exact hfour
  have hvalid : c₂.recvTmpBuf.packetLen ≠ packetInvalid := by
    have hword : c₂.recvTmpBuf.packetLen = t.word := by
      rw [hd.same (by simp [hbase]), hc₁]
      exact c.recvTmpBuf.packetLen_setPacketLen t.word
    rw [hword]
    intro hinvalid
    rw [hinvalid] at hlo
    exact absurd hlo (by decide)
  have hbefore : ∀ x, c₂.handed x + c₂.frees x = (allotments x ts).countP fun o => !o.isAgain := by
    intro x
    rw [(hd.given x).1, (hd.given x).2, hc₁, ← hc.owned x, TcpClient.owned_of_le hfour.le]
    rfl
  refine
    { receiving := hc.receiving.step ht
      idle := fun hlt => ?_
      grown := ?_
      allotted := fun x => ?_
      owned := fun x => ?_ }
  · by_cases hzero : nread = 0
    · rw [hzero, TcpClient.readCb_zero hvalid] at hlt
      omega
    · exact (TcpClient.readCb_settles hbase₂ hvalid hfour₂.ge hzero 0).2 hlt
  · rw [TcpClient.readCb_heap, hlen]
    exact (hc.grown.trans hb.le).trans (Nat.le_succ b)
  -- the new block is the only one that the turn adds
  · have hgrown := hc.grown
    rw [allotments_new hbase, List.length_append, hc.allotted, TcpClient.readCb_heap, hlen, hb]
    by_cases hx : b = x
    · rw [if_pos hx, if_neg (by omega), if_pos (by omega)]
      rfl
    · have hiff : (h.blocks.length ≤ x ∧ x < b + 1) ↔ (h.blocks.length ≤ x ∧ x < b) := by omega
      rw [if_neg hx, List.length_nil, Nat.add_zero, if_congr hiff rfl rfl]
  · rw [allotments_new hbase, List.countP_append, ← hbefore]
    by_cases hzero : nread = 0
    · -- nothing came: it is neither given away nor being filled
      have hyes := hd.again.mp hzero
      rw [hzero, TcpClient.readCb_zero hvalid, TcpClient.owned_of_le hfour₂.le]
      split <;> simp [hyes]
    · have hno : t.outcome.isAgain = false := Bool.eq_false_iff.mpr (mt hd.again.mpr hzero)
      rw [(TcpClient.readCb_settles hbase₂ hvalid hfour₂.ge hzero x).1]
      split <;> simp [hno]

/-- A turn that reads on into the buffer there is. -/
theorem Owns.more {c₂ : TcpClient} {nread : Int} {p : Ptr} (hc : Owns h ts c)
    (ht : c.Turns t (c₂.readCb nread)) (hd : c.Told c₂ t nread) (hgt : 4 < c.recvTmpBuf.offset)
    (hp : c.recvTmpBuf.buf.base = some p) (hbase : t.base = .body (p.add c.recvTmpBuf.offset)) :
    Owns h (ts ++ [t]) (c₂.readCb nread) := by
  obtain hle | ⟨b, w, data, hfill, hdata, -⟩ := hc.receiving.place
  · omega
  obtain rfl : p = ⟨b, 0⟩ := by
    rw [hfill.buf] at hp
    exact (Option.some.inj hp).symm
  have hkept : c₂.recvTmpBuf = c.recvTmpBuf := hd.same (by simp [hbase])
  have hnew : ∀ x, t.base ≠ .body ⟨x, 4⟩ := by
    intro x heq
    rw [hbase] at heq
    have hptr := ReadBase.body.inj heq
    simp [Ptr.add] at hptr
    omega
  have hvalid : c₂.recvTmpBuf.packetLen ≠ packetInvalid := by
    rw [hkept, hfill.packetLen]
    intro hinvalid
    have hlo := hfill.lo
    rw [hinvalid] at hlo
    exact absurd hlo (by decide)
  have hfills : ∀ d : TcpClient, d.recvTmpBuf = c.recvTmpBuf → ∀ x, d.Fills x ↔ b = x := by
    intro d heq x
    rw [TcpClient.Fills, heq, hp]
    simp [hgt]
  -- the callback frees the block, hands it over or keeps it, but does one of these
  have hsettle : nread ≠ 0 → ∀ x, _ := fun hne =>
    TcpClient.readCb_settles (by rw [hkept, hp]) hvalid (by rw [hkept]; omega) hne
  refine hc.same ht hnew (fun hlt => ?_) ?_ (fun x => ?_)
  · by_cases hzero : nread = 0
    · rw [hzero, TcpClient.readCb_zero hvalid, hkept] at hlt
      omega
    · exact (hsettle hzero 0).2 hlt
  · rw [TcpClient.readCb_heap, hd.blocks]
  · have hown : c.owned x = c₂.handed x + c₂.frees x + if b = x then 1 else 0 := by
      rw [TcpClient.owned, if_congr (hfills c rfl x) rfl rfl, (hd.given x).1, (hd.given x).2]
    rw [hown]
    by_cases hzero : nread = 0
    · rw [hzero, TcpClient.readCb_zero hvalid, TcpClient.owned, if_congr (hfills c₂ hkept x) rfl rfl]
    · exact (hsettle hzero x).1

/-- **One turn**: every buffer that something came in still has one owner. -/
theorem Owns.step (hc : Owns h ts c) (ht : c.Turns t c') : Owns h (ts ++ [t]) c' := by
  obtain ⟨c₁, c₂, nread, halloc, rfl, hd⟩ := ht.told
  rcases TcpClient.allocCb_cases halloc with ⟨hlt, rfl, hbase, hlen⟩ | ⟨hfour, -, hc₁, hbase, -⟩ |
    ⟨hfour, hlo, -, hc₁, hbase, -⟩ | ⟨hgt, rfl, p, hp, hbase, -⟩
  · -- the length word
    have hnone : c₂.recvTmpBuf.buf.base = none := by rw [hd.buf, hc.idle hlt]
    have hroom : nread + c₂.recvTmpBuf.offset ≤ 4 := by
      have hle := hd.le
      rw [hd.offset]
      omega
    refine hc.same ht (by simp [hbase]) (fun _ => (c₂.readCb_none hnone hroom 0).2) ?_ (fun b => ?_)
    · rw [TcpClient.readCb_heap, hd.blocks]
    · rw [(TcpClient.readCb_none hnone hroom b).1, (hd.given b).1, (hd.given b).2,
        TcpClient.owned_of_le hlt.le]
  · -- an invalid length
    have hmark : c₂.recvTmpBuf.packetLen = packetInvalid := by
      rw [hd.same (by simp [hbase]), hc₁]
      exact ClientReadTmpBuf.packetLen_setPacketLen _ _
    have hstay : c₂.recvTmpBuf.offset = 4 := by
      rw [hd.offset, hc₁]
      exact hfour
    refine hc.same ht (by simp [hbase]) (fun hlt => ?_) ?_ (fun b => ?_)
    · exact absurd (TcpClient.readCb_invalid nread hmark hstay 0).2 (by omega)
    · rw [TcpClient.readCb_heap, hd.blocks, hc₁]
    · rw [(TcpClient.readCb_invalid nread hmark hstay b).1, (hd.given b).1, (hd.given b).2, hc₁,
        TcpClient.owned_of_le hfour.le]
      rfl
  · exact hc.fresh ht hd hfour hlo hc₁ hbase
  · exact hc.more ht hd hgt hp hbase

theorem owns_of_run (hrun : Transition.Run TcpClient.Turns (.startRead h) ts c) : Owns h ts c := by
  induction hrun with
  | refl => exact owns_startRead h
  | snoc _ ht ih => exact ih.step ht

/-- What is freed was allocated, as a whole. -/
theorem starts_of_run (hrun : Transition.Run TcpClient.Turns (.startRead h) ts c) :
    ∀ p, c.recvTmpBuf.buf.base = some p ∨ p ∈ c.freed → p.off = 0 := by
  refine hrun.invariant (I := fun c => ∀ p, c.recvTmpBuf.buf.base = some p ∨ p ∈ c.freed → p.off = 0)
    (fun c t c' hc ht p hp => ?_) (fun p hp => ?_)
  · obtain ⟨c₁, c₂, nread, halloc, rfl, hd⟩ := ht.told
    have hread : c₂.recvTmpBuf.buf.base = some p ∨ p ∈ c₂.freed := by
      rcases c₂.readCb_cases nread with ⟨-, heq⟩ | ⟨-, -, heq⟩ | ⟨-, -, heq⟩ | ⟨-, -, -, -, heq⟩ |
        ⟨-, -, -, heq⟩ <;> rw [heq] at hp
      · exact hp
      · rcases hp with hp | hp
        · cases hp
        · rcases List.mem_append.mp hp with hp | hp
          · exact .inr hp
          · exact .inl (Option.mem_toList.mp hp)
      · exact hp
      · exact hp.elim (fun hno => Option.noConfusion rfl (heq_of_eq hno)) .inr
      · exact hp
    rw [hd.buf, hd.freed] at hread
    rcases TcpClient.allocCb_cases halloc with ⟨-, rfl, -⟩ | ⟨-, -, hc₁, -⟩ | ⟨-, -, -, hc₁, -⟩ |
      ⟨-, rfl, -⟩
    · exact hc p hread
    · rw [hc₁] at hread
      exact hc p hread
    · rw [hc₁] at hread
      rcases hread with hnew | hold
      · obtain rfl := Option.some.inj hnew
        rfl
      · exact hc p (.inr hold)
    · exact hc p hread
  · rcases hp with hp | hp <;> cases hp

/-- **What becomes of a receive buffer**, whatever comes: it is allocated in one
turn. If anything came in that turn, it is being filled, or was handed to
`read_packet_cb` once, or was freed once; if nothing came, it is none of these,
and the next buffer takes its place. Nothing else is handed over or freed. -/
theorem buffers_of_run (hrun : Transition.Run TcpClient.Turns (.startRead h) ts c) (b : Nat) :
    (h.blocks.length ≤ b ∧ b < c.heap.blocks.length → ∃ o, allotments b ts = [o] ∧
      c.handed b + c.frees b + (if c.Fills b then 1 else 0) = if o.isAgain then 0 else 1) ∧
    (¬ (h.blocks.length ≤ b ∧ b < c.heap.blocks.length) →
      c.handed b + c.frees b + (if c.Fills b then 1 else 0) = 0) ∧
    ∀ p ∈ c.freed, p.block = b → p = ⟨b, 0⟩ := by
  have hc := owns_of_run hrun
  have hlen := hc.allotted b
  have howned : c.handed b + c.frees b + (if c.Fills b then 1 else 0)
      = (allotments b ts).countP fun o => !o.isAgain := hc.owned b
  refine ⟨fun hin => ?_, fun hout => ?_, fun p hp hpb => ?_⟩
  · rw [if_pos hin] at hlen
    obtain ⟨o, ho⟩ := List.length_eq_one_iff.mp hlen
    refine ⟨o, ho, ?_⟩
    rw [howned, ho]
    cases hagain : o.isAgain <;> simp [hagain]
  · rw [if_neg hout] at hlen
    rw [howned, List.length_eq_zero_iff.mp hlen]
    rfl
  · have hstart := starts_of_run hrun p (.inr hp)
    obtain ⟨block, off⟩ := p
    obtain rfl := hpb
    obtain rfl := hstart
    rfl

/-- The length word comes alone: the buffer for the rest is allocated twice. -/
theorem buffers_of_run_waits :
    ∃ ts c, Transition.Run TcpClient.Turns (.startRead ⟨[]⟩) ts c ∧ c.heap.blocks.length = 2 ∧
      c.handed 0 + c.frees 0 + (if c.Fills 0 then 1 else 0) = 0 ∧ c.handed 1 = 1 := by
  have hheader : (TcpClient.startRead ⟨[]⟩).Turns
      ⟨0, .packetLen 0, 4, .bytes [0, 0, 0, 5]⟩ _ := .bytes rfl (by decide) le_rfl rfl
  have hrun := Transition.Run.snoc (Transition.Run.snoc (Transition.Run.snoc .refl hheader)
    (show TcpClient.Turns _ ⟨5, .body ⟨0, 4⟩, 1, .again⟩ _ from .again rfl))
    (show TcpClient.Turns _ ⟨5, .body ⟨1, 4⟩, 1, .bytes [7]⟩ _ from
      .bytes rfl (by decide) (by decide) rfl)
  refine ⟨_, _, hrun, by decide +kernel, ?_, by decide +kernel⟩
  obtain ⟨o, ho, hfate⟩ := (buffers_of_run hrun 0).1 (by decide +kernel)
  rw [hfate]
  obtain rfl : Outcome.again = o := (List.cons.inj ho).1
  rfl

end Owns

end Smts
