import Smts.Lib.BigEndian
import Mathlib.Data.Vector.Basic

/-!
# Proto — char buffers and the integer codec

The memory the packet code works on: `malloc`ed char buffers, `uv_buf_t`,
and the functions of `encode_decode_util.c` over them. A store is checked:
one that misses its buffer has no result, so a function that returns one
wrote nowhere else. Reads go through a reader, `none` where there is no byte.
-/

namespace Smts

abbrev Byte := BitVec 8

/-- `PACKET_LEN_FIELD_SIZE`. -/
def packetLenFieldSize : Nat := 4

/-- `MAX_PACKET_LEN`. -/
def maxPacketLen : Nat := 64 * 1024 * 1024

/-- A `char*` into a buffer: which buffer, and how far behind its start. -/
structure Ptr where
  block : Nat
  off : Int
deriving DecidableEq, Repr

def Ptr.add (p : Ptr) (n : Int) : Ptr := { p with off := p.off + n }

@[simp] theorem Ptr.add_block (p : Ptr) (n : Int) : (p.add n).block = p.block := rfl

@[simp] theorem Ptr.add_off (p : Ptr) (n : Int) : (p.add n).off = p.off + n := rfl

/-- `uv_buf_t`: where the bytes lie and how many there are. A `NULL` base is
`none`. -/
structure UvBuf where
  base : Option Ptr
  len : BitVec 64
deriving DecidableEq, Repr

/-- The char buffers `malloc` has returned, in order. A byte that was never
written is `none`. Buffers are not taken back: an address is used once. -/
structure Heap where
  blocks : List (List (Option Byte))
deriving DecidableEq, Repr

namespace Heap

/-- `malloc(n)`: a fresh buffer of `n` unwritten bytes, and the pointer to its
start. -/
def malloc (h : Heap) (n : Nat) : Heap × Ptr :=
  (⟨h.blocks ++ [List.replicate n none]⟩, ⟨h.blocks.length, 0⟩)

/-- A buffer that already holds `bytes`: what the framing layer hands over. -/
def receive (h : Heap) (bytes : List Byte) : Heap × Ptr :=
  (⟨h.blocks ++ [bytes.map some]⟩, ⟨h.blocks.length, 0⟩)

/-- `*p = b`. -/
def store (h : Heap) (p : Ptr) (b : Byte) : Option Heap := do
  let blk ← h.blocks[p.block]?
  if 0 ≤ p.off ∧ p.off.toNat < blk.length then
    some ⟨h.blocks.set p.block (blk.set p.off.toNat (some b))⟩
  else none

/-- `*p`. -/
def load (h : Heap) (p : Ptr) : Option Byte := do
  let blk ← h.blocks[p.block]?
  if 0 ≤ p.off then (blk[p.off.toNat]?).join else none

/-- Store the bytes `bs` at `p` and behind; the buffer must have room for all of
them. -/
def storeBytes (h : Heap) (p : Ptr) : List Byte → Option Heap
  | [] => some h
  | b :: bs => do
      let h ← h.store p b
      h.storeBytes (p.add 1) bs

/-- Load the `n` bytes from `p` on; all of them must be in the buffer and
written. -/
def loadBytes (h : Heap) (p : Ptr) : Nat → Option (List Byte)
  | 0 => some []
  | n + 1 => do
      let b ← h.load p
      let bs ← h.loadBytes (p.add 1) n
      some (b :: bs)

/-- The bytes of a list of `uv_buf_t`, in order: what a write of them sends. -/
def gather (h : Heap) : List UvBuf → Option (List Byte)
  | [] => some []
  | u :: us => do
      let p ← u.base
      let bs ← h.loadBytes p u.len.toNat
      let rest ← h.gather us
      some (bs ++ rest)

end Heap

/-! ## A buffer being filled -/

/-- A heap whose last buffer has `written` at its front and `k` bytes still
to be written. -/
def Heap.pending (B : List (List (Option Byte))) (written : List Byte) (k : Nat) : Heap :=
  ⟨B ++ [written.map some ++ List.replicate k none]⟩

theorem Heap.malloc_pending (h : Heap) (n : Nat) :
    h.malloc n = (Heap.pending h.blocks [] n, ⟨h.blocks.length, 0⟩) := rfl

theorem Heap.pending_zero (B : List (List (Option Byte))) (written : List Byte) :
    (Heap.pending B written 0).blocks = B ++ [written.map some] := by
  simp [Heap.pending]

theorem Heap.store_pending (B : List (List (Option Byte))) (written : List Byte) (k : Nat)
    (b : Byte) :
    (Heap.pending B written (k + 1)).store ⟨B.length, written.length⟩ b
      = some (Heap.pending B (written ++ [b]) k) := by
  simp [Heap.store, Heap.pending, List.replicate_succ]

theorem Heap.storeBytes_pending (B : List (List (Option Byte))) (written bs : List Byte)
    (k : Nat) :
    (Heap.pending B written (bs.length + k)).storeBytes ⟨B.length, written.length⟩ bs
      = some (Heap.pending B (written ++ bs) k) := by
  induction bs generalizing written with
  | nil => simp [Heap.storeBytes]
  | cons b bs ih =>
      have hlen : (b :: bs).length + k = (bs.length + k) + 1 := by
        rw [List.length_cons]; omega
      have hnext : (⟨B.length, (written.length : Int)⟩ : Ptr).add 1
          = ⟨B.length, ((written ++ [b]).length : Nat)⟩ := by
        simp [Ptr.add]
      rw [Heap.storeBytes, hlen, Heap.store_pending]
      simp only [Option.bind_eq_bind, Option.bind_some]
      rw [hnext, ih, List.append_assoc, List.singleton_append]

theorem Heap.length_store {h h' : Heap} {p : Ptr} {b : Byte} (hs : h.store p b = some h') :
    h'.blocks.length = h.blocks.length := by
  obtain ⟨blk, -, hs⟩ := Option.bind_eq_some_iff.mp hs
  split at hs
  · obtain rfl := Option.some.inj hs
    exact List.length_set ..
  · cases hs

/-- Storing makes no new buffers and takes none away. -/
theorem Heap.length_storeBytes {h h' : Heap} {p : Ptr} {bs : List Byte}
    (hs : h.storeBytes p bs = some h') : h'.blocks.length = h.blocks.length := by
  induction bs generalizing h p with
  | nil =>
      obtain rfl := Option.some.inj hs
      rfl
  | cons b bs ih =>
      obtain ⟨h₁, h₁s, hs⟩ := Option.bind_eq_some_iff.mp hs
      rw [ih hs, Heap.length_store h₁s]

theorem Heap.load_of_block {h : Heap} {b : Nat} {bytes : List Byte}
    (hb : h.blocks[b]? = some (bytes.map some)) (i : Nat) :
    h.load ⟨b, i⟩ = bytes[i]? := by
  simp only [Heap.load, hb, Option.bind_eq_bind, Option.bind_some, Int.natCast_nonneg, if_true,
    Int.toNat_natCast, List.getElem?_map]
  cases bytes[i]? <;> rfl

theorem Heap.loadBytes_of_block {h : Heap} {b : Nat} {bytes : List Byte}
    (hb : h.blocks[b]? = some (bytes.map some)) (i n : Nat) (hn : i + n ≤ bytes.length) :
    h.loadBytes ⟨b, i⟩ n = some ((bytes.drop i).take n) := by
  induction n generalizing i with
  | zero => simp [Heap.loadBytes]
  | succ n ih =>
      have hi : i < bytes.length := by omega
      have hnext : (⟨b, (i : Int)⟩ : Ptr).add 1 = ⟨b, ((i + 1 : Nat) : Int)⟩ := by
        simp [Ptr.add]
      rw [Heap.loadBytes, Heap.load_of_block hb, List.getElem?_eq_getElem hi]
      simp only [Option.bind_eq_bind, Option.bind_some]
      rw [hnext, ih (i + 1) (by omega), List.drop_eq_getElem_cons hi, List.take_succ_cons]
      rfl

/-- Loading looks at one buffer only, that of the pointer. -/
theorem Heap.loadBytes_congr {h h' : Heap} {p : Ptr}
    (hb : h'.blocks[p.block]? = h.blocks[p.block]?) (n : Nat) :
    h'.loadBytes p n = h.loadBytes p n := by
  have hload : ∀ q : Ptr, q.block = p.block → h'.load q = h.load q := by
    intro q hq
    rw [Heap.load, Heap.load, hq, hb]
  have hgen : ∀ (n : Nat) (q : Ptr), q.block = p.block → h'.loadBytes q n = h.loadBytes q n := by
    intro n
    induction n with
    | zero => intro q _; rfl
    | succ n ih =>
        intro q hq
        rw [Heap.loadBytes, Heap.loadBytes, hload q hq, ih (q.add 1) hq]
  exact hgen n p rfl

theorem Heap.length_loadBytes {h : Heap} {p : Ptr} {n : Nat} {bs : List Byte}
    (hl : h.loadBytes p n = some bs) : bs.length = n := by
  induction n generalizing p bs with
  | zero =>
      simp only [Heap.loadBytes, Option.some.injEq] at hl
      simp [← hl]
  | succ n ih =>
      simp only [Heap.loadBytes, Option.bind_eq_bind, Option.bind_eq_some_iff,
        Option.some.injEq] at hl
      obtain ⟨b, -, bs', hbs, rfl⟩ := hl
      rw [List.length_cons, ih hbs]

/-! ## encode_decode_util.c -/

/-- `ENCODE_INT`: one round for each `len` from `size` down to 1. -/
def encodeInt {w : Nat} (h : Heap) (buffer : Ptr) (offset : Int) (val : BitVec w) :
    Nat → Option Heap
  | 0 => some h
  | len + 1 => do
      let h ← h.store (buffer.add offset) ((val.sshiftRight (len * 8)).setWidth 8)
      encodeInt h buffer (offset + 1) val len

def encodeInt16 (h : Heap) (buffer : Ptr) (offset : Int) (val : BitVec 16) : Option Heap :=
  encodeInt h buffer offset val 2

def encodeInt32 (h : Heap) (buffer : Ptr) (offset : Int) (val : BitVec 32) : Option Heap :=
  encodeInt h buffer offset val 4

def encodeInt64 (h : Heap) (buffer : Ptr) (offset : Int) (val : BitVec 64) : Option Heap :=
  encodeInt h buffer offset val 8

/-- `memcpy(buf, str, len)`. -/
def encodeFixedString (h : Heap) (buf : Ptr) {len : Nat} (str : List.Vector Byte len) :
    Option Heap :=
  h.storeBytes buf str.toList

/-- What a decoder sees of memory: the byte at a distance from the start of
the packet. -/
abbrev Reader := Int → Option Byte

/-- Only the packet itself can be read: nothing is known before and behind it. -/
def Reader.within (bytes : List Byte) : Reader :=
  fun i => if 0 ≤ i then bytes[i.toNat]? else none

/-- Memory goes on around the packet, and holds whatever it holds there. -/
def Reader.beyond (bytes : List Byte) (junk : Int → Byte) : Reader :=
  fun i => some ((Reader.within bytes i).getD (junk i))

/-- `DECODE_INT`: `size` rounds, `len` counting up. -/
def decodeInt {w : Nat} (read : Reader) (buf : Int) (val : BitVec w) (len : Nat) :
    Nat → Option (BitVec w)
  | 0 => some val
  | size + 1 => do
      let b ← read (buf + len)
      decodeInt read buf ((val <<< 8) ||| b.setWidth w) (len + 1) size

def decodeInt16 (read : Reader) (buf : Int) : Option (BitVec 16) := decodeInt read buf 0 0 2

def decodeInt32 (read : Reader) (buf : Int) : Option (BitVec 32) := decodeInt read buf 0 0 4

def decodeInt64 (read : Reader) (buf : Int) : Option (BitVec 64) := decodeInt read buf 0 0 8

/-- The `n` bytes a reader gives from `buf` on. -/
def Reader.take (read : Reader) (buf : Int) : Nat → Option (List Byte)
  | 0 => some []
  | n + 1 => do
      let b ← read buf
      let bs ← Reader.take read (buf + 1) n
      some (b :: bs)

theorem Reader.length_take {read : Reader} {buf : Int} {n : Nat} {bs : List Byte}
    (h : read.take buf n = some bs) : bs.length = n := by
  induction n generalizing buf bs with
  | zero =>
      simp only [Reader.take, Option.some.injEq] at h
      simp [← h]
  | succ n ih =>
      simp only [Reader.take, Option.bind_eq_bind, Option.bind_eq_some_iff,
        Option.some.injEq] at h
      obtain ⟨b, -, bs', hbs, rfl⟩ := h
      rw [List.length_cons, ih hbs]

/-- `memcpy(str, buf, len)`. -/
def decodeFixedString (read : Reader) (buf : Int) (len : Nat) :
    Option (List.Vector Byte len) :=
  match h : read.take buf len with
  | some bs => some ⟨bs, Reader.length_take h⟩
  | none => none

/-- The length word of a packet, its first four bytes. -/
def lenWord (bytes : List Byte) : BitVec 32 := BigEndian.value 32 (bytes.take 4)

/-- The command word of a packet, the four bytes behind the length. -/
def cmdWord (bytes : List Byte) : BitVec 32 := BigEndian.value 32 ((bytes.drop 4).take 4)

/-! ## The integer codec is big-endian -/

theorem sshiftRight_setWidth {w : Nat} (val : BitVec w) {k : Nat} (hk : k + 8 ≤ w) :
    (val.sshiftRight k).setWidth 8 = (val >>> k).setWidth 8 := by
  apply BitVec.eq_of_getLsbD_eq
  intro i hi
  simp only [BitVec.getLsbD_setWidth, BitVec.getLsbD_sshiftRight, BitVec.getLsbD_ushiftRight]
  simp [show ¬ w ≤ i by omega, show k + i < w by omega]

theorem encodeInt_eq {w : Nat} (h : Heap) (buffer : Ptr) (offset : Int) (val : BitVec w)
    {n : Nat} (hn : 8 * n ≤ w) :
    encodeInt h buffer offset val n
      = h.storeBytes (buffer.add offset) (BigEndian.bytes n val) := by
  induction n generalizing h offset with
  | zero => rfl
  | succ n ih =>
      simp only [encodeInt, BigEndian.bytes, Heap.storeBytes, Nat.mul_comm n 8,
        sshiftRight_setWidth val (show 8 * n + 8 ≤ w by omega)]
      congr 1
      funext h'
      rw [ih h' (offset + 1) (by omega)]
      simp only [Ptr.add, Int.add_assoc]

theorem decodeInt_eq {w : Nat} {read : Reader} {buf : Int} (val : BitVec w) (len n : Nat) :
    decodeInt read buf val len n
      = (read.take (buf + len) n).map fun bs => bs.foldl BigEndian.push val := by
  induction n generalizing val len with
  | zero => rfl
  | succ n ih =>
      simp only [decodeInt, Reader.take, ih, Option.bind_eq_bind]
      rw [show buf + ((len + 1 : Nat) : Int) = buf + len + 1 by push_cast; omega]
      cases read (buf + len) with
      | none => rfl
      | some b =>
          simp only [Option.bind_some]
          cases read.take (buf + len + 1) n with
          | none => rfl
          | some bs => simp [BigEndian.push]

theorem decodeInt_value {w : Nat} (read : Reader) (buf : Int) (n : Nat) :
    decodeInt (w := w) read buf 0 0 n = (read.take buf n).map (BigEndian.value w) := by
  rw [decodeInt_eq]
  simp only [Int.natCast_zero, Int.add_zero]
  rfl

end Smts
