import Smts.Proto.Buffer

/-!
# Proto — the generated packet structs

`smts_proto.c` generates, for every packet declared in `PROTOCOL_MAP`, a
struct and the functions that initialise, measure, decode, encode and destroy
it. Each function is one walk over the declared fields, so here each is a
recursion on the field list, with one clause for every type of field. The
walks share nothing but the struct: they count slots, fill slots and write
through slots each with state of its own.

The names a packet gives its fields are a parameter `ν`; `packet_len` and
`cmd`, which the generated code uses itself, every packet has.
-/

namespace Smts

/-- The name of a declared field: the two that every packet has, and a packet's
own. -/
inductive FieldName (ν : Type) where
  | packetLen
  | cmd
  | user (name : ν)
deriving DecidableEq, Repr

/-- A declared field's type. `binaryBufRef hdr` is declared with the length
`t->packet_len - hdr`. -/
inductive FieldType where
  | int16
  | int32
  | int64
  | fixedString (len : Nat)
  | binaryBufRef (hdr : BitVec 32)
deriving DecidableEq, Repr

/-- The values that a field can have: those of its C type. -/
abbrev FieldType.Val : FieldType → Type
  | .int16 => BitVec 16
  | .int32 => BitVec 32
  | .int64 => BitVec 64
  | .fixedString len => List.Vector Byte len
  | .binaryBufRef _ => UvBuf

structure Field (ν : Type) where
  type : FieldType
  name : FieldName ν
deriving DecidableEq, Repr

/-- The declared members of a struct, each at its own type. -/
abbrev Values (ν : Type) := (f : Field ν) → f.type.Val

/-- `Int32(packet_len)`, declared first in every packet. -/
abbrev packetLen {ν : Type} : Field ν := ⟨.int32, .packetLen⟩

/-- `Int32(cmd)`, declared second. -/
abbrev cmd {ν : Type} : Field ν := ⟨.int32, .cmd⟩

/-- One entry of `PROTOCOL_MAP`, less its handler: the packet's name, command
and fields. -/
structure PacketType (ν : Type) where
  name : String
  cmd : BitVec 32
  fields : List (Field ν)
deriving DecidableEq, Repr

/-- `cmd_codec_buf_t`. The array of slots is `none` while it is `NULL`; a
slot of it that was never assigned is `none`. -/
structure CodecBuf where
  originalBuf : Option (List (Option UvBuf))
  originalBufLen : Nat
  originalBufRefBitMap : BitVec 32
deriving DecidableEq, Repr

/-- A generated struct, seen through `abstract_cmd_t*`: which packet it is
(its `name` and its `actions`), the private part, and the declared members.
`data` is the address of an `smts_frame_t`. -/
structure Cmd (ν : Type) where
  type : PacketType ν
  codecBuf : CodecBuf
  data : Option Nat
  ref : Int
  vals : Values ν

namespace Cmd

variable {ν : Type} [DecidableEq ν]

def set (t : Cmd ν) (f : Field ν) (x : f.type.Val) : Cmd ν :=
  { t with vals := Function.update t.vals f x }

end Cmd

section Walks

variable {ν : Type} [DecidableEq ν]

/-! ### GEN_STRUCT_INIT -/

/-- `Int16_init` and its siblings. A `BinaryBufRef` keeps what it held. -/
def initVal : (k : FieldType) → k.Val → k.Val
  | .int16, _ => 0
  | .int32, _ => 0
  | .int64, _ => 0
  | .fixedString _, v => ⟨v.toList.set 0 0, by simp⟩
  | .binaryBufRef _, v => v

def initFields (vals : Values ν) : List (Field ν) → Values ν
  | [] => vals
  | f :: fs => initFields (Function.update vals f (initVal f.type (vals f))) fs

/-- `cmd_name##_t_init`. The constant put into `cmd` does not survive: `cmd`
is a declared field and is zeroed with the others. -/
def Cmd.init (type : PacketType ν) (garbage : Values ν) : Cmd ν :=
  { type := type
    codecBuf := { originalBuf := none, originalBufLen := 0, originalBufRefBitMap := 0 }
    data := none
    ref := 0
    vals := initFields (Function.update garbage cmd type.cmd) type.fields }

/-! ### GEN_STRUCT_LEN -/

/-- `Int16_len` and its siblings: `int` arithmetic, so modulo `2^32`. -/
def lenField (vals : Values ν) (len : BitVec 32) : Field ν → BitVec 32
  | ⟨.int16, _⟩ => len + 2
  | ⟨.int32, _⟩ => len + 4
  | ⟨.int64, _⟩ => len + 8
  | ⟨.fixedString length, _⟩ => len + BitVec.ofNat 32 length
  | ⟨.binaryBufRef hdr, name⟩ =>
      let u : UvBuf := vals ⟨.binaryBufRef hdr, name⟩
      if u.base ≠ none then len + u.len.setWidth 32 else len

/-- `cmd_name##_t_len`. -/
def Cmd.len (t : Cmd ν) : BitVec 32 :=
  t.type.fields.foldl (lenField t.vals) 0

/-! ### GEN_STRUCT_DECODE -/

/-- The cursor `buf`, counted from the start of the packet, and the struct. -/
structure DecodeState (ν : Type) where
  buf : Int
  vals : Values ν

/-- `Int16_decode` and its siblings. `base` is where the packet starts. -/
def decodeField (read : Reader) (base : Ptr) (st : DecodeState ν) :
    Field ν → Option (DecodeState ν)
  | ⟨.int16, name⟩ => do
      let v ← decodeInt16 read st.buf
      some { buf := st.buf + 2, vals := Function.update st.vals ⟨.int16, name⟩ v }
  | ⟨.int32, name⟩ => do
      let v ← decodeInt32 read st.buf
      some { buf := st.buf + 4, vals := Function.update st.vals ⟨.int32, name⟩ v }
  | ⟨.int64, name⟩ => do
      let v ← decodeInt64 read st.buf
      some { buf := st.buf + 8, vals := Function.update st.vals ⟨.int64, name⟩ v }
  | ⟨.fixedString len, name⟩ => do
      let v ← decodeFixedString read st.buf len
      some { buf := st.buf + len, vals := Function.update st.vals ⟨.fixedString len, name⟩ v }
  | ⟨.binaryBufRef hdr, name⟩ =>
      -- `int` arithmetic, widened to the `size_t` the length is kept in
      let length : BitVec 32 := st.vals packetLen - hdr
      let u : UvBuf := { base := some (base.add st.buf), len := length.signExtend 64 }
      some { buf := st.buf + length.toInt
             vals := Function.update st.vals ⟨.binaryBufRef hdr, name⟩ u }

def decodeFields (read : Reader) (base : Ptr) :
    DecodeState ν → List (Field ν) → Option (DecodeState ν)
  | st, [] => some st
  | st, f :: fs => do
      let st ← decodeField read base st f
      decodeFields read base st fs

/-- `cmd_name##_t_decode`: the members are read from the packet, and the
packet itself becomes the only slot. -/
def Cmd.decode (read : Reader) (base : Ptr) (len : BitVec 64) (t : Cmd ν) : Option (Cmd ν) := do
  let st ← decodeFields read base { buf := 0, vals := t.vals } t.type.fields
  some { t with
    vals := st.vals
    codecBuf := { t.codecBuf with
      originalBuf := some [some { base := some base, len := len }]
      originalBufLen := 1 } }

/-! ### GEN_STRUCT_BUFS_ALLOC -/

structure AllocState where
  bufLen : Nat
  isNew : Bool
deriving DecidableEq, Repr

/-- `Int16_alloc` and its siblings: the first walk over the fields, which counts
the slots. -/
def allocField (vals : Values ν) (st : AllocState) : Field ν → AllocState
  | ⟨.binaryBufRef hdr, name⟩ =>
      let u : UvBuf := vals ⟨.binaryBufRef hdr, name⟩
      if u.base ≠ none then { bufLen := st.bufLen + 1, isNew := true } else st
  | _ => if st.isNew then { bufLen := st.bufLen + 1, isNew := false } else st

/-! ### GEN_STRUCT_BUFS_INNER_ALLOC -/

structure InnerAllocState where
  heap : Heap
  slots : List (Option UvBuf)
  /-- the cursor `buf`, as an index of the array -/
  buf : Nat
  bufSize : Nat
  index : Nat
  isNew : Bool
  bitMap : BitVec 32
deriving DecidableEq, Repr

/-- Assign a slot; an index past the array has no result. -/
def setSlot (slots : List (Option UvBuf)) (i : Nat) (u : UvBuf) :
    Option (List (Option UvBuf)) :=
  if i < slots.length then some (slots.set i (some u)) else none

/-- How many bytes a field takes in a slot the encoder allocates. -/
def FieldType.width : FieldType → Nat
  | .int16 => 2
  | .int32 => 4
  | .int64 => 8
  | .fixedString len => len
  | .binaryBufRef _ => 0

/-- `buf->base=(char*)malloc(buf_size);buf->len=buf_size;` -/
def InnerAllocState.mallocSlot (st : InnerAllocState) : Option InnerAllocState := do
  let (heap, p) := st.heap.malloc st.bufSize
  let slots ← setSlot st.slots st.buf { base := some p, len := BitVec.ofNat 64 st.bufSize }
  some { st with heap := heap, slots := slots }

/-- `Int16_inner_alloc` and its siblings: size the slots and fill them. -/
def innerAllocField (vals : Values ν) (st : InnerAllocState) :
    Field ν → Option InnerAllocState
  | ⟨.binaryBufRef hdr, name⟩ =>
      let u : UvBuf := vals ⟨.binaryBufRef hdr, name⟩
      if u.base ≠ none then do
        let st ← st.mallocSlot
        let buf := st.buf + 1
        let index := st.index + 1
        let slots ← setSlot st.slots buf u
        some { st with
          slots := slots
          buf := buf + 1
          bufSize := 0
          index := index
          isNew := true
          bitMap := st.bitMap ||| (1 <<< index) }
      else some st
  | ⟨type, _⟩ => some { st with isNew := false, bufSize := st.bufSize + type.width }

def innerAllocFields (vals : Values ν) :
    InnerAllocState → List (Field ν) → Option InnerAllocState
  | st, [] => some st
  | st, f :: fs => do
      let st ← innerAllocField vals st f
      innerAllocFields vals st fs

/-- `cmd_name##_t_bufs_inner_alloc`. -/
def bufsInnerAlloc (h : Heap) (vals : Values ν) (fields : List (Field ν))
    (slots : List (Option UvBuf)) : Option InnerAllocState := do
  let st ← innerAllocFields vals
    { heap := h, slots := slots, buf := 0, bufSize := 0, index := 0, isNew := true, bitMap := 0 }
    fields
  if st.isNew then some st else st.mallocSlot

/-- `cmd_name##_t_bufs_alloc`. -/
def bufsAlloc (h : Heap) (vals : Values ν) (fields : List (Field ν)) :
    Option (Heap × CodecBuf) := do
  let count := fields.foldl (allocField vals) { bufLen := 0, isNew := true }
  let st ← bufsInnerAlloc h vals fields (List.replicate count.bufLen none)
  some (st.heap,
    { originalBuf := some st.slots
      originalBufLen := count.bufLen
      originalBufRefBitMap := st.bitMap })

/-! ### GEN_STRUCT_ENCODE -/

structure EncodeState where
  heap : Heap
  slots : List (Option UvBuf)
  /-- the cursor `packet`, as an index of the array -/
  packet : Nat
  /-- the cursor `buf`; not yet assigned when `none` -/
  buf : Option Ptr
  isNew : Bool
deriving DecidableEq, Repr

/-- `if(is_new){buf=packet->base;is_new=0;}` -/
def EncodeState.enter (st : EncodeState) : Option (EncodeState × Ptr) :=
  if st.isNew then do
    let u ← (st.slots[st.packet]?).join
    let p ← u.base
    some ({ st with buf := some p, isNew := false }, p)
  else do
    let p ← st.buf
    some (st, p)

/-- `Int16_encode` and its siblings: write through the slots. -/
def encodeField (vals : Values ν) (st : EncodeState) : Field ν → Option EncodeState
  | ⟨.int16, name⟩ => do
      let (st, buf) ← st.enter
      let h ← encodeInt16 st.heap buf 0 (vals ⟨.int16, name⟩)
      some { st with heap := h, buf := some (buf.add 2) }
  | ⟨.int32, name⟩ => do
      let (st, buf) ← st.enter
      let h ← encodeInt32 st.heap buf 0 (vals ⟨.int32, name⟩)
      some { st with heap := h, buf := some (buf.add 4) }
  | ⟨.int64, name⟩ => do
      let (st, buf) ← st.enter
      let h ← encodeInt64 st.heap buf 0 (vals ⟨.int64, name⟩)
      some { st with heap := h, buf := some (buf.add 8) }
  | ⟨.fixedString len, name⟩ => do
      let (st, buf) ← st.enter
      let h ← encodeFixedString st.heap buf (vals ⟨.fixedString len, name⟩)
      some { st with heap := h, buf := some (buf.add len) }
  | ⟨.binaryBufRef hdr, name⟩ =>
      let u : UvBuf := vals ⟨.binaryBufRef hdr, name⟩
      if u.base ≠ none then do
        let packet := st.packet + 1
        let slots ← setSlot st.slots packet u
        some { st with slots := slots, packet := packet + 1, isNew := true }
      else some st

def encodeFields (vals : Values ν) : EncodeState → List (Field ν) → Option EncodeState
  | st, [] => some st
  | st, f :: fs => do
      let st ← encodeField vals st f
      encodeFields vals st fs

/-- `cmd_name##_t_encode`. -/
def Cmd.encode (h : Heap) (t : Cmd ν) : Option (Heap × Cmd ν) := do
  let (h, codecBuf) ← bufsAlloc h t.vals t.type.fields
  let t := (t.set packetLen t.len).set cmd t.type.cmd
  let st ← encodeFields t.vals
    { heap := h, slots := codecBuf.originalBuf.getD [], packet := 0, buf := none, isNew := true }
    t.type.fields
  some (st.heap, { t with codecBuf := { codecBuf with originalBuf := some st.slots }, ref := 0 })

/-! ### GEN_STRUCT_DESTROY -/

/-- One of the things that a call of `cmd_name##_t_destroy` frees. -/
inductive Freed where
  /-- a char buffer, through the slot that holds its start -/
  | block (p : Ptr)
  /-- the array of slots -/
  | slots
  /-- the struct -/
  | struct
deriving DecidableEq, Repr

/-- The loop over the slots, from slot `i` on. A slot whose bit is set is
only forgotten. -/
def destroySlots (bitMap : BitVec 32) : Nat → List (Option UvBuf) → List Freed
  | _, [] => []
  | i, slot :: slots =>
      match slot.bind UvBuf.base with
      | some p =>
          if bitMap.getLsbD i then destroySlots bitMap (i + 1) slots
          else .block p :: destroySlots bitMap (i + 1) slots
      | none => destroySlots bitMap (i + 1) slots

/-- `cmd_name##_t_destroy`: one reference less, or everything freed. -/
def Cmd.destroy (t : Cmd ν) : Cmd ν × List Freed :=
  if t.ref ≠ 0 then ({ t with ref := t.ref - 1 }, [])
  else
    match t.codecBuf.originalBuf with
    | some slots =>
        (t, destroySlots t.codecBuf.originalBufRefBitMap 0
              (slots.take t.codecBuf.originalBufLen) ++ [.slots, .struct])
    | none => (t, [.struct])

/-- What the last `destroy` of a packet frees. -/
def Cmd.frees (t : Cmd ν) : List Freed := ({ t with ref := 0 } : Cmd ν).destroy.2

omit [DecidableEq ν] in
theorem Cmd.destroy_last {t : Cmd ν} (h : t.ref = 0) : t.destroy = (t, t.frees) := by
  obtain ⟨type, codecBuf, data, ref, vals⟩ := t
  obtain rfl : ref = 0 := h
  simp only [frees, destroy]
  split
  · contradiction
  · cases codecBuf.originalBuf <;> rfl

omit [DecidableEq ν] in
theorem Cmd.destroy_shared {t : Cmd ν} (h : t.ref ≠ 0) :
    t.destroy = ({ t with ref := t.ref - 1 }, []) := if_pos h

/-- A slot of the packet points into buffer `b`. -/
def Cmd.Uses (t : Cmd ν) (b : Nat) : Prop :=
  ∃ slots, t.codecBuf.originalBuf = some slots ∧
    ∃ u p, some u ∈ slots ∧ u.base = some p ∧ p.block = b

theorem mem_destroySlots {bitMap : BitVec 32} {i : Nat} {slots : List (Option UvBuf)} {x : Freed}
    (h : x ∈ destroySlots bitMap i slots) :
    ∃ u p, some u ∈ slots ∧ u.base = some p ∧ x = .block p := by
  induction slots generalizing i with
  | nil => cases h
  | cons slot slots ih =>
      have hrest : x ∈ destroySlots bitMap (i + 1) slots →
          ∃ u p, some u ∈ slot :: slots ∧ u.base = some p ∧ x = .block p := fun h => by
        obtain ⟨u, p, hu, hp, hx⟩ := ih h
        exact ⟨u, p, List.mem_cons_of_mem _ hu, hp, hx⟩
      rw [destroySlots] at h
      split at h
      next p hp =>
        split at h
        · exact hrest h
        · rcases List.mem_cons.mp h with rfl | h
          · obtain ⟨u, rfl, hu⟩ := Option.bind_eq_some_iff.mp hp
            exact ⟨u, p, List.mem_cons_self .., hu, rfl⟩
          · exact hrest h
      next => exact hrest h

omit [DecidableEq ν] in
/-- Only buffers it points into are freed with a packet. -/
theorem Cmd.uses_of_frees {t : Cmd ν} {p : Ptr} (h : .block p ∈ t.frees) : t.Uses p.block := by
  rw [frees, destroy, if_neg (by simp)] at h
  dsimp only at h
  split at h
  next slots hslots =>
    have h : Freed.block p ∈ destroySlots t.codecBuf.originalBufRefBitMap 0
        (slots.take t.codecBuf.originalBufLen) := by simpa using h
    obtain ⟨u, q, hu, hq, heq⟩ := mem_destroySlots h
    obtain rfl := Freed.block.inj heq
    exact ⟨slots, hslots, u, p, List.mem_of_mem_take hu, hq, rfl⟩
  next => simp at h

/-- `proto_cmd_t_increase_ref`. -/
def Cmd.increaseRef (t : Cmd ν) : Cmd ν := { t with ref := t.ref + 1 }

/-- What a write of the packet sends: its `original_buf_len` slots, one after
another. -/
def Cmd.wire (h : Heap) (t : Cmd ν) : Option (List Byte) := do
  let slots ← t.codecBuf.originalBuf
  let bufs ← (slots.take t.codecBuf.originalBufLen).mapM id
  h.gather bufs

end Walks

end Smts
