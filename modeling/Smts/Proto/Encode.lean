import Smts.Proto.Nvmp
import Mathlib.Tactic.Ring

/-!
# Proto — what the encoder writes

`encode` runs four walks over the fields of a packet. For a declaration that
is a run of fixed-width fields, possibly followed by one payload reference,
each walk is computed here in closed form; together they say that the slots
hold the reference serialization of the struct and nothing else was touched.
Every packet of `PROTOCOL_MAP` is declared so.
-/

namespace Smts

/-! ## The reference wire format -/

section Reference

variable {ν : Type}

def FieldType.isRef : FieldType → Bool
  | .binaryBufRef _ => true
  | _ => false

/-- A field's bytes on the wire: integers big-endian at their width, fixed
strings verbatim. A payload is not part of the fixed layout. -/
def FieldType.ser : (k : FieldType) → k.Val → List Byte
  | .int16, v => BigEndian.bytes 2 v
  | .int32, v => BigEndian.bytes 4 v
  | .int64, v => BigEndian.bytes 8 v
  | .fixedString _, v => v.toList
  | .binaryBufRef _, _ => []

/-- What a reference points at; `NULL` is the empty payload. -/
def Heap.payload (h : Heap) (u : UvBuf) : Option (List Byte) :=
  match u.base with
  | some p => h.loadBytes p u.len.toNat
  | none => some []

def serializeField (h : Heap) (vals : Values ν) : Field ν → Option (List Byte)
  | ⟨.binaryBufRef hdr, name⟩ => h.payload (vals ⟨.binaryBufRef hdr, name⟩)
  | f => some (f.type.ser (vals f))

/-- **The reference serialization**: the declared fields in declaration
order. -/
def serialize (h : Heap) (vals : Values ν) : List (Field ν) → Option (List Byte)
  | [] => some []
  | f :: fs => do
      let bs ← serializeField h vals f
      let rest ← serialize h vals fs
      some (bs ++ rest)

/-- The bytes of fixed-width fields, one field behind the other. -/
def serFixed (vals : Values ν) (fs : List (Field ν)) : List Byte :=
  fs.flatMap fun f => f.type.ser (vals f)

/-- The width of the fixed-width fields together, in bytes. -/
def prefixLen (fs : List (Field ν)) : Nat := (fs.map fun f => f.type.width).sum

@[simp] theorem prefixLen_cons (f : Field ν) (fs : List (Field ν)) :
    prefixLen (f :: fs) = f.type.width + prefixLen fs := by
  simp [prefixLen]

@[simp] theorem prefixLen_nil : prefixLen ([] : List (Field ν)) = 0 := rfl

theorem FieldType.length_ser (k : FieldType) (v : k.Val) : (k.ser v).length = k.width := by
  cases k with
  | fixedString len => exact v.toList_length
  | _ => simp [FieldType.ser, FieldType.width]

theorem length_serFixed (vals : Values ν) (fs : List (Field ν)) :
    (serFixed vals fs).length = prefixLen fs := by
  induction fs with
  | nil => rfl
  | cons f fs ih =>
      rw [prefixLen_cons, ← ih, ← f.type.length_ser (vals f)]
      simp [serFixed]

/-- The bytes a field takes in the packet, as a number: no `int` is involved. -/
def fieldSize (vals : Values ν) : Field ν → Nat
  | ⟨.binaryBufRef hdr, name⟩ =>
      let u : UvBuf := vals ⟨.binaryBufRef hdr, name⟩
      if u.base ≠ none then u.len.toNat else 0
  | f => f.type.width

/-- The total length of a packet, as a number. -/
def Cmd.size (t : Cmd ν) : Nat := (t.type.fields.map (fieldSize t.vals)).sum

theorem sum_fieldSize_fixed (vals : Values ν) {F : List (Field ν)}
    (hF : ∀ f ∈ F, f.type.isRef = false) : (F.map (fieldSize vals)).sum = prefixLen F := by
  rw [prefixLen]
  congr 1
  apply List.map_congr_left
  rintro ⟨k, name⟩ hf
  have hk := hF _ hf
  cases k with
  | binaryBufRef hdr => simp [FieldType.isRef] at hk
  | _ => rfl

end Reference

section Walks

variable {ν : Type}

/-! ## The walks over fixed-width fields -/

/-- Counting: a run of fixed-width fields opens at most one slot. -/
theorem foldl_allocField_open (vals : Values ν) {F : List (Field ν)}
    (hF : ∀ f ∈ F, f.type.isRef = false) (n : Nat) :
    F.foldl (allocField vals) { bufLen := n, isNew := false }
      = { bufLen := n, isNew := false } := by
  induction F with
  | nil => rfl
  | cons f F ih =>
      obtain ⟨k, name⟩ := f
      have hk := hF ⟨k, name⟩ (List.mem_cons_self ..)
      rw [List.foldl_cons]
      cases k with
      | binaryBufRef hdr => simp [FieldType.isRef] at hk
      | _ => exact ih (fun g hg => hF g (List.mem_cons_of_mem _ hg))

theorem foldl_allocField_fixed (vals : Values ν) {F : List (Field ν)}
    (hF : ∀ f ∈ F, f.type.isRef = false) (hne : F ≠ []) :
    F.foldl (allocField vals) { bufLen := 0, isNew := true }
      = { bufLen := 1, isNew := false } := by
  cases F with
  | nil => exact absurd rfl hne
  | cons f F =>
      obtain ⟨k, name⟩ := f
      have hk := hF ⟨k, name⟩ (List.mem_cons_self ..)
      rw [List.foldl_cons, ← foldl_allocField_open vals
        (fun g hg => hF g (List.mem_cons_of_mem _ hg)) 1]
      cases k with
      | binaryBufRef hdr => simp [FieldType.isRef] at hk
      | _ => rfl

theorem innerAllocFields_append (vals : Values ν) (st : InnerAllocState)
    (F G : List (Field ν)) :
    innerAllocFields vals st (F ++ G)
      = (innerAllocFields vals st F).bind fun st => innerAllocFields vals st G := by
  induction F generalizing st with
  | nil => rfl
  | cons f F ih =>
      simp only [List.cons_append, innerAllocFields, Option.bind_eq_bind, Option.bind_assoc, ih]

/-- Sizing: a run of fixed-width fields adds up its widths. -/
theorem innerAllocFields_fixed (vals : Values ν) (st : InnerAllocState) {F : List (Field ν)}
    (hF : ∀ f ∈ F, f.type.isRef = false) (hne : F ≠ []) :
    innerAllocFields vals st F
      = some { st with isNew := false, bufSize := st.bufSize + prefixLen F } := by
  induction F generalizing st with
  | nil => exact absurd rfl hne
  | cons f F ih =>
      obtain ⟨k, name⟩ := f
      have hk := hF ⟨k, name⟩ (List.mem_cons_self ..)
      have hstep : innerAllocField vals st ⟨k, name⟩
          = some { st with isNew := false, bufSize := st.bufSize + k.width } := by
        cases k with
        | binaryBufRef hdr => simp [FieldType.isRef] at hk
        | _ => rfl
      simp only [innerAllocFields, hstep, Option.bind_eq_bind, Option.bind_some, prefixLen_cons]
      by_cases hF' : F = []
      · subst hF'
        simp [innerAllocFields]
      · rw [ih _ (fun g hg => hF g (List.mem_cons_of_mem _ hg)) hF']
        simp [Nat.add_assoc]

/-- The length that is measured over fixed-width fields is the sum of their
widths, modulo `2^32`. -/
theorem foldl_lenField_fixed (vals : Values ν) (len : BitVec 32) {F : List (Field ν)}
    (hF : ∀ f ∈ F, f.type.isRef = false) :
    F.foldl (lenField vals) len = len + BitVec.ofNat 32 (prefixLen F) := by
  induction F generalizing len with
  | nil => simp
  | cons f F ih =>
      obtain ⟨k, name⟩ := f
      have hk := hF ⟨k, name⟩ (List.mem_cons_self ..)
      have hstep : lenField vals len ⟨k, name⟩ = len + BitVec.ofNat 32 k.width := by
        cases k with
        | binaryBufRef hdr => simp [FieldType.isRef] at hk
        | _ => rfl
      rw [List.foldl_cons, hstep, ih _ (fun g hg => hF g (List.mem_cons_of_mem _ hg)),
        prefixLen_cons, BitVec.add_assoc, BitVec.ofNat_add]

theorem encodeFields_append (vals : Values ν) (st : EncodeState) (F G : List (Field ν)) :
    encodeFields vals st (F ++ G)
      = (encodeFields vals st F).bind fun st => encodeFields vals st G := by
  induction F generalizing st with
  | nil => rfl
  | cons f F ih =>
      simp only [List.cons_append, encodeFields, Option.bind_eq_bind, Option.bind_assoc, ih]

/-- Writing one fixed-width field: its bytes go where the cursor stands. -/
theorem encodeField_fixed (vals : Values ν) {st st' : EncodeState} {p : Ptr} {f : Field ν}
    (hf : f.type.isRef = false) (he : st.enter = some (st', p)) :
    encodeField vals st f
      = (st'.heap.storeBytes p (f.type.ser (vals f))).map fun h =>
          { st' with heap := h, buf := some (p.add f.type.width) } := by
  obtain ⟨k, name⟩ := f
  have hp : p.add 0 = p := by simp [Ptr.add]
  cases k with
  | binaryBufRef hdr => simp [FieldType.isRef] at hf
  | int16 =>
      simp only [encodeField, he, encodeInt16, encodeInt_eq _ _ _ _ (Nat.le_refl (8 * 2)), hp,
        Option.bind_eq_bind, Option.bind_some, Option.map_eq_bind]
      rfl
  | int32 =>
      simp only [encodeField, he, encodeInt32, encodeInt_eq _ _ _ _ (Nat.le_refl (8 * 4)), hp,
        Option.bind_eq_bind, Option.bind_some, Option.map_eq_bind]
      rfl
  | int64 =>
      simp only [encodeField, he, encodeInt64, encodeInt_eq _ _ _ _ (Nat.le_refl (8 * 8)), hp,
        Option.bind_eq_bind, Option.bind_some, Option.map_eq_bind]
      rfl
  | fixedString len =>
      simp only [encodeField, he, encodeFixedString, Option.bind_eq_bind, Option.bind_some,
        Option.map_eq_bind]
      rfl

/-- Writing a run of fixed-width fields into the buffer the cursor is in. -/
theorem encodeFields_open (vals : Values ν) {F : List (Field ν)}
    (hF : ∀ f ∈ F, f.type.isRef = false) (B : List (List (Option Byte)))
    (slots : List (Option UvBuf)) (packet k : Nat) (written : List Byte) :
    encodeFields vals
        { heap := Heap.pending B written (prefixLen F + k), slots := slots, packet := packet,
          buf := some ⟨B.length, written.length⟩, isNew := false } F
      = some { heap := Heap.pending B (written ++ serFixed vals F) k, slots := slots,
               packet := packet,
               buf := some ⟨B.length, ((written ++ serFixed vals F).length : Nat)⟩,
               isNew := false } := by
  induction F generalizing written with
  | nil => simp [encodeFields, serFixed]
  | cons f F ih =>
      have hlen := f.type.length_ser (vals f)
      have hser : serFixed vals (f :: F) = f.type.ser (vals f) ++ serFixed vals F := by
        simp [serFixed]
      have hnext : (⟨B.length, (written.length : Int)⟩ : Ptr).add f.type.width
          = ⟨B.length, ((written ++ f.type.ser (vals f)).length : Nat)⟩ := by
        simp [Ptr.add, hlen]
      rw [encodeFields, encodeField_fixed vals (p := ⟨B.length, written.length⟩)
        (hF f (List.mem_cons_self ..)) (by rfl), prefixLen_cons, ← hlen, Nat.add_assoc,
        Heap.storeBytes_pending]
      simp only [Option.map_some, Option.bind_eq_bind, Option.bind_some]
      rw [hlen, hnext, ih (fun g hg => hF g (List.mem_cons_of_mem _ hg)), hser, List.append_assoc]

/-- The same when the cursor first has to enter its slot. -/
theorem encodeFields_fixed (vals : Values ν) {F : List (Field ν)}
    (hF : ∀ f ∈ F, f.type.isRef = false) (hne : F ≠ []) (B : List (List (Option Byte)))
    {slots : List (Option UvBuf)} {packet : Nat} {len : BitVec 64}
    (hslot : slots[packet]? = some (some { base := some ⟨B.length, 0⟩, len := len })) :
    encodeFields vals
        { heap := Heap.pending B [] (prefixLen F), slots := slots, packet := packet,
          buf := none, isNew := true } F
      = some { heap := Heap.pending B (serFixed vals F) 0, slots := slots, packet := packet,
               buf := some ⟨B.length, prefixLen F⟩, isNew := false } := by
  have hopen := encodeFields_open vals hF B slots packet 0 []
  simp only [Nat.add_zero, List.nil_append, List.length_nil, Int.natCast_zero,
    length_serFixed] at hopen
  rw [← hopen]
  cases F with
  | nil => exact absurd rfl hne
  | cons f F =>
      have hf := hF f (List.mem_cons_self ..)
      rw [encodeFields, encodeFields]
      congr 1
      rw [encodeField_fixed vals (p := ⟨B.length, 0⟩) hf
          (by simp only [EncodeState.enter, if_true, hslot]; rfl),
        encodeField_fixed vals (p := ⟨B.length, 0⟩) hf (by rfl)]

/-! ## Absent payloads -/

/-- The payload reference a field is, when it is one and not `NULL`. -/
def payloadRef (vals : Values ν) : Field ν → Option UvBuf
  | ⟨.binaryBufRef hdr, name⟩ =>
      let u : UvBuf := vals ⟨.binaryBufRef hdr, name⟩
      if u.base ≠ none then some u else none
  | _ => none

/-- The fields `R` are payload references, and all of them are `NULL`. -/
def NullRefs (vals : Values ν) (R : List (Field ν)) : Prop :=
  ∀ f ∈ R, f.type.isRef = true ∧ payloadRef vals f = none

theorem NullRefs.base {vals : Values ν} {hdr : BitVec 32} {name : FieldName ν}
    {R : List (Field ν)} (h : NullRefs vals (⟨.binaryBufRef hdr, name⟩ :: R)) :
    (vals ⟨.binaryBufRef hdr, name⟩ : UvBuf).base = none := by
  have := (h _ (List.mem_cons_self ..)).2
  by_contra hb
  simp [payloadRef, hb] at this

theorem NullRefs.tail {vals : Values ν} {f : Field ν} {R : List (Field ν)}
    (h : NullRefs vals (f :: R)) : NullRefs vals R :=
  fun g hg => h g (List.mem_cons_of_mem _ hg)

/-- None of the walks does anything at a `NULL` payload. -/
theorem NullRefs.walks {vals : Values ν} {R : List (Field ν)} (h : NullRefs vals R) :
    (∀ st, R.foldl (allocField vals) st = st) ∧
    (∀ st, innerAllocFields vals st R = some st) ∧
    (∀ len, R.foldl (lenField vals) len = len) ∧
    (∀ st, encodeFields vals st R = some st) ∧
    (∀ hp, serialize hp vals R = some []) := by
  induction R with
  | nil => exact ⟨fun _ => rfl, fun _ => rfl, fun _ => rfl, fun _ => rfl, fun _ => rfl⟩
  | cons f R ih =>
      obtain ⟨k, name⟩ := f
      have hk := (h _ (List.mem_cons_self ..)).1
      cases k with
      | binaryBufRef hdr =>
          have hb := h.base
          obtain ⟨h₁, h₂, h₃, h₄, h₅⟩ := ih h.tail
          refine ⟨fun st => ?_, fun st => ?_, fun len => ?_, fun st => ?_, fun hp => ?_⟩
          · simp [List.foldl_cons, allocField, hb, h₁]
          · simp [innerAllocFields, innerAllocField, hb, h₂]
          · simp [List.foldl_cons, lenField, hb, h₃]
          · simp [encodeFields, encodeField, hb, h₄]
          · simp [serialize, serializeField, Heap.payload, hb, h₅]
      | _ => simp [FieldType.isRef] at hk

theorem serialize_append (hp : Heap) (vals : Values ν) (F G : List (Field ν)) :
    serialize hp vals (F ++ G)
      = (serialize hp vals F).bind fun bs => (serialize hp vals G).map (bs ++ ·) := by
  induction F with
  | nil => cases h : serialize hp vals G <;> simp [serialize, h]
  | cons f F ih =>
      simp only [List.cons_append, serialize, ih, Option.bind_eq_bind, Option.bind_assoc]
      congr 1
      funext bs
      cases serialize hp vals F <;> cases serialize hp vals G <;> simp [List.append_assoc]

theorem serialize_fixed (hp : Heap) (vals : Values ν) {F : List (Field ν)}
    (hF : ∀ f ∈ F, f.type.isRef = false) :
    serialize hp vals F = some (serFixed vals F) := by
  induction F with
  | nil => rfl
  | cons f F ih =>
      obtain ⟨k, name⟩ := f
      have hk := hF ⟨k, name⟩ (List.mem_cons_self ..)
      have hstep : serializeField hp vals ⟨k, name⟩ = some (k.ser (vals ⟨k, name⟩)) := by
        cases k with
        | binaryBufRef hdr => simp [FieldType.isRef] at hk
        | _ => rfl
      rw [serialize, hstep, ih (fun g hg => hF g (List.mem_cons_of_mem _ hg))]
      simp [serFixed]

end Walks

/-! ## The encoder in closed form -/

section Encoder

variable {ν : Type} [DecidableEq ν]

/-- The struct with the two members `encode` assigns itself. -/
def Cmd.stamped (t : Cmd ν) : Cmd ν :=
  (t.set packetLen t.len).set cmd t.type.cmd

/-- The slot allocated for the fixed part: all of the next buffer. -/
def headSlot (h : Heap) (n : Nat) : UvBuf :=
  { base := some ⟨h.blocks.length, 0⟩, len := BitVec.ofNat 64 n }

@[simp] theorem Cmd.stamped_type (t : Cmd ν) : t.stamped.type = t.type := rfl

@[simp] theorem Cmd.stamped_cmd (t : Cmd ν) : t.stamped.vals cmd = t.type.cmd := by
  simp [Cmd.stamped, Cmd.set]

@[simp] theorem Cmd.stamped_packetLen (t : Cmd ν) : t.stamped.vals packetLen = t.len := by
  simp [Cmd.stamped, Cmd.set]

theorem Cmd.stamped_vals (t : Cmd ν) {f : Field ν} (h₁ : f ≠ packetLen) (h₂ : f ≠ cmd) :
    t.stamped.vals f = t.vals f := by
  simp [Cmd.stamped, Cmd.set, Function.update_of_ne h₁, Function.update_of_ne h₂]

theorem Cmd.stamped_ref (t : Cmd ν) (hdr : BitVec 32) (name : FieldName ν) :
    t.stamped.vals ⟨.binaryBufRef hdr, name⟩ = t.vals ⟨.binaryBufRef hdr, name⟩ :=
  t.stamped_vals (by simp) (by simp)

theorem NullRefs.stamped {t : Cmd ν} {R : List (Field ν)} (h : NullRefs t.vals R) :
    NullRefs t.stamped.vals R := by
  intro f hf
  refine ⟨(h f hf).1, ?_⟩
  rw [← (h f hf).2]
  obtain ⟨k, name⟩ := f
  cases k with
  | binaryBufRef hdr => simp only [payloadRef, t.stamped_ref]
  | _ => rfl

/-- **Without a payload** the packet is one slot, allocated and filled. -/
theorem encode_flat (h : Heap) (t : Cmd ν) {F R : List (Field ν)}
    (hT : t.type.fields = F ++ R) (hF : ∀ f ∈ F, f.type.isRef = false) (hne : F ≠ [])
    (hR : NullRefs t.vals R) :
    t.encode h
      = some (Heap.pending h.blocks (serFixed t.stamped.vals F) 0,
          { t.stamped with
            codecBuf :=
              { originalBuf := some [some (headSlot h (prefixLen F))]
                originalBufLen := 1
                originalBufRefBitMap := 0 }
            ref := 0 }) := by
  obtain ⟨hcount, hinner, -, -, -⟩ := hR.walks
  obtain ⟨-, -, -, hwrite, -⟩ := hR.stamped.walks
  have hslots : bufsAlloc h t.vals t.type.fields
      = some (Heap.pending h.blocks [] (prefixLen F),
          { originalBuf := some [some (headSlot h (prefixLen F))]
            originalBufLen := 1
            originalBufRefBitMap := 0 }) := by
    rw [bufsAlloc, hT, List.foldl_append, foldl_allocField_fixed t.vals hF hne, hcount,
      bufsInnerAlloc, innerAllocFields_append, innerAllocFields_fixed t.vals _ hF hne]
    simp [hinner, InnerAllocState.mallocSlot, setSlot, Heap.malloc_pending, headSlot]
  rw [Cmd.encode, hslots]
  simp only [Option.bind_eq_bind, Option.bind_some, Option.getD_some]
  rw [show (t.set packetLen t.len).set cmd t.type.cmd = t.stamped from rfl, t.stamped_type, hT,
    encodeFields_append, encodeFields_fixed _ hF hne h.blocks (by rfl)]
  simp [hwrite]

/-- **With a payload** the fixed part is one slot, and the payload itself,
not copied, the other. -/
theorem encode_ref (h : Heap) (t : Cmd ν) {F : List (Field ν)} {hdr : BitVec 32}
    {name : FieldName ν} (hT : t.type.fields = F ++ [⟨.binaryBufRef hdr, name⟩])
    (hF : ∀ f ∈ F, f.type.isRef = false) (hne : F ≠ [])
    (hu : (t.vals ⟨.binaryBufRef hdr, name⟩ : UvBuf).base ≠ none) :
    t.encode h
      = some (Heap.pending h.blocks (serFixed t.stamped.vals F) 0,
          { t.stamped with
            codecBuf :=
              { originalBuf := some [some (headSlot h (prefixLen F)),
                  some (t.vals ⟨.binaryBufRef hdr, name⟩)]
                originalBufLen := 2
                originalBufRefBitMap := 2 }
            ref := 0 }) := by
  have hslots : bufsAlloc h t.vals t.type.fields
      = some (Heap.pending h.blocks [] (prefixLen F),
          { originalBuf := some [some (headSlot h (prefixLen F)),
              some (t.vals ⟨.binaryBufRef hdr, name⟩)]
            originalBufLen := 2
            originalBufRefBitMap := 2 }) := by
    rw [bufsAlloc, hT, List.foldl_append, foldl_allocField_fixed t.vals hF hne,
      bufsInnerAlloc, innerAllocFields_append, innerAllocFields_fixed t.vals _ hF hne]
    simp [innerAllocFields, innerAllocField, allocField, hu, InnerAllocState.mallocSlot, setSlot,
      Heap.malloc_pending, headSlot, List.replicate_succ]
  rw [Cmd.encode, hslots]
  simp only [Option.bind_eq_bind, Option.bind_some, Option.getD_some]
  rw [show (t.set packetLen t.len).set cmd t.type.cmd = t.stamped from rfl, t.stamped_type, hT,
    encodeFields_append, encodeFields_fixed _ hF hne h.blocks (by rfl)]
  simp [encodeFields, encodeField, hu, setSlot, t.stamped_ref]

end Encoder

end Smts
