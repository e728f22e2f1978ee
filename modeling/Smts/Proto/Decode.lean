import Smts.Proto.Format

/-!
# Proto — what the decoder reads

The decoder's walk over fixed-width fields in closed form: it takes as many
bytes as the fields are wide, and the members it leaves serialize to exactly
these bytes. On the packets without a payload this makes decoding and
encoding inverse to each other.
-/

namespace Smts

/-! ## Taking bytes -/

theorem Reader.take_add (read : Reader) (buf : Int) (m n : Nat) :
    read.take buf (m + n)
      = (read.take buf m).bind fun bs => (read.take (buf + m) n).map (bs ++ ·) := by
  induction m generalizing buf with
  | zero => simp [Reader.take]
  | succ m ih =>
      rw [show m + 1 + n = m + n + 1 by omega]
      simp only [Reader.take, Option.bind_eq_bind, Option.bind_assoc, ih]
      rw [show buf + ((m + 1 : Nat) : Int) = buf + 1 + m by push_cast; omega]
      congr 1
      funext b
      cases read.take (buf + 1) m with
      | none => rfl
      | some bs => cases read.take (buf + 1 + m) n <;> rfl

/-- Inside the packet everything can be taken, past its end nothing. -/
theorem Reader.take_within (bytes : List Byte) (i n : Nat) (hi : i ≤ bytes.length) :
    (Reader.within bytes).take i n
      = if i + n ≤ bytes.length then some ((bytes.drop i).take n) else none := by
  induction n generalizing i with
  | zero => simp [Reader.take, hi]
  | succ n ih =>
      rw [Reader.take, Reader.within]
      by_cases hlt : i < bytes.length
      · rw [show (i : Int) + 1 = ((i + 1 : Nat) : Int) by push_cast; rfl, ih (i + 1) hlt]
        simp only [Int.natCast_nonneg, if_true, Int.toNat_natCast,
          List.getElem?_eq_getElem hlt, Option.bind_eq_bind, Option.bind_some]
        rw [show i + 1 + n = i + (n + 1) by omega]
        split
        · rw [List.drop_eq_getElem_cons hlt, List.take_succ_cons]
          rfl
        · rfl
      · have hnone : bytes[i]? = none := List.getElem?_eq_none (by omega)
        simp only [Int.natCast_nonneg, if_true, Int.toNat_natCast, hnone]
        rw [if_neg (by omega)]
        rfl

theorem Reader.take_within_zero (bytes : List Byte) {n : Nat} (hn : n ≤ bytes.length) :
    (Reader.within bytes).take 0 n = some (bytes.take n) := by
  have := Reader.take_within bytes 0 n (by omega)
  simpa [hn] using this

/-- What lies around a packet does not matter to who stays inside. -/
theorem Reader.take_beyond {bytes : List Byte} (junk : Int → Byte) {i : Int} {n : Nat}
    {bs : List Byte} (h : (Reader.within bytes).take i n = some bs) :
    (Reader.beyond bytes junk).take i n = some bs := by
  induction n generalizing i bs with
  | zero => exact h
  | succ n ih =>
      simp only [Reader.take, Option.bind_eq_bind] at h ⊢
      obtain ⟨b, hb, h⟩ := Option.bind_eq_some_iff.mp h
      obtain ⟨rest, hrest, h⟩ := Option.bind_eq_some_iff.mp h
      rw [Reader.beyond, hb, Option.getD_some, Option.bind_some, ih hrest]
      exact h

/-- Where memory goes on around the packet, there is always something to read. -/
theorem Reader.take_beyond_some (bytes : List Byte) (junk : Int → Byte) (i : Int) (n : Nat) :
    ∃ bs, (Reader.beyond bytes junk).take i n = some bs := by
  induction n generalizing i with
  | zero => exact ⟨[], rfl⟩
  | succ n ih =>
      obtain ⟨bs, hbs⟩ := ih (i + 1)
      exact ⟨_, by rw [Reader.take, Reader.beyond, hbs]; rfl⟩

section Fields

variable {ν : Type}

/-! ## Fields and their bytes -/

/-- The bytes that were taken, as a vector of the length that was asked for. -/
def taken {read : Reader} {buf : Int} {n : Nat} {bs : List Byte}
    (h : read.take buf n = some bs) : List.Vector Byte n :=
  ⟨bs, Reader.length_take h⟩

@[simp] theorem taken_toList {read : Reader} {buf : Int} {n : Nat} {bs : List Byte}
    (h : read.take buf n = some bs) : (taken h).toList = bs := rfl

/-- The value of a fixed-width field, decoded from as many bytes as it is wide. -/
def FieldType.deser : (k : FieldType) → List.Vector Byte k.width → k.Val
  | .int16, bs => BigEndian.value 16 bs.toList
  | .int32, bs => BigEndian.value 32 bs.toList
  | .int64, bs => BigEndian.value 64 bs.toList
  | .fixedString _, bs => bs
  | .binaryBufRef _, _ => { base := none, len := 0 }

theorem FieldType.ser_deser {k : FieldType} (hk : k.isRef = false)
    (bs : List.Vector Byte k.width) : k.ser (k.deser bs) = bs.toList := by
  cases k with
  | binaryBufRef hdr => simp [FieldType.isRef] at hk
  | fixedString len => rfl
  | int16 => exact BigEndian.bytes_value bs.toList_length
  | int32 => exact BigEndian.bytes_value bs.toList_length
  | int64 => exact BigEndian.bytes_value bs.toList_length

theorem FieldType.ser_injective {k : FieldType} (hk : k.isRef = false) {v w : k.Val}
    (h : k.ser v = k.ser w) : v = w := by
  cases k with
  | binaryBufRef hdr => simp [FieldType.isRef] at hk
  | fixedString len => exact List.Vector.toList_injective h
  | int16 =>
      have := congrArg (BigEndian.value (8 * 2)) h
      rwa [FieldType.ser, FieldType.ser, BigEndian.value_bytes, BigEndian.value_bytes] at this
  | int32 =>
      have := congrArg (BigEndian.value (8 * 4)) h
      rwa [FieldType.ser, FieldType.ser, BigEndian.value_bytes, BigEndian.value_bytes] at this
  | int64 =>
      have := congrArg (BigEndian.value (8 * 8)) h
      rwa [FieldType.ser, FieldType.ser, BigEndian.value_bytes, BigEndian.value_bytes] at this

/-- The bytes of fixed-width fields determine the fields. -/
theorem serFixed_injective {vals vals' : Values ν} {F : List (Field ν)}
    (hF : ∀ f ∈ F, f.type.isRef = false) (h : serFixed vals F = serFixed vals' F) :
    ∀ f ∈ F, vals f = vals' f := by
  induction F with
  | nil => intro f hf; cases hf
  | cons g F ih =>
      simp only [serFixed, List.flatMap_cons] at h
      obtain ⟨hg, htl⟩ := List.append_inj h (by rw [g.type.length_ser, g.type.length_ser])
      intro f hf
      rcases List.mem_cons.mp hf with rfl | hf
      · exact FieldType.ser_injective (hF f (List.mem_cons_self ..)) hg
      · exact ih (fun g hg => hF g (List.mem_cons_of_mem _ hg)) htl f hf

theorem serFixed_congr {vals vals' : Values ν} {F : List (Field ν)}
    (h : ∀ f ∈ F, vals f = vals' f) : serFixed vals F = serFixed vals' F := by
  induction F with
  | nil => rfl
  | cons g F ih =>
      simp only [serFixed, List.flatMap_cons] at ih ⊢
      rw [h g (List.mem_cons_self ..), ih (fun f hf => h f (List.mem_cons_of_mem _ hf))]

end Fields

section Walk

variable {ν : Type} [DecidableEq ν]

/-! ## The walk over fixed-width fields -/

theorem decodeFixedString_some {read : Reader} {buf : Int} {len : Nat} {bs : List Byte}
    (h : read.take buf len = some bs) :
    decodeFixedString read buf len = some (taken h) := by
  unfold decodeFixedString
  split
  · next bs' h' =>
      obtain rfl : bs = bs' := Option.some.inj (h.symm.trans h')
      rfl
  · next h' => rw [h] at h'; cases h'

theorem decodeFixedString_none {read : Reader} {buf : Int} {len : Nat}
    (h : read.take buf len = none) : decodeFixedString read buf len = none := by
  unfold decodeFixedString
  split
  · next bs' h' => rw [h] at h'; cases h'
  · rfl

theorem decodeField_some {read : Reader} (base : Ptr) (st : DecodeState ν) {f : Field ν}
    (hf : f.type.isRef = false) {bs : List Byte} (h : read.take st.buf f.type.width = some bs) :
    decodeField read base st f
      = some { buf := st.buf + f.type.width
               vals := Function.update st.vals f (f.type.deser (taken h)) } := by
  obtain ⟨k, name⟩ := f
  cases k with
  | binaryBufRef hdr => simp [FieldType.isRef] at hf
  | fixedString len =>
      have h : read.take st.buf len = some bs := h
      simp only [decodeField, decodeFixedString_some h, Option.bind_eq_bind, Option.bind_some]
      rfl
  | int16 =>
      simp only [FieldType.width] at h
      simp only [decodeField, decodeInt16, decodeInt_value, h, Option.bind_eq_bind,
        Option.map_some, Option.bind_some]
      rfl
  | int32 =>
      simp only [FieldType.width] at h
      simp only [decodeField, decodeInt32, decodeInt_value, h, Option.bind_eq_bind,
        Option.map_some, Option.bind_some]
      rfl
  | int64 =>
      simp only [FieldType.width] at h
      simp only [decodeField, decodeInt64, decodeInt_value, h, Option.bind_eq_bind,
        Option.map_some, Option.bind_some]
      rfl

theorem decodeField_none {read : Reader} (base : Ptr) (st : DecodeState ν) {f : Field ν}
    (hf : f.type.isRef = false) (h : read.take st.buf f.type.width = none) :
    decodeField read base st f = none := by
  obtain ⟨k, name⟩ := f
  cases k with
  | binaryBufRef hdr => simp [FieldType.isRef] at hf
  | fixedString len =>
      have h : read.take st.buf len = none := h
      simp only [decodeField, decodeFixedString_none h, Option.bind_eq_bind, Option.bind_none]
  | int16 =>
      simp only [FieldType.width] at h
      simp only [decodeField, decodeInt16, decodeInt_value, h, Option.bind_eq_bind,
        Option.map_none, Option.bind_none]
  | int32 =>
      simp only [FieldType.width] at h
      simp only [decodeField, decodeInt32, decodeInt_value, h, Option.bind_eq_bind,
        Option.map_none, Option.bind_none]
  | int64 =>
      simp only [FieldType.width] at h
      simp only [decodeField, decodeInt64, decodeInt_value, h, Option.bind_eq_bind,
        Option.map_none, Option.bind_none]

theorem decodeFields_append (read : Reader) (base : Ptr) (st : DecodeState ν)
    (F G : List (Field ν)) :
    decodeFields read base st (F ++ G)
      = (decodeFields read base st F).bind fun st => decodeFields read base st G := by
  induction F generalizing st with
  | nil => rfl
  | cons f F ih =>
      simp only [List.cons_append, decodeFields, Option.bind_eq_bind, Option.bind_assoc, ih]

/-- **What the walk leaves**: the cursor behind the fields, in the fields
what serializes to the bytes passed, in every other member what was there. -/
theorem decodeFields_some {read : Reader} (base : Ptr) {F : List (Field ν)}
    (hF : ∀ f ∈ F, f.type.isRef = false) (hnd : F.Nodup) {st : DecodeState ν}
    {bs : List Byte} (h : read.take st.buf (prefixLen F) = some bs) :
    ∃ vals, decodeFields read base st F = some { buf := st.buf + prefixLen F, vals := vals } ∧
      serFixed vals F = bs ∧ ∀ f, f ∉ F → vals f = st.vals f := by
  induction F generalizing st bs with
  | nil =>
      refine ⟨st.vals, by simp [decodeFields], ?_, fun _ _ => rfl⟩
      simpa [Reader.take, serFixed] using h
  | cons f F ih =>
      rw [prefixLen_cons, Reader.take_add] at h
      obtain ⟨bs₁, h₁, h⟩ := Option.bind_eq_some_iff.mp h
      obtain ⟨bs₂, h₂, rfl⟩ := Option.map_eq_some_iff.mp h
      have hf := hF f (List.mem_cons_self ..)
      obtain ⟨hnot, hnd⟩ := List.nodup_cons.mp hnd
      let st₁ : DecodeState ν :=
        { buf := st.buf + f.type.width
          vals := Function.update st.vals f (f.type.deser (taken h₁)) }
      have h₂ : read.take st₁.buf (prefixLen F) = some bs₂ := h₂
      obtain ⟨vals, hwalk, hser, hkeep⟩ := ih (fun g hg => hF g (List.mem_cons_of_mem _ hg)) hnd h₂
      refine ⟨vals, ?_, ?_, ?_⟩
      · rw [decodeFields, decodeField_some base st hf h₁]
        change decodeFields read base st₁ F = _
        rw [hwalk, prefixLen_cons, Nat.cast_add, ← Int.add_assoc]
      · have hvf : vals f = f.type.deser (taken h₁) := by
          rw [hkeep f hnot]
          exact Function.update_self ..
        have hcons : serFixed vals (f :: F) = f.type.ser (vals f) ++ serFixed vals F := by
          simp [serFixed]
        rw [hcons, hvf, FieldType.ser_deser hf, hser, taken_toList]
      · intro g hg
        rw [List.mem_cons, not_or] at hg
        rw [hkeep g hg.2]
        exact Function.update_of_ne hg.1 ..

/-- A packet too short for its fields is read past its end. -/
theorem decodeFields_none {read : Reader} (base : Ptr) {F : List (Field ν)}
    (hF : ∀ f ∈ F, f.type.isRef = false) {st : DecodeState ν}
    (h : read.take st.buf (prefixLen F) = none) : decodeFields read base st F = none := by
  induction F generalizing st with
  | nil => simp [Reader.take] at h
  | cons f F ih =>
      have hf := hF f (List.mem_cons_self ..)
      rw [prefixLen_cons, Reader.take_add] at h
      rw [decodeFields]
      cases h₁ : read.take st.buf f.type.width with
      | none => rw [decodeField_none base st hf h₁]; rfl
      | some bs₁ =>
          rw [h₁, Option.bind_some, Option.map_eq_none_iff] at h
          rw [decodeField_some base st hf h₁]
          exact ih (fun g hg => hF g (List.mem_cons_of_mem _ hg)) h

end Walk

end Smts
