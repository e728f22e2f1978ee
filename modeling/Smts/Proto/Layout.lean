import Smts.Proto.Format

/-!
# Proto — the slots of a packet

How a packet is cut into slots, for any declaration: the three walks that
count the slots, fill them and write through them against one layout. They
agree for one payload at most. The bit map's index moves by one at a payload
where the slots move by two, and a payload right behind a payload is counted
as one slot and filled as two.
-/

namespace Smts

/-! ## The layout -/

/-- A slot of a packet: a buffer of the encoder's, of as many bytes, or a
payload of the caller's. -/
inductive Slot where
  | own (size : Nat)
  | ref (u : UvBuf)
deriving DecidableEq, Repr

def Slot.size : Slot → Nat
  | .own n => n
  | .ref u => u.len.toNat

/-- A fixed-width field in front shares the buffer that comes first. -/
def widen (n : Nat) : List Slot → List Slot
  | .own m :: rest => .own (n + m) :: rest
  | rest => .own n :: rest

section Layout

variable {ν : Type}

/-- **The layout of a packet**: a slot for every payload that is there, and
one for the fixed-width fields between two payloads. -/
def layout (vals : Values ν) : List (Field ν) → List Slot
  | [] => []
  | f :: fs =>
      match payloadRef vals f with
      | some u => .ref u :: layout vals fs
      | none => if f.type.isRef then layout vals fs else widen f.type.width (layout vals fs)

/-- The payloads of the fields `fs` that are there, not `NULL`, in their order. -/
def payloads (vals : Values ν) (fs : List (Field ν)) : List UvBuf :=
  fs.filterMap (payloadRef vals)

/-- `u` is the slot the layout asks for: a whole buffer made since `h`, or the
payload. -/
def Slot.Holds (h h' : Heap) : Slot → UvBuf → Prop
  | .own n, u => ∃ b blk, h.blocks.length ≤ b ∧ u.base = some ⟨b, 0⟩ ∧ u.len.toNat = n ∧
      h'.blocks[b]? = some blk ∧ blk.length = n
  | .ref v, u => u = v

/-- The buffers that were allocated between `h` and `h'`. -/
def newBlocks (h h' : Heap) : List Ptr :=
  (List.range' h.blocks.length (h'.blocks.length - h.blocks.length)).map fun b => ⟨b, 0⟩

theorem sum_widen (n : Nat) (l : List Slot) :
    ((widen n l).map Slot.size).sum = n + (l.map Slot.size).sum := by
  rcases l with - | ⟨m | u, rest⟩
  · rfl
  · simp [widen, Slot.size, Nat.add_assoc]
  · simp [widen, Slot.size]

/-- The slots of the layout are as long as the packet. -/
theorem sum_layout (vals : Values ν) (fs : List (Field ν)) :
    ((layout vals fs).map Slot.size).sum = (fs.map (fieldSize vals)).sum := by
  induction fs with
  | nil => rfl
  | cons f fs ih =>
      obtain ⟨k, name⟩ := f
      rw [List.map_cons, List.sum_cons, ← ih, layout]
      cases k with
      | binaryBufRef hdr =>
          by_cases hb : (vals ⟨.binaryBufRef hdr, name⟩ : UvBuf).base = none
          · simp [payloadRef, fieldSize, FieldType.isRef, hb]
          · simp [payloadRef, fieldSize, Slot.size, hb]
      | _ => simp [payloadRef, fieldSize, FieldType.isRef, sum_widen]

theorem widen_widen (m n : Nat) (l : List Slot) : widen m (widen n l) = widen (m + n) l := by
  rcases l with - | ⟨k | u, rest⟩
  · rfl
  · simp [widen, Nat.add_assoc]
  · rfl

theorem layout_fixed (vals : Values ν) {f : Field ν} (hf : f.type.isRef = false)
    (fs : List (Field ν)) : layout vals (f :: fs) = widen f.type.width (layout vals fs) := by
  obtain ⟨k, name⟩ := f
  cases k with
  | binaryBufRef hdr => simp [FieldType.isRef] at hf
  | _ => rfl

theorem layout_payload {vals : Values ν} {f : Field ν} {u : UvBuf}
    (hf : payloadRef vals f = some u) (fs : List (Field ν)) :
    layout vals (f :: fs) = .ref u :: layout vals fs := by
  rw [layout, hf]

theorem layout_fixed_append (vals : Values ν) {F : List (Field ν)}
    (hF : ∀ f ∈ F, f.type.isRef = false) (hne : F ≠ []) (G : List (Field ν)) :
    layout vals (F ++ G) = widen (prefixLen F) (layout vals G) := by
  induction F with
  | nil => exact absurd rfl hne
  | cons f F ih =>
      rw [List.cons_append, layout_fixed vals (hF f (List.mem_cons_self ..)), prefixLen_cons]
      by_cases hF' : F = []
      · subst hF'
        simp
      · rw [ih (fun g hg => hF g (List.mem_cons_of_mem _ hg)) hF', widen_widen]

/-! ## Absent payloads play no part -/

/-- The fields less the payloads that are not there. -/
def present (vals : Values ν) (fs : List (Field ν)) : List (Field ν) :=
  fs.filter fun f => !f.type.isRef || (payloadRef vals f).isSome

theorem present_cons_absent {vals : Values ν} {f : Field ν} (hR : NullRefs vals [f])
    (fs : List (Field ν)) : present vals (f :: fs) = present vals fs := by
  obtain ⟨hf, href⟩ := hR f (List.mem_singleton_self f)
  simp [present, hf, href]

theorem present_cons {vals : Values ν} {f : Field ν}
    (hf : f.type.isRef = false ∨ ∃ u, payloadRef vals f = some u) (fs : List (Field ν)) :
    present vals (f :: fs) = f :: present vals fs := by
  rcases hf with hf | ⟨u, hu⟩
  · simp [present, hf]
  · simp [present, hu]

/-- A field has a fixed width, or it is a payload that is there, or a `NULL`
payload. -/
theorem field_cases (vals : Values ν) (f : Field ν) :
    (f.type.isRef = false ∨ ∃ u, payloadRef vals f = some u) ∨ NullRefs vals [f] := by
  by_cases hf : f.type.isRef = false
  · exact .inl (.inl hf)
  cases href : payloadRef vals f with
  | some u => exact .inl (.inr ⟨u, rfl⟩)
  | none =>
      refine .inr fun g hg => ?_
      obtain rfl := List.mem_singleton.mp hg
      exact ⟨by simpa using hf, href⟩

/-- None of the walks sees the absent payloads, nor does the layout. -/
theorem walks_present (vals : Values ν) (fs : List (Field ν)) :
    (∀ st, (present vals fs).foldl (allocField vals) st = fs.foldl (allocField vals) st) ∧
    (∀ st, innerAllocFields vals st (present vals fs) = innerAllocFields vals st fs) ∧
    (∀ st, encodeFields vals st (present vals fs) = encodeFields vals st fs) ∧
    layout vals (present vals fs) = layout vals fs := by
  induction fs with
  | nil => exact ⟨fun _ => rfl, fun _ => rfl, fun _ => rfl, rfl⟩
  | cons f fs ih =>
      obtain ⟨h₁, h₂, h₃, h₄⟩ := ih
      rcases field_cases vals f with hf | hR
      · rw [present_cons hf]
        refine ⟨fun st => ?_, fun st => ?_, fun st => ?_, ?_⟩
        · rw [List.foldl_cons, List.foldl_cons, h₁]
        · simp only [innerAllocFields, h₂]
        · simp only [encodeFields, h₃]
        · rw [layout, layout, h₄]
      · rw [present_cons_absent hR]
        obtain ⟨w₁, w₂, -, w₃, -⟩ := hR.walks
        obtain ⟨hf, href⟩ := hR f (List.mem_singleton_self f)
        refine ⟨fun st => ?_, fun st => ?_, fun st => ?_, ?_⟩
        · rw [h₁, List.foldl_cons, show allocField vals st f = st from w₁ st]
        · rw [h₂, ← List.singleton_append, innerAllocFields_append, w₂, Option.bind_some]
        · rw [h₃, ← List.singleton_append, encodeFields_append, w₃, Option.bind_some]
        · rw [h₄, layout, href, hf]
          rfl

/-- The fields that are there are all of fixed width, or begin with such fields
and a payload. -/
theorem present_cases (vals : Values ν) (fs : List (Field ν)) :
    (∀ f ∈ present vals fs, f.type.isRef = false) ∧ payloads vals fs = [] ∨
      ∃ F f u G, present vals fs = F ++ f :: present vals G ∧ (∀ f ∈ F, f.type.isRef = false) ∧
        payloadRef vals f = some u ∧ payloads vals fs = u :: payloads vals G := by
  induction fs with
  | nil => exact .inl ⟨fun f hf => absurd hf List.not_mem_nil, rfl⟩
  | cons f fs ih =>
      rcases field_cases vals f with (hf | ⟨u, hu⟩) | hR
      · rw [present_cons (.inl hf)]
        have href : payloadRef vals f = none := by
          obtain ⟨k, name⟩ := f
          cases k <;> first | rfl | simp [FieldType.isRef] at hf
        have hskip : payloads vals (f :: fs) = payloads vals fs := by
          rw [payloads, payloads, List.filterMap_cons, href]
        rw [hskip]
        rcases ih with ⟨hall, hpay⟩ | ⟨F, g, u, G, hG, hF, hu, hpay⟩
        · exact .inl ⟨List.forall_mem_cons.mpr ⟨hf, hall⟩, hpay⟩
        · exact .inr ⟨f :: F, g, u, G, by rw [hG, List.cons_append],
            List.forall_mem_cons.mpr ⟨hf, hF⟩, hu, hpay⟩
      · refine .inr ⟨[], f, u, fs, by rw [present_cons (.inr ⟨u, hu⟩), List.nil_append],
          fun g hg => absurd hg List.not_mem_nil, hu, ?_⟩
        rw [payloads, List.filterMap_cons, hu, payloads]
      · obtain ⟨-, href⟩ := hR f (List.mem_singleton_self f)
        rw [present_cons_absent hR, payloads, List.filterMap_cons, href]
        exact ih

/-! ## Lengths -/

theorem lenField_eq (vals : Values ν) (len : BitVec 32) (f : Field ν) :
    lenField vals len f = len + BitVec.ofNat 32 (fieldSize vals f) := by
  obtain ⟨k, name⟩ := f
  cases k with
  | binaryBufRef hdr =>
      by_cases hb : (vals ⟨.binaryBufRef hdr, name⟩ : UvBuf).base = none
      · simp [lenField, fieldSize, hb]
      · simp only [lenField, fieldSize, ne_eq, hb, not_false_eq_true, if_true]
        congr 1
  | _ => rfl

theorem foldl_lenField (vals : Values ν) (len : BitVec 32) (fs : List (Field ν)) :
    fs.foldl (lenField vals) len = len + BitVec.ofNat 32 (fs.map (fieldSize vals)).sum := by
  induction fs generalizing len with
  | nil => simp
  | cons f fs ih =>
      rw [List.foldl_cons, ih, lenField_eq, List.map_cons, List.sum_cons, BitVec.ofNat_add,
        BitVec.add_assoc]

/-- `cmd_name##_t_len` returns an `int`, so it is the length of the packet as
long as that fits one. -/
theorem Cmd.len_eq_size [DecidableEq ν] (t : Cmd ν) :
    t.len.toInt = t.size ↔ t.size < 2 ^ 31 := by
  have hlen : t.len = BitVec.ofNat 32 t.size := by
    rw [Cmd.len, foldl_lenField, Cmd.size]
    exact BitVec.zero_add _
  rw [hlen]
  constructor
  · intro h
    have := BitVec.toInt_lt (x := BitVec.ofNat 32 t.size)
    omega
  · intro h
    rw [BitVec.toInt_eq_toNat_of_lt, BitVec.toNat_ofNat, Nat.mod_eq_of_lt (by omega)]
    rw [BitVec.toNat_ofNat, Nat.mod_eq_of_lt (by omega)]
    omega

/-! ## Room to write -/

/-- How long the buffers of the heap are, which stores do not change. -/
def Heap.shape (h : Heap) : List Nat := h.blocks.map List.length

theorem Heap.store_room {h : Heap} {p : Ptr} {n : Nat} (hn : h.shape[p.block]? = some n)
    (hoff : 0 ≤ p.off) (hlt : p.off.toNat < n) (b : Byte) :
    ∃ h', h.store p b = some h' ∧ h'.shape = h.shape := by
  rw [shape, List.getElem?_map, Option.map_eq_some_iff] at hn
  obtain ⟨blk, hblk, rfl⟩ := hn
  refine ⟨⟨h.blocks.set p.block (blk.set p.off.toNat (some b))⟩, ?_, ?_⟩
  · simp only [Heap.store, hblk, Option.bind_eq_bind, Option.bind_some, hoff, hlt, and_self, if_true]
  · rw [shape, shape, List.map_set, List.length_set]
    obtain ⟨hi, rfl⟩ := List.getElem?_eq_some_iff.mp hblk
    rw [← List.getElem_map List.length (h := by simpa using hi), List.set_getElem_self]

theorem Heap.storeBytes_room {h : Heap} {p : Ptr} {n : Nat} (hn : h.shape[p.block]? = some n)
    (hoff : 0 ≤ p.off) (bs : List Byte) (hle : p.off.toNat + bs.length ≤ n) :
    ∃ h', h.storeBytes p bs = some h' ∧ h'.shape = h.shape := by
  induction bs generalizing h p with
  | nil => exact ⟨h, rfl, rfl⟩
  | cons b bs ih =>
      rw [List.length_cons] at hle
      obtain ⟨h₁, hstore, hshape⟩ := Heap.store_room hn hoff (by omega) b
      obtain ⟨h₂, hrest, hshape₂⟩ := ih (h := h₁) (p := p.add 1) (by rw [hshape]; exact hn)
        (by rw [Ptr.add_off]; omega) (by rw [Ptr.add_off]; omega)
      exact ⟨h₂, by rw [Heap.storeBytes, hstore]; exact hrest, hshape₂.trans hshape⟩

/-- Fixed-width fields are written into the buffer the cursor is in. -/
theorem encodeFields_room (vals : Values ν) {F : List (Field ν)}
    (hF : ∀ f ∈ F, f.type.isRef = false) (hne : F ≠ []) {st : EncodeState} {p : Ptr} {n : Nat}
    (henter : st.enter = some ({ st with buf := some p, isNew := false }, p))
    (hn : st.heap.shape[p.block]? = some n) (hoff : 0 ≤ p.off)
    (hle : p.off.toNat + prefixLen F ≤ n) :
    ∃ h buf, encodeFields vals st F = some { st with heap := h, buf := some buf, isNew := false } ∧
      h.shape = st.heap.shape := by
  induction F generalizing st p with
  | nil => exact absurd rfl hne
  | cons f F ih =>
      rw [prefixLen_cons, ← f.type.length_ser (vals f)] at hle
      obtain ⟨h₁, hstore, hshape⟩ := Heap.storeBytes_room hn hoff (f.type.ser (vals f)) (by omega)
      rw [encodeFields, encodeField_fixed vals (hF f (List.mem_cons_self ..)) henter, hstore]
      simp only [Option.map_some, Option.bind_eq_bind, Option.bind_some]
      by_cases hF' : F = []
      · subst hF'
        exact ⟨h₁, _, rfl, hshape⟩
      · let st₁ : EncodeState :=
          { st with heap := h₁, buf := some (p.add f.type.width), isNew := false }
        have henter₁ : st₁.enter = some (st₁, p.add f.type.width) := rfl
        obtain ⟨h₂, buf, henc, hshape₂⟩ := ih (fun g hg => hF g (List.mem_cons_of_mem _ hg)) hF'
          henter₁ (by rw [hshape]; exact hn) (by rw [Ptr.add_off]; omega)
          (by rw [Ptr.add_off]; rw [f.type.length_ser] at hle; omega)
        exact ⟨h₂, buf, henc, hshape₂.trans hshape⟩

/-! ## What a field does -/

/-- What the three walks do at a field of fixed width. -/
theorem fixed_steps (vals : Values ν) {f : Field ν} (hf : f.type.isRef = false) :
    (∀ st, allocField vals st f
      = if st.isNew then { bufLen := st.bufLen + 1, isNew := false } else st) ∧
    ∀ st, innerAllocField vals st f
      = some { st with isNew := false, bufSize := st.bufSize + f.type.width } := by
  obtain ⟨k, name⟩ := f
  cases k with
  | binaryBufRef hdr => simp [FieldType.isRef] at hf
  | _ => exact ⟨fun _ => rfl, fun _ => rfl⟩

/-- What the three walks do at a payload that is there. -/
theorem payload_steps {vals : Values ν} {f : Field ν} {u : UvBuf}
    (hf : payloadRef vals f = some u) :
    u.base ≠ none ∧
    (∀ st, allocField vals st f = { bufLen := st.bufLen + 1, isNew := true }) ∧
    (∀ st, innerAllocField vals st f = st.mallocSlot.bind fun st =>
      (setSlot st.slots (st.buf + 1) u).map fun slots =>
        { st with
          slots := slots
          buf := st.buf + 1 + 1
          bufSize := 0
          index := st.index + 1
          isNew := true
          bitMap := st.bitMap ||| (1 <<< (st.index + 1)) }) ∧
    ∀ st, encodeField vals st f = (setSlot st.slots (st.packet + 1) u).map fun slots =>
      { st with slots := slots, packet := st.packet + 1 + 1, isNew := true } := by
  obtain ⟨k, name⟩ := f
  cases k with
  | binaryBufRef hdr =>
      have hu : (vals ⟨.binaryBufRef hdr, name⟩ : UvBuf).base ≠ none ∧
          (vals ⟨.binaryBufRef hdr, name⟩ : UvBuf) = u := by
        simpa [payloadRef] using hf
      obtain ⟨hb, rfl⟩ := hu
      refine ⟨hb, fun st => ?_, fun st => ?_, fun st => ?_⟩
      · simp [allocField, hb]
      · simp only [innerAllocField, ne_eq, hb, not_false_eq_true, if_true, Option.map_eq_bind]
        rfl
      · simp only [encodeField, ne_eq, hb, not_false_eq_true, if_true, Option.map_eq_bind]
        rfl
  | _ => cases hf

/-! ## Counting against filling -/

theorem foldl_allocField_add (vals : Values ν) (fs : List (Field ν)) (m n : Nat) (isNew : Bool) :
    (fs.foldl (allocField vals) { bufLen := m + n, isNew := isNew }).bufLen
      = m + (fs.foldl (allocField vals) { bufLen := n, isNew := isNew }).bufLen := by
  induction fs generalizing n isNew with
  | nil => rfl
  | cons f fs ih =>
      have hstep : ∀ st : AllocState, ∃ k isNew, ∀ m,
          allocField vals { st with bufLen := m + st.bufLen } f
            = { bufLen := m + (st.bufLen + k), isNew := isNew } := by
        rintro ⟨n, isNew⟩
        obtain ⟨k, name⟩ := f
        cases k with
        | binaryBufRef hdr =>
            by_cases hb : (vals ⟨.binaryBufRef hdr, name⟩ : UvBuf).base = none
            · exact ⟨0, isNew, fun m => by simp [allocField, hb]⟩
            · exact ⟨1, true, fun m => by simp [allocField, hb, Nat.add_assoc]⟩
        | _ =>
            cases isNew with
            | false => exact ⟨0, false, fun m => rfl⟩
            | true => exact ⟨1, false, fun m => rfl⟩
      obtain ⟨k, b, hk⟩ := hstep ⟨n, isNew⟩
      have hzero := hk 0
      simp only [Nat.zero_add] at hzero
      rw [List.foldl_cons, List.foldl_cons, hk m, hzero, ih]

theorem foldl_allocField_succ (vals : Values ν) (fs : List (Field ν)) (n : Nat) (isNew : Bool) :
    (fs.foldl (allocField vals) { bufLen := n, isNew := isNew }).bufLen
      = n + (fs.foldl (allocField vals) { bufLen := 0, isNew := isNew }).bufLen :=
  foldl_allocField_add vals fs n 0 isNew

theorem InnerAllocState.mallocSlot_cases {st st' : InnerAllocState} (h : st.mallocSlot = some st') :
    st.buf < st.slots.length ∧ st'.slots.length = st.slots.length ∧ st'.buf = st.buf ∧
      st'.index = st.index ∧ st'.bitMap = st.bitMap := by
  obtain ⟨slots, hset, h⟩ := Option.bind_eq_some_iff.mp h
  obtain rfl := Option.some.inj h
  rw [setSlot] at hset
  split at hset
  next hlt =>
    obtain rfl := Option.some.inj hset
    exact ⟨hlt, List.length_set, rfl, rfl, rfl⟩
  next => cases hset

/-- Over fixed-width fields the walk that fills the slots moves no cursor: they
go to the buffer that is current. -/
theorem innerAllocFields_stay {vals : Values ν} {F : List (Field ν)}
    (hF : ∀ f ∈ F, f.type.isRef = false) {st st' : InnerAllocState}
    (h : innerAllocFields vals st F = some st') :
    st'.buf = st.buf ∧ st'.index = st.index ∧ st'.slots = st.slots := by
  by_cases hne : F = []
  · subst hne
    obtain rfl := Option.some.inj h
    exact ⟨rfl, rfl, rfl⟩
  · rw [innerAllocFields_fixed vals st hF hne] at h
    obtain rfl := Option.some.inj h
    exact ⟨rfl, rfl, rfl⟩

/-- A payload takes two slots when it is filled in. -/
theorem innerAllocField_payload {vals : Values ν} {f : Field ν} {u : UvBuf}
    (hf : payloadRef vals f = some u) {st st' : InnerAllocState}
    (h : innerAllocField vals st f = some st') :
    st.buf + 1 < st.slots.length ∧ st'.slots.length = st.slots.length ∧ st'.buf = st.buf + 2 ∧
      st'.index = st.index + 1 ∧ st'.isNew = true ∧
      st'.bitMap = st.bitMap ||| (1 <<< (st.index + 1)) := by
  rw [(payload_steps hf).2.2.1] at h
  obtain ⟨st₁, hmalloc, h⟩ := Option.bind_eq_some_iff.mp h
  obtain ⟨-, hlen, hbuf, hindex, hbits⟩ := InnerAllocState.mallocSlot_cases hmalloc
  obtain ⟨slots, hset, rfl⟩ := Option.map_eq_some_iff.mp h
  rw [setSlot] at hset
  split at hset
  next hlt =>
    obtain rfl := Option.some.inj hset
    exact ⟨by rw [← hbuf, ← hlen]; exact hlt, by rw [List.length_set, hlen], by rw [hbuf],
      by rw [hindex], rfl, by rw [hbits, hindex]⟩
  next => cases hset

/-- The walk that fills keeps within the array, so at least as many slots are
there as the one that counts would still count. -/
theorem innerAllocFields_fits {vals : Values ν} {fs : List (Field ν)} {st st' : InnerAllocState}
    (h : innerAllocFields vals st fs = some st') (hle : st.buf ≤ st.slots.length)
    (hlast : st'.isNew = false → st'.buf < st'.slots.length) :
    st.buf + (if st.isNew then 0 else 1)
        + (fs.foldl (allocField vals) { bufLen := 0, isNew := st.isNew }).bufLen
      ≤ st.slots.length ∧
    ∀ i, st.bitMap.getLsbD i = true → st'.bitMap.getLsbD i = true := by
  induction fs generalizing st with
  | nil =>
      obtain rfl := Option.some.inj h
      refine ⟨?_, fun _ => id⟩
      -- at the end of the struct, a slot begun is one more
      cases hnew : st.isNew with
      | true => simpa using hle
      | false => exact hlast hnew
  | cons f fs ih =>
      obtain ⟨st₁, hstep, hrest⟩ := Option.bind_eq_some_iff.mp h
      rw [List.foldl_cons]
      rcases field_cases vals f with (hf | ⟨u, hu⟩) | hR
      · obtain ⟨halloc, hinner⟩ := fixed_steps vals hf
        obtain rfl := Option.some.inj ((hinner st).symm.trans hstep)
        obtain ⟨hfits, hmono⟩ := ih hrest hle
        refine ⟨?_, hmono⟩
        rw [halloc]
        cases hnew : st.isNew with
        | true =>
            have hone := foldl_allocField_succ vals fs 1 false
            simp only [if_true, Bool.false_eq_true, if_false, Nat.zero_add] at hone hfits ⊢
            omega
        | false => simpa using hfits
      · obtain ⟨hlt, hlen, hbuf, -, hnew, hbits⟩ := innerAllocField_payload hu hstep
        obtain ⟨hfits, hmono⟩ := ih hrest (by omega)
        refine ⟨?_, fun i hi => hmono i (by rw [hbits, BitVec.getLsbD_or, hi]; rfl)⟩
        have hone := foldl_allocField_succ vals fs 1 true
        rw [(payload_steps hu).2.1]
        rw [hbuf, hnew, hlen, if_pos rfl] at hfits
        simp only [Nat.zero_add] at hone ⊢
        split <;> omega
      -- a NULL payload takes no slot in either walk
      · obtain ⟨w₁, w₂, -, -, -⟩ := hR.walks
        have hstay : innerAllocFields vals st [f] = some st := w₂ st
        rw [innerAllocFields, hstep] at hstay
        simp only [innerAllocFields, Option.bind_eq_bind, Option.bind_some] at hstay
        obtain rfl := Option.some.inj hstay
        have hcount : allocField vals { bufLen := 0, isNew := st₁.isNew } f
            = { bufLen := 0, isNew := st₁.isNew } := w₁ _
        rw [hcount]
        exact ih hrest hle

/-- The first field that is present is the length, so fixed-width fields come
before any payload. -/
theorem first_payload {vals : Values ν} {fs F G : List (Field ν)} {f : Field ν} {u : UvBuf}
    (h : present vals (packetLen :: fs) = F ++ f :: G) (hu : payloadRef vals f = some u) :
    F ≠ [] := by
  rintro rfl
  rw [present_cons (.inl rfl), List.nil_append] at h
  obtain rfl := (List.cons.inj h).1
  cases hu

section Stamped

variable [DecidableEq ν]

theorem payloadRef_stamped (t : Cmd ν) (f : Field ν) :
    payloadRef t.stamped.vals f = payloadRef t.vals f := by
  obtain ⟨k, name⟩ := f
  cases k with
  | binaryBufRef hdr => simp only [payloadRef, t.stamped_ref]
  | _ => rfl

theorem present_stamped (t : Cmd ν) (fs : List (Field ν)) :
    present t.stamped.vals fs = present t.vals fs := by
  simp only [present, payloadRef_stamped]

/-! ## Slots as they should be -/

/-- The encode of `t` in `h` left `t'` in `h'`, its packet in `slots`. -/
structure LaidOut (h : Heap) (t : Cmd ν) (h' : Heap) (t' : Cmd ν) (slots : List UvBuf) :
    Prop where
  /-- as many slots were counted as were filled, and the writer came past all -/
  walked : ∃ h₁ st, bufsAlloc h t.vals t.type.fields = some (h₁, t'.codecBuf) ∧
    encodeFields t.stamped.vals { heap := h₁, slots := slots.map some, packet := 0, buf := none, isNew := true }
      t.type.fields = some st ∧ st.packet + (if st.isNew then 0 else 1) = slots.length
  filled : t'.codecBuf.originalBuf = some (slots.map some)
  count : t'.codecBuf.originalBufLen = slots.length
  held : List.Forall₂ (Slot.Holds h h') (layout t.vals t.type.fields) slots
  size : t.len.toInt = ((slots.map fun u => u.len.toNat).sum : Nat)
  /-- the bit map marks the payloads, and no other slot -/
  bitMap : ∀ i, t'.codecBuf.originalBufRefBitMap.getLsbD i = true ↔
    ∃ u, (layout t.vals t.type.fields)[i]? = some (.ref u)
  /-- what was made is freed, and nothing else -/
  frees : t'.frees = (newBlocks h h').map .block ++ [.slots, .struct]

/-- The slots of `t` come out as they should. -/
def Cmd.SlotsRight (h : Heap) (t : Cmd ν) : Prop :=
  ∃ h' t' slots, t.encode h = some (h', t') ∧ LaidOut h t h' t' slots

/-- Slots as the layout has them are as long together as the packet. -/
theorem sum_slots {h h' : Heap} {l : List Slot} {slots : List UvBuf}
    (hl : List.Forall₂ (Slot.Holds h h') l slots) :
    (slots.map fun u => u.len.toNat).sum = (l.map Slot.size).sum := by
  induction hl with
  | nil => rfl
  | @cons s u l slots hs _ ih =>
      rw [List.map_cons, List.sum_cons, List.map_cons, List.sum_cons, ih]
      congr 1
      cases s with
      | own n =>
          obtain ⟨b, blk, -, -, hn, -⟩ := hs
          exact hn
      | ref v => rw [hs, Slot.size]

theorem LaidOut.size_lt {h h' : Heap} {t t' : Cmd ν} {slots : List UvBuf}
    (hl : LaidOut h t h' t' slots) : t.size < 2 ^ 31 := by
  rw [← t.len_eq_size, hl.size, sum_slots hl.held, sum_layout, Cmd.size]

/-- **A second payload spoils the slots**: bit 2 is set for it, but slot 2 is
its own only if it is right behind the first, and then it was not counted. -/
theorem LaidOut.payloads_le {h h' : Heap} {t t' : Cmd ν} {slots : List UvBuf}
    (hl : LaidOut h t h' t' slots) {fs : List (Field ν)} (hT : t.type.fields = packetLen :: fs) :
    (payloads t.vals t.type.fields).length ≤ 1 := by
  obtain ⟨h₁, -, halloc, -, -⟩ := hl.walked
  have hbits := hl.bitMap 2
  rw [hT] at halloc hbits ⊢
  rcases present_cases t.vals (packetLen :: fs) with ⟨-, hpay⟩ | ⟨F, f, u, G, hG, hF, hu, hpay⟩
  · rw [hpay]
    exact Nat.zero_le _
  rw [hpay]
  have hne := first_payload hG hu
  rcases present_cases t.vals G with ⟨-, hpay'⟩ | ⟨F', f', u', G', hG', hF', hu', hpay'⟩
  · rw [hpay']
    exact le_rfl
  exfalso
  obtain ⟨w₁, w₂, -, w₃⟩ := walks_present t.vals (packetLen :: fs)
  rw [hG'] at hG
  -- the walk that fills, up to the second payload
  obtain ⟨last, hinner, hcodec⟩ := Option.bind_eq_some_iff.mp halloc
  obtain ⟨st₄, hwalk, hlast⟩ := Option.bind_eq_some_iff.mp hinner
  rw [← w₂, hG, innerAllocFields_append, innerAllocFields_fixed _ _ hF hne, Option.bind_some] at hwalk
  obtain ⟨st₁, hfirst, hwalk⟩ := Option.bind_eq_some_iff.mp hwalk
  rw [innerAllocFields_append] at hwalk
  obtain ⟨st₂, hmid, hwalk⟩ := Option.bind_eq_some_iff.mp hwalk
  obtain ⟨st₃, hsecond, hwalk⟩ := Option.bind_eq_some_iff.mp hwalk
  obtain ⟨-, hlen₁, hbuf₁, hindex₁, hnew₁, -⟩ := innerAllocField_payload hu hfirst
  obtain ⟨hbuf₂, hindex₂, hslots₂⟩ := innerAllocFields_stay hF' hmid
  obtain ⟨hlt₃, hlen₃, hbuf₃, -, hnew₃, hbits₃⟩ := innerAllocField_payload hu' hsecond
  have hmap : last.bitMap = st₄.bitMap ∧ (st₄.isNew = false → st₄.buf < st₄.slots.length) := by
    split at hlast
    next hnew =>
      obtain rfl := Option.some.inj hlast
      exact ⟨rfl, fun hold => by simp [hnew] at hold⟩
    next =>
      obtain ⟨hlt, -, -, -, hbits⟩ := InnerAllocState.mallocSlot_cases hlast
      exact ⟨hbits, fun _ => hlt⟩
  obtain ⟨hfits, hmono⟩ := innerAllocFields_fits hwalk (by omega) hmap.2
  obtain ⟨-, hcodec⟩ := Prod.mk.inj (Option.some.inj hcodec)
  have hbit : t'.codecBuf.originalBufRefBitMap.getLsbD 2 = true := by
    rw [← hcodec, hmap.1]
    refine hmono 2 ?_
    rw [hbits₃, hindex₂, hindex₁, BitVec.getLsbD_or]
    simp
  -- so the third slot of the layout is a payload
  obtain ⟨v, hv⟩ := hbits.mp hbit
  rw [← w₃, hG, layout_fixed_append _ hF hne, layout_payload hu] at hv
  by_cases hne' : F' = []
  · subst hne'
    have hcount : (List.foldl (allocField t.vals) { bufLen := 0, isNew := true }
        (packetLen :: fs)).bufLen = 3 + (List.foldl (allocField t.vals)
          { bufLen := 0, isNew := true } (present t.vals G')).bufLen := by
      rw [← w₁, hG, List.foldl_append, foldl_allocField_fixed _ hF hne, List.foldl_cons,
        (payload_steps hu).2.1, List.nil_append, List.foldl_cons, (payload_steps hu').2.1,
        foldl_allocField_succ]
    rw [hnew₃, if_pos rfl] at hfits
    simp only [hcount, List.length_replicate, hslots₂] at *
    omega
  · rw [layout_fixed_append _ hF' hne', layout_payload hu'] at hv
    simp [widen] at hv

/-! ## One payload at most -/

theorem Heap.shape_malloc (h : Heap) (n : Nat) : (h.malloc n).1.shape = h.shape ++ [n] := by
  simp [Heap.malloc, Heap.shape]

theorem length_shape (h : Heap) : h.shape.length = h.blocks.length :=
  List.length_map ..

/-- A buffer of the right length holds a slot of the encoder's. -/
theorem Slot.holds_own {h h' : Heap} {b n : Nat} (hb : h.blocks.length ≤ b)
    (hn : h'.shape[b]? = some n) (hlt : n < 2 ^ 31) :
    (Slot.own n).Holds h h' { base := some ⟨b, 0⟩, len := BitVec.ofNat 64 n } := by
  rw [Heap.shape, List.getElem?_map, Option.map_eq_some_iff] at hn
  obtain ⟨blk, hblk, hlen⟩ := hn
  refine ⟨b, blk, hb, rfl, ?_, hblk, hlen⟩
  rw [BitVec.toNat_ofNat]
  exact Nat.mod_eq_of_lt (by omega)

/-- From what the walks come to, what the encoder does. -/
theorem slotsRight_of_walks {h h₁ : Heap} {t : Cmd ν} (slots : List UvBuf) {bits : BitVec 32}
    {st : EncodeState} (hsize : t.size < 2 ^ 31)
    (halloc : bufsAlloc h t.vals t.type.fields = some (h₁,
      { originalBuf := some (slots.map some)
        originalBufLen := slots.length
        originalBufRefBitMap := bits }))
    (hwrite : encodeFields t.stamped.vals
      { heap := h₁, slots := slots.map some, packet := 0, buf := none, isNew := true }
      t.type.fields = some st)
    (hslots : st.slots = slots.map some)
    (hcursor : st.packet + (if st.isNew then 0 else 1) = slots.length)
    (hheld : List.Forall₂ (Slot.Holds h st.heap) (layout t.vals t.type.fields) slots)
    (hbits : ∀ i, bits.getLsbD i = true ↔ ∃ u, (layout t.vals t.type.fields)[i]? = some (.ref u))
    (hfrees : destroySlots bits 0 (slots.map some) = (newBlocks h st.heap).map .block) :
    t.SlotsRight h := by
  refine ⟨st.heap, { t.stamped with
    codecBuf :=
      { originalBuf := some (slots.map some)
        originalBufLen := slots.length
        originalBufRefBitMap := bits }
    ref := 0 }, slots, ?_, ?_⟩
  · rw [Cmd.encode, halloc]
    simp only [Option.bind_eq_bind, Option.bind_some, Option.getD_some]
    rw [show (t.set packetLen t.len).set cmd t.type.cmd = t.stamped from rfl, t.stamped_type,
      hwrite]
    simp only [Option.bind_some, hslots]
  constructor
  case walked => exact ⟨h₁, st, halloc, hwrite, hcursor⟩
  case filled => rfl
  case count => rfl
  case held => exact hheld
  case size =>
    rw [t.len_eq_size.mpr hsize, sum_slots hheld, sum_layout, Cmd.size]
  case bitMap => exact hbits
  case frees =>
    have hall : (slots.map some).take slots.length = slots.map some :=
      List.take_of_length_le (by simp)
    simp only [Cmd.frees, Cmd.destroy, hall, hfrees]
    rfl

/-- A struct without a payload that is there takes one slot. -/
theorem slotsRight_flat (h : Heap) {t : Cmd ν} {F : List (Field ν)}
    (hF : ∀ f ∈ F, f.type.isRef = false) (hne : F ≠ [])
    (hT : present t.vals t.type.fields = F) (hsize : t.size < 2 ^ 31) : t.SlotsRight h := by
  obtain ⟨w₁, w₂, -, w₃⟩ := walks_present t.vals t.type.fields
  obtain ⟨-, -, w₄, -⟩ := walks_present t.stamped.vals t.type.fields
  rw [present_stamped] at w₄
  rw [hT] at w₁ w₂ w₃ w₄
  have hlayout : layout t.vals t.type.fields = [.own (prefixLen F)] := by
    rw [← w₃, ← List.append_nil F, layout_fixed_append _ hF hne, List.append_nil]
    rfl
  have hwidth : prefixLen F < 2 ^ 31 := by
    rw [Cmd.size, ← sum_layout, hlayout] at hsize
    simpa [Slot.size] using hsize
  have halloc : bufsAlloc h t.vals t.type.fields = some ((h.malloc (prefixLen F)).1,
      { originalBuf := some [some (headSlot h (prefixLen F))]
        originalBufLen := 1
        originalBufRefBitMap := 0 }) := by
    rw [bufsAlloc, bufsInnerAlloc, ← w₁, ← w₂, foldl_allocField_fixed _ hF hne,
      innerAllocFields_fixed _ _ hF hne]
    simp [InnerAllocState.mallocSlot, setSlot, Heap.malloc, headSlot]
  have hshape := Heap.shape_malloc h (prefixLen F)
  have hroom : (h.malloc (prefixLen F)).1.shape[h.blocks.length]? = some (prefixLen F) := by
    rw [hshape, ← length_shape, List.getElem?_concat_length]
  let st : EncodeState :=
    { heap := (h.malloc (prefixLen F)).1, slots := [some (headSlot h (prefixLen F))],
      packet := 0, buf := none, isNew := true }
  obtain ⟨h', buf, henc, hshape'⟩ := encodeFields_room t.stamped.vals hF hne
    (show st.enter = some ({ st with buf := some ⟨h.blocks.length, 0⟩, isNew := false }, _) from rfl)
    hroom le_rfl (by simp)
  rw [w₄] at henc
  have hheld : (Slot.own _).Holds h h' _ := Slot.holds_own le_rfl (hshape' ▸ hroom) hwidth
  refine slotsRight_of_walks [headSlot h (prefixLen F)] hsize halloc henc rfl rfl
    ?_ ?_ ?_
  · rw [hlayout]
    exact .cons hheld .nil
  · intro i
    rw [hlayout]
    cases i <;> simp
  · have hlen : h'.blocks.length = h.blocks.length + 1 := by
      rw [← length_shape, hshape', hshape, List.length_append, length_shape]
      rfl
    simp [newBlocks, hlen, destroySlots, headSlot]

/-- The payload comes last: its slot behind the encoder's. -/
theorem slotsRight_payload_last (h : Heap) {t : Cmd ν} {F : List (Field ν)} {f : Field ν} {u : UvBuf}
    (hF : ∀ f ∈ F, f.type.isRef = false) (hne : F ≠ []) (hu : payloadRef t.vals f = some u)
    (hT : present t.vals t.type.fields = F ++ [f]) (hsize : t.size < 2 ^ 31) : t.SlotsRight h := by
  obtain ⟨w₁, w₂, -, w₃⟩ := walks_present t.vals t.type.fields
  obtain ⟨-, -, w₄, -⟩ := walks_present t.stamped.vals t.type.fields
  rw [present_stamped] at w₄
  rw [hT] at w₁ w₂ w₃ w₄
  obtain ⟨hb, hcount, hinner, -⟩ := payload_steps hu
  obtain ⟨-, -, -, hwrite⟩ := payload_steps ((payloadRef_stamped t f).trans hu)
  obtain ⟨p, hp⟩ := Option.ne_none_iff_exists'.mp hb
  have hlayout : layout t.vals t.type.fields = [.own (prefixLen F), .ref u] := by
    rw [← w₃, layout_fixed_append _ hF hne, layout_payload hu]
    rfl
  have hwidth : prefixLen F < 2 ^ 31 := by
    rw [Cmd.size, ← sum_layout, hlayout] at hsize
    simp only [List.map_cons, Slot.size, List.sum_cons] at hsize
    omega
  have halloc : bufsAlloc h t.vals t.type.fields = some ((h.malloc (prefixLen F)).1,
      { originalBuf := some [some (headSlot h (prefixLen F)), some u]
        originalBufLen := 2
        originalBufRefBitMap := 2 }) := by
    rw [bufsAlloc, bufsInnerAlloc, ← w₁, ← w₂, List.foldl_append, foldl_allocField_fixed _ hF hne,
      innerAllocFields_append, innerAllocFields_fixed _ _ hF hne]
    simp [innerAllocFields, hcount, hinner, InnerAllocState.mallocSlot, setSlot, Heap.malloc,
      headSlot, List.replicate_succ]
  have hshape := Heap.shape_malloc h (prefixLen F)
  have hroom : (h.malloc (prefixLen F)).1.shape[h.blocks.length]? = some (prefixLen F) := by
    rw [hshape, ← length_shape, List.getElem?_concat_length]
  -- behind the payload no slot is entered, so the encoder ends at 2
  let st : EncodeState :=
    { heap := (h.malloc (prefixLen F)).1, slots := [some (headSlot h (prefixLen F)), some u],
      packet := 0, buf := none, isNew := true }
  obtain ⟨h', buf, henc, hshape'⟩ := encodeFields_room t.stamped.vals hF hne
    (show st.enter = some ({ st with buf := some ⟨h.blocks.length, 0⟩, isNew := false }, _) from rfl)
    hroom le_rfl (by simp)
  have hrun := w₄ st
  rw [encodeFields_append, henc, Option.bind_some, encodeFields, hwrite] at hrun
  have hheld : (Slot.own _).Holds h h' _ := Slot.holds_own le_rfl (hshape' ▸ hroom) hwidth
  refine slotsRight_of_walks [headSlot h (prefixLen F), u] hsize halloc hrun.symm rfl rfl
    ?_ ?_ ?_
  · rw [hlayout]
    exact .cons hheld (.cons rfl .nil)
  · intro i
    rw [hlayout]
    rcases i with - | - | i <;> simp [getLsbD_two]
  · have hlen : h'.blocks.length = h.blocks.length + 1 := by
      rw [← length_shape, hshape', hshape, List.length_append, length_shape]
      rfl
    simp [newBlocks, hlen, destroySlots, headSlot, hp]

/-- Fields come behind the payload: a third slot for them. -/
theorem slotsRight_payload_inner (h : Heap) {t : Cmd ν} {F G : List (Field ν)} {f : Field ν}
    {u : UvBuf} (hF : ∀ f ∈ F, f.type.isRef = false) (hne : F ≠ [])
    (hG : ∀ g ∈ G, g.type.isRef = false) (hne' : G ≠ []) (hu : payloadRef t.vals f = some u)
    (hT : present t.vals t.type.fields = F ++ f :: G) (hsize : t.size < 2 ^ 31) :
    t.SlotsRight h := by
  obtain ⟨w₁, w₂, -, w₃⟩ := walks_present t.vals t.type.fields
  obtain ⟨-, -, w₄, -⟩ := walks_present t.stamped.vals t.type.fields
  rw [present_stamped] at w₄
  rw [hT] at w₁ w₂ w₃ w₄
  obtain ⟨hb, hcount, hinner, -⟩ := payload_steps hu
  obtain ⟨-, -, -, hwrite⟩ := payload_steps ((payloadRef_stamped t f).trans hu)
  obtain ⟨p, hp⟩ := Option.ne_none_iff_exists'.mp hb
  have hlayout : layout t.vals t.type.fields
      = [.own (prefixLen F), .ref u, .own (prefixLen G)] := by
    rw [← w₃, layout_fixed_append _ hF hne, layout_payload hu, ← List.append_nil G,
      layout_fixed_append _ hG hne', List.append_nil]
    rfl
  have hwidth : prefixLen F < 2 ^ 31 ∧ prefixLen G < 2 ^ 31 := by
    rw [Cmd.size, ← sum_layout, hlayout] at hsize
    simp only [List.map_cons, Slot.size, List.sum_cons] at hsize
    omega
  let h₁ := (h.malloc (prefixLen F)).1
  let h₂ := (h₁.malloc (prefixLen G)).1
  -- the first walk counts three slots, and the second fills them: F's block, the payload, G's
  -- block
  have halloc : bufsAlloc h t.vals t.type.fields = some (h₂,
      { originalBuf := some [some (headSlot h (prefixLen F)), some u,
          some (headSlot h₁ (prefixLen G))]
        originalBufLen := 3
        originalBufRefBitMap := 2 }) := by
    have hn : (t.type.fields.foldl (allocField t.vals) { bufLen := 0, isNew := true }).bufLen = 3 := by
      rw [← w₁, List.foldl_append, foldl_allocField_fixed _ hF hne, List.foldl_cons, hcount,
        foldl_allocField_succ, foldl_allocField_fixed _ hG hne']
      rfl
    rw [bufsAlloc, hn, bufsInnerAlloc, ← w₂, innerAllocFields_append,
      innerAllocFields_fixed _ _ hF hne]
    simp [innerAllocFields, hinner, innerAllocFields_fixed _ _ hG hne', InnerAllocState.mallocSlot,
      setSlot, Heap.malloc, headSlot, List.replicate_succ, h₁, h₂]
  have hshape : h₂.shape = h.shape ++ [prefixLen F] ++ [prefixLen G] := by
    rw [Heap.shape_malloc, Heap.shape_malloc]
  have hroom : h₂.shape[h.blocks.length]? = some (prefixLen F) := by
    rw [hshape, ← length_shape, List.append_assoc, List.getElem?_append_right le_rfl]
    simp
  have hroom₁ : h₂.shape[h₁.blocks.length]? = some (prefixLen G) := by
    rw [hshape, ← length_shape h₁, Heap.shape_malloc, List.getElem?_concat_length]
  -- the encoder writes F into the first block, steps over the payload, and G into the other
  let st : EncodeState :=
    { heap := h₂
      slots := [some (headSlot h (prefixLen F)), some u, some (headSlot h₁ (prefixLen G))]
      packet := 0, buf := none, isNew := true }
  obtain ⟨h₃, buf, henc, hshape₃⟩ := encodeFields_room t.stamped.vals hF hne
    (show st.enter = some ({ st with buf := some ⟨h.blocks.length, 0⟩, isNew := false }, _) from rfl)
    hroom le_rfl (by simp)
  let st' : EncodeState :=
    { st with heap := h₃, packet := 2, buf := some buf, isNew := true }
  obtain ⟨h₄, buf', henc', hshape₄⟩ := encodeFields_room t.stamped.vals hG hne'
    (show st'.enter = some ({ st' with buf := some ⟨h₁.blocks.length, 0⟩, isNew := false }, _)
      from rfl)
    (by rw [hshape₃]; exact hroom₁) le_rfl (by simp)
  have hrun := w₄ st
  rw [encodeFields_append, henc, Option.bind_some, encodeFields, hwrite] at hrun
  have hrun : encodeFields t.stamped.vals st' G = _ := hrun
  rw [henc'] at hrun
  have hheap : h₄.shape = h₂.shape := hshape₄.trans hshape₃
  have hlen₁ : h₁.blocks.length = h.blocks.length + 1 := by simp [h₁, Heap.malloc]
  have hheld : (Slot.own _).Holds h h₄ _ := Slot.holds_own le_rfl (hheap ▸ hroom) hwidth.1
  have hheld₁ : (Slot.own _).Holds h h₄ _ :=
    Slot.holds_own (by omega) (hheap ▸ hroom₁) hwidth.2
  refine slotsRight_of_walks [headSlot h (prefixLen F), u, headSlot h₁ (prefixLen G)]
    hsize halloc hrun.symm rfl rfl ?_ ?_ ?_
  · rw [hlayout]
    exact .cons hheld (.cons rfl (.cons hheld₁ .nil))
  · intro i
    rw [hlayout]
    rcases i with - | - | - | i <;> simp [getLsbD_two]
  · have hlen : h₄.blocks.length = h.blocks.length + 2 := by
      rw [← length_shape, hheap, hshape, List.length_append, List.length_append, length_shape]
      rfl
    simp [newBlocks, hlen, destroySlots, headSlot, hp, hlen₁, List.range'_succ]

/-- Fields that begin with `packet_len` are cut right just when at most one
payload is there and the length fits an `int`. -/
theorem slotsRight_cases (h : Heap) {t : Cmd ν} {fs : List (Field ν)}
    (hT : t.type.fields = packetLen :: fs) (hpay : (payloads t.vals t.type.fields).length ≤ 1)
    (hsize : t.size < 2 ^ 31) : t.SlotsRight h := by
  rcases present_cases t.vals t.type.fields with ⟨hF, -⟩ | ⟨F, f, u, G, hG, hF, hu, hpay'⟩
  · refine slotsRight_flat h hF ?_ rfl hsize
    rw [hT, present_cons (.inl rfl)]
    exact List.cons_ne_nil _ _
  · have hne := first_payload (hT ▸ hG) hu
    rcases present_cases t.vals G with ⟨hF', -⟩ | ⟨F', f', u', G', -, -, -, hpay''⟩
    · by_cases hne' : present t.vals G = []
      · rw [hne'] at hG
        exact slotsRight_payload_last h hF hne hu hG hsize
      · exact slotsRight_payload_inner h hF hne hF' hne' hu hG hsize
    · rw [hpay', hpay''] at hpay
      simp at hpay

/-- **The slots are right for one payload at most.** -/
theorem slotsRight_iff (h : Heap) {t : Cmd ν} {fs : List (Field ν)}
    (hT : t.type.fields = packetLen :: cmd :: fs) :
    t.SlotsRight h ↔ (payloads t.vals t.type.fields).length ≤ 1 ∧ t.size < 2 ^ 31 := by
  constructor
  · rintro ⟨h', t', slots, -, hl⟩
    exact ⟨hl.payloads_le hT, hl.size_lt⟩
  · rintro ⟨hpay, hsize⟩
    exact slotsRight_cases h hT hpay hsize

end Stamped

end Layout

/-- A frame with its payload, the kind of packet the relay deals in. -/
theorem slotsRight_iff_mockDvrFrame :
    ((Cmd.init mockDvrFrame Values.zero).set dvrFrame { base := some ⟨0, 0⟩, len := 5 }).SlotsRight
      { blocks := [List.replicate 5 (some 0)] } :=
  (slotsRight_iff _ rfl).mpr ⟨by decide, by decide⟩

/-- A packet declared with a payload, a number and another payload. -/
def twoPayloads : NvmpCmd :=
  let T : NvmpType := ⟨"two_payloads", 0, protocolTopFiled ++ [resFrame, status, dvrFrame]⟩
  ((Cmd.init T Values.zero).set resFrame { base := some ⟨0, 0⟩, len := 1 }).set dvrFrame
    { base := some ⟨1, 0⟩, len := 1 }

theorem not_slotsRight_twoPayloads :
    ¬ twoPayloads.SlotsRight { blocks := [[some 0], [some 0]] } := by
  rintro ⟨h', t', slots, -, hl⟩
  have hle := hl.payloads_le rfl
  have htwo : (payloads twoPayloads.vals twoPayloads.type.fields).length = 2 := by decide
  omega

/-- The second payload is freed with the packet, and a buffer of its own is
not. -/
example : (twoPayloads.encode { blocks := [[some 0], [some 0]] }).map (fun r => r.2.frees)
    = some [.block ⟨2, 0⟩, .block ⟨1, 0⟩, .slots, .struct] := by
  decide +kernel

end Smts
