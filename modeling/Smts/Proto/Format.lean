import Smts.Proto.Encode

/-!
# Proto — the encoder meets the wire format

How the packets of `PROTOCOL_MAP` are declared, what an encode owes its
caller, and that every packet of the map gets it.
-/

namespace Smts

section Layout

variable {ν : Type}

/-! ## How packets are declared -/

/-- The fields of the declaration up to the payload: those of a fixed width. -/
def PacketType.head (T : PacketType ν) : List (Field ν) :=
  T.fields.takeWhile fun f => !f.type.isRef

/-- The payload reference and what is declared behind it; empty without a
payload. -/
def PacketType.tail (T : PacketType ν) : List (Field ν) :=
  T.fields.dropWhile fun f => !f.type.isRef

/-- `packet_len` and `cmd` first, no field twice, and a payload, if there is
one, last. -/
structure PacketType.WellFormed (T : PacketType ν) : Prop where
  top : T.head.take 2 = [packetLen, Smts.cmd]
  nodup : T.fields.Nodup
  tail : T.tail.length ≤ 1
  narrow : prefixLen T.head < 256

theorem protocolMap_wellFormed {e : NvmpType × Option CmdImp} (he : e ∈ protocolMap) :
    e.1.WellFormed := by
  have hall : ∀ e ∈ protocolMap, e.1.head.take 2 = [packetLen, cmd] ∧ e.1.fields.Nodup ∧
      e.1.tail.length ≤ 1 ∧ prefixLen e.1.head < 256 := by
    decide
  obtain ⟨h₁, h₂, h₃, h₄⟩ := hall e he
  exact ⟨h₁, h₂, h₃, h₄⟩

theorem PacketType.head_append_tail (T : PacketType ν) : T.fields = T.head ++ T.tail :=
  List.takeWhile_append_dropWhile.symm

theorem PacketType.head_fixed (T : PacketType ν) : ∀ f ∈ T.head, f.type.isRef = false := by
  intro f hf
  have hall := List.all_takeWhile (p := fun f : Field ν => !f.type.isRef) (l := T.fields)
  simpa using List.all_eq_true.mp hall f hf

theorem PacketType.WellFormed.head_ne_nil {T : PacketType ν} (hT : T.WellFormed) :
    T.head ≠ [] := by
  intro h
  simpa [h] using hT.top

theorem PacketType.WellFormed.tail_cases {T : PacketType ν} (hT : T.WellFormed) :
    T.tail = [] ∨ ∃ hdr name, T.tail = [⟨.binaryBufRef hdr, name⟩] := by
  match h : T.tail, hT.tail with
  | [], _ => exact Or.inl rfl
  | [⟨k, name⟩], _ =>
      have href : k.isRef = true := by
        have := List.head?_dropWhile_not (fun f : Field ν => !f.type.isRef) T.fields
        rw [show T.fields.dropWhile _ = T.tail from rfl, h] at this
        simpa using this
      cases k with
      | binaryBufRef hdr => exact Or.inr ⟨hdr, name, rfl⟩
      | _ => simp [FieldType.isRef] at href

end Layout

section Format

variable {ν : Type}

/-! ## Lengths -/

theorem Cmd.len_flat {t : Cmd ν} {F R : List (Field ν)} (hT : t.type.fields = F ++ R)
    (hF : ∀ f ∈ F, f.type.isRef = false) (hR : NullRefs t.vals R) :
    t.len = BitVec.ofNat 32 (prefixLen F) := by
  rw [Cmd.len, hT, List.foldl_append, foldl_lenField_fixed t.vals 0 hF, hR.walks.2.2.1]
  simp

theorem Cmd.len_ref {t : Cmd ν} {F : List (Field ν)} {hdr : BitVec 32} {name : FieldName ν}
    (hT : t.type.fields = F ++ [⟨.binaryBufRef hdr, name⟩])
    (hF : ∀ f ∈ F, f.type.isRef = false) {u : UvBuf}
    (hu : t.vals ⟨.binaryBufRef hdr, name⟩ = u) (hb : u.base ≠ none) :
    t.len = BitVec.ofNat 32 (prefixLen F + u.len.toNat) := by
  rw [Cmd.len, hT, List.foldl_append, foldl_lenField_fixed t.vals 0 hF]
  simp only [List.foldl_cons, List.foldl_nil, lenField, hu, if_pos hb,
    BitVec.ofNat_add]
  congr 1
  apply BitVec.eq_of_toNat_eq
  simp

theorem NullRefs.size {vals : Values ν} {R : List (Field ν)} (h : NullRefs vals R) :
    (R.map (fieldSize vals)).sum = 0 := by
  induction R with
  | nil => rfl
  | cons f R ih =>
      obtain ⟨k, name⟩ := f
      have hk := (h _ (List.mem_cons_self ..)).1
      cases k with
      | binaryBufRef hdr => simp [fieldSize, h.base, ih h.tail]
      | _ => simp [FieldType.isRef] at hk

theorem Cmd.size_flat {t : Cmd ν} {F R : List (Field ν)} (hT : t.type.fields = F ++ R)
    (hF : ∀ f ∈ F, f.type.isRef = false) (hR : NullRefs t.vals R) : t.size = prefixLen F := by
  rw [Cmd.size, hT, List.map_append, List.sum_append, sum_fieldSize_fixed t.vals hF, hR.size,
    Nat.add_zero]

theorem Cmd.size_ref {t : Cmd ν} {F : List (Field ν)} {hdr : BitVec 32} {name : FieldName ν}
    (hT : t.type.fields = F ++ [⟨.binaryBufRef hdr, name⟩])
    (hF : ∀ f ∈ F, f.type.isRef = false) {u : UvBuf}
    (hu : t.vals ⟨.binaryBufRef hdr, name⟩ = u) (hb : u.base ≠ none) :
    t.size = prefixLen F + u.len.toNat := by
  rw [Cmd.size, hT, List.map_append, List.sum_append, sum_fieldSize_fixed t.vals hF]
  simp [fieldSize, hu, hb]

/-! ## What an encode owes its caller -/

/-- `u` points into a buffer the encoder was given, not one it made. -/
def UvBuf.CallerOwned (h : Heap) (u : UvBuf) : Prop :=
  ∃ p, u.base = some p ∧ p.block < h.blocks.length

/-- The payloads a struct refers to exist and were written. -/
def Cmd.PayloadsIn (h : Heap) (t : Cmd ν) : Prop :=
  ∀ f ∈ t.type.fields, ∀ u, payloadRef t.vals f = some u →
    u.CallerOwned h ∧ (h.payload u).isSome

variable [DecidableEq ν]

/-- The encode of `t` in `h` left `t'`, its packet in `slots`, in `h'`. -/
structure Encoded (h : Heap) (t : Cmd ν) (h' : Heap) (t' : Cmd ν) (slots : List UvBuf) :
    Prop where
  /-- every one of the `original_buf_len` slots is filled -/
  filled : t'.codecBuf.originalBuf = some (slots.map some)
  count : t'.codecBuf.originalBufLen = slots.length
  /-- nothing that was there is written -/
  untouched : ∀ b < h.blocks.length, h'.blocks[b]? = h.blocks[b]?
  /-- a new buffer is the whole of a slot -/
  slotted : ∀ b, h.blocks.length ≤ b → b < h'.blocks.length →
    ∃ u ∈ slots, u.base = some ⟨b, 0⟩
  /-- a slot that is not the caller's is a new buffer, and written to its end -/
  written : ∀ u ∈ slots, ¬ u.CallerOwned h →
    ∃ b, ∃ bytes : List Byte, h.blocks.length ≤ b ∧ u.base = some ⟨b, 0⟩ ∧ u.len.toNat = bytes.length ∧
      h'.blocks[b]? = some (bytes.map some)
  /-- a slot that is the caller's is a payload of the struct -/
  payload : ∀ u ∈ slots, u.CallerOwned h → ∃ f ∈ t.type.fields, payloadRef t.vals f = some u
  /-- the bit map marks the slots that are the caller's, and no others -/
  bitMap : ∀ i, t'.codecBuf.originalBufRefBitMap.getLsbD i = true ↔
    ∃ u, slots[i]? = some u ∧ u.CallerOwned h
  packetLen : t'.vals packetLen = t.len
  cmd : t'.vals cmd = t.type.cmd
  /-- `proto_cmd_t_len` did not overflow -/
  size : t.len.toNat = t.size
  /-- the other members keep their values -/
  others : ∀ f, f ≠ Smts.packetLen → f ≠ Smts.cmd → t'.vals f = t.vals f
  /-- what a write sends is the reference serialization, `packet_len` long -/
  wire : ∃ bytes, t'.wire h' = some bytes ∧ serialize h t'.vals t.type.fields = some bytes ∧
    bytes.length = (t'.vals Smts.packetLen).toNat

/-! ## Every packet of the map gets it -/

theorem headSlot_len (h : Heap) {n : Nat} (hn : n < 2 ^ 31) : (headSlot h n).len.toNat = n := by
  rw [headSlot, BitVec.toNat_ofNat]
  exact Nat.mod_eq_of_lt (by omega)

@[simp] theorem headSlot_base (h : Heap) (n : Nat) :
    (headSlot h n).base = some ⟨h.blocks.length, 0⟩ := rfl

/-- The slot the encoder allocates holds what it wrote. -/
theorem loadBytes_headSlot (h : Heap) (written : List Byte) :
    (Heap.pending h.blocks written 0).loadBytes ⟨h.blocks.length, 0⟩ written.length
      = some written := by
  have hblk : (Heap.pending h.blocks written 0).blocks[h.blocks.length]?
      = some (written.map some) := by
    simp [Heap.pending_zero]
  have hload := Heap.loadBytes_of_block hblk 0 written.length (by omega)
  simpa using hload

theorem headSlot_not_callerOwned (h : Heap) (n : Nat) : ¬ (headSlot h n).CallerOwned h := by
  rintro ⟨p, hp, hlt⟩
  simp only [headSlot, Option.some.injEq] at hp
  simp [← hp] at hlt

theorem encoded_flat (h : Heap) (t : Cmd ν) {F R : List (Field ν)}
    (hT : t.type.fields = F ++ R) (hF : ∀ f ∈ F, f.type.isRef = false) (hne : F ≠ [])
    (hR : NullRefs t.vals R) (hlen : prefixLen F < 2 ^ 31) :
    ∃ h' t', t.encode h = some (h', t') ∧
      Encoded h t h' t' [headSlot h (prefixLen F)] := by
  have hser := length_serFixed t.stamped.vals F
  have hload := loadBytes_headSlot h (serFixed t.stamped.vals F)
  refine ⟨_, _, encode_flat h t hT hF hne hR, ?_⟩
  constructor
  case filled => rfl
  case count => rfl
  case untouched =>
    intro b hb
    rw [Heap.pending_zero, List.getElem?_append_left hb]
  case slotted =>
    intro b hge hlt
    rw [Heap.pending_zero, List.length_append, List.length_singleton] at hlt
    exact ⟨_, List.mem_singleton_self _, by simp [headSlot, show b = h.blocks.length by omega]⟩
  case written =>
    intro u hu _
    obtain rfl := List.mem_singleton.mp hu
    exact ⟨h.blocks.length, serFixed t.stamped.vals F, Nat.le_refl _, rfl,
      by rw [headSlot_len h hlen, hser], by simp [Heap.pending_zero]⟩
  case payload =>
    intro u hu hown
    obtain rfl := List.mem_singleton.mp hu
    exact absurd hown (headSlot_not_callerOwned h _)
  case bitMap =>
    intro i
    constructor
    · intro hbit
      simp at hbit
    · rintro ⟨u, hu, hown⟩
      obtain rfl := List.mem_singleton.mp (List.mem_of_getElem? hu)
      exact absurd hown (headSlot_not_callerOwned h _)
  case packetLen => exact t.stamped_packetLen
  case cmd => exact t.stamped_cmd
  case size =>
    rw [t.len_flat hT hF hR, t.size_flat hT hF hR, BitVec.toNat_ofNat]
    exact Nat.mod_eq_of_lt (by omega)
  case others => exact fun f h₁ h₂ => t.stamped_vals h₁ h₂
  case wire =>
    refine ⟨serFixed t.stamped.vals F, ?_, ?_, ?_⟩
    · rw [hser] at hload
      simp only [Cmd.wire, Option.bind_eq_bind, Option.bind_some, List.take_succ_cons,
        List.take_zero, List.mapM_cons, List.mapM_nil, id_eq, Heap.gather, Option.pure_def,
        headSlot_len h hlen, headSlot_base, hload, List.append_nil]
    · simp [hT, serialize_append, serialize_fixed h _ hF, hR.stamped.walks.2.2.2.2]
    · change _ = (t.stamped.vals packetLen).toNat
      rw [t.stamped_packetLen, t.len_flat hT hF hR, hser, BitVec.toNat_ofNat]
      exact (Nat.mod_eq_of_lt (by omega)).symm

/-- What a write of a packet with a payload sends. -/
theorem encode_ref_wire (h : Heap) (t : Cmd ν) {F : List (Field ν)} {hdr : BitVec 32}
    {name : FieldName ν} (hT : t.type.fields = F ++ [⟨.binaryBufRef hdr, name⟩])
    (hF : ∀ f ∈ F, f.type.isRef = false) (hne : F ≠ []) {u : UvBuf}
    (hu : t.vals ⟨.binaryBufRef hdr, name⟩ = u) {p : Ptr} (hp : u.base = some p)
    (hblk : p.block < h.blocks.length) (hlen : prefixLen F < 2 ^ 31) :
    ∃ h' t', t.encode h = some (h', t') ∧
      t'.wire h'
        = (h.loadBytes p u.len.toNat).map fun bs => serFixed t.stamped.vals F ++ bs := by
  have hload := loadBytes_headSlot h (serFixed t.stamped.vals F)
  rw [length_serFixed] at hload
  have hkeep : (Heap.pending h.blocks (serFixed t.stamped.vals F) 0).loadBytes p u.len.toNat
      = h.loadBytes p u.len.toNat := by
    apply Heap.loadBytes_congr
    rw [Heap.pending_zero, List.getElem?_append_left hblk]
  have henc := encode_ref h t hT hF hne (by rw [hu, hp]; exact Option.some_ne_none _)
  rw [hu] at henc
  refine ⟨_, _, henc, ?_⟩
  simp only [Cmd.wire, Option.bind_eq_bind, Option.bind_some, List.take_succ_cons,
    List.take_zero, List.mapM_cons, List.mapM_nil, id_eq, Heap.gather, Option.pure_def,
    headSlot_len h hlen, headSlot_base, hload, hp, hkeep, List.append_nil]
  cases h.loadBytes p u.len.toNat <;> rfl

/-- The bit map that marks slot 1, and no other slot. -/
theorem getLsbD_two (i : Nat) : (2#32).getLsbD i = decide (1 = i) := by
  rw [BitVec.getLsbD, show (2#32).toNat = 2 ^ 1 from rfl, Nat.testBit_two_pow]

theorem encoded_ref (h : Heap) (t : Cmd ν) {F : List (Field ν)} {hdr : BitVec 32}
    {name : FieldName ν} (hT : t.type.fields = F ++ [⟨.binaryBufRef hdr, name⟩])
    (hF : ∀ f ∈ F, f.type.isRef = false) (hne : F ≠ []) {u : UvBuf}
    (hu : t.vals ⟨.binaryBufRef hdr, name⟩ = u) (hb : u.base ≠ none)
    (hown : u.CallerOwned h) {payload : List Byte} (hpay : h.payload u = some payload)
    (hlen : prefixLen F + u.len.toNat < 2 ^ 31) :
    ∃ h' t', t.encode h = some (h', t') ∧
      Encoded h t h' t' [headSlot h (prefixLen F), u] := by
  have hser := length_serFixed t.stamped.vals F
  have hload := loadBytes_headSlot h (serFixed t.stamped.vals F)
  have henc := encode_ref h t hT hF hne (by rw [hu]; exact hb)
  rw [hu] at henc
  obtain ⟨p, hp, hblk⟩ := hown
  -- the new block does not lie in the payload's, which holds what it held
  have hold : h.loadBytes p u.len.toNat = some payload := by
    rw [← hpay, Heap.payload, hp]
  refine ⟨_, _, henc, ?_⟩
  constructor
  case filled => rfl
  case count => rfl
  case untouched =>
    intro b hb
    rw [Heap.pending_zero, List.getElem?_append_left hb]
  case slotted =>
    intro b hge hlt
    rw [Heap.pending_zero, List.length_append, List.length_singleton] at hlt
    exact ⟨_, List.mem_cons_self .., by simp [headSlot, show b = h.blocks.length by omega]⟩
  case written =>
    intro v hv hnot
    rcases List.mem_pair.mp hv with rfl | rfl
    · exact ⟨h.blocks.length, serFixed t.stamped.vals F, Nat.le_refl _, rfl,
        by rw [headSlot_len h (by omega), hser], by simp [Heap.pending_zero]⟩
    · exact absurd ⟨p, hp, hblk⟩ hnot
  case payload =>
    intro v hv hown
    rcases List.mem_pair.mp hv with rfl | rfl
    · exact absurd hown (headSlot_not_callerOwned h _)
    · exact ⟨⟨.binaryBufRef hdr, name⟩, by simp [hT], by simp [payloadRef, hu, hb]⟩
  case bitMap =>
    intro i
    rcases i with - | - | i
    case zero =>
        simp only [List.getElem?_cons_zero, Option.some.injEq, exists_eq_left']
        exact ⟨fun hbit => by simp at hbit, fun hown => absurd hown (headSlot_not_callerOwned h _)⟩
    case succ.zero =>
        simp only [List.getElem?_cons_succ, List.getElem?_cons_zero, Option.some.injEq,
          exists_eq_left']
        exact ⟨fun _ => ⟨p, hp, hblk⟩, fun _ => by decide⟩
    case succ.succ =>
        simp [getLsbD_two]
  case packetLen => exact t.stamped_packetLen
  case cmd => exact t.stamped_cmd
  case size =>
    rw [t.len_ref hT hF hu hb, t.size_ref hT hF hu hb, BitVec.toNat_ofNat]
    exact Nat.mod_eq_of_lt (by omega)
  case others => exact fun f h₁ h₂ => t.stamped_vals h₁ h₂
  case wire =>
    obtain ⟨h₁, t₁, henc₁, hwire⟩ := encode_ref_wire h t hT hF hne hu hp hblk (by omega)
    obtain ⟨rfl, rfl⟩ := Prod.mk.inj (Option.some.inj (henc.symm.trans henc₁))
    refine ⟨serFixed t.stamped.vals F ++ payload, ?_, ?_, ?_⟩
    · rw [hwire, hold]
      rfl
    · simp [hT, serialize_append, serialize_fixed h _ hF, serialize, serializeField,
        t.stamped_ref, hu, hpay]
    · change _ = (t.stamped.vals packetLen).toNat
      rw [t.stamped_packetLen, t.len_ref hT hF hu hb, List.length_append, hser,
        Heap.length_loadBytes hold, BitVec.toNat_ofNat]
      exact (Nat.mod_eq_of_lt (by omega)).symm

/-- A declaration that is well formed is all the encoder needs. -/
theorem encoded_wellFormed (h : Heap) {t : Cmd ν} (hwf : t.type.WellFormed)
    (hpay : t.PayloadsIn h) (hsize : t.size < 2 ^ 31) :
    ∃ h' t' slots, t.encode h = some (h', t') ∧ Encoded h t h' t' slots := by
  have hF := t.type.head_fixed
  have hT := t.type.head_append_tail
  have hne := hwf.head_ne_nil
  have hsum : prefixLen t.type.head ≤ t.size := by
    rw [Cmd.size, hT, List.map_append, List.sum_append, sum_fieldSize_fixed t.vals hF]
    omega
  rcases hwf.tail_cases with htail | ⟨hdr, name, htail⟩
  · rw [htail] at hT
    obtain ⟨h', t', henc, hE⟩ :=
      encoded_flat h t hT hF hne (fun f hf => absurd hf List.not_mem_nil) (by omega)
    exact ⟨h', t', _, henc, hE⟩
  · rw [htail] at hT
    by_cases hb : (t.vals ⟨.binaryBufRef hdr, name⟩ : UvBuf).base = none
    · have hR : NullRefs t.vals [⟨.binaryBufRef hdr, name⟩] := by
        intro f hf
        obtain rfl := List.mem_singleton.mp hf
        exact ⟨rfl, by simp [payloadRef, hb]⟩
      obtain ⟨h', t', henc, hE⟩ := encoded_flat h t hT hF hne hR (by omega)
      exact ⟨h', t', _, henc, hE⟩
    · have href : payloadRef t.vals ⟨.binaryBufRef hdr, name⟩
          = some (t.vals ⟨.binaryBufRef hdr, name⟩) := by
        simp [payloadRef, hb]
      obtain ⟨hown, hsome⟩ := hpay _ (by rw [hT]; simp) _ href
      obtain ⟨payload, hpayload⟩ := Option.isSome_iff_exists.mp hsome
      have hlen := t.size_ref hT hF rfl hb
      obtain ⟨h', t', henc, hE⟩ :=
        encoded_ref h t hT hF hne rfl hb hown hpayload (by omega)
      exact ⟨h', t', _, henc, hE⟩

/-- Encoding makes one buffer, and that is the one `destroy` gives back: a
payload is only pointed at, and forgotten. -/
theorem encode_frees (h : Heap) {t : Cmd ν} (hwf : t.type.WellFormed) :
    ∃ block c, t.encode h
        = some ({ blocks := h.blocks ++ [block] }, { t.stamped with codecBuf := c, ref := 0 }) ∧
      ({ t.stamped with codecBuf := c, ref := 0 } : Cmd ν).frees
        = [.block ⟨h.blocks.length, 0⟩, .slots, .struct] ∧
      ∀ b, ({ t.stamped with codecBuf := c, ref := 0 } : Cmd ν).Uses b →
        b = h.blocks.length ∨ ∃ f ∈ t.type.fields, ∃ u p, payloadRef t.vals f = some u ∧
          u.base = some p ∧ p.block = b := by
  have hF := t.type.head_fixed
  have hT := t.type.head_append_tail
  have hne := hwf.head_ne_nil
  by_cases hnull : NullRefs t.vals t.type.tail
  · refine ⟨_, _, encode_flat h t hT hF hne hnull, ?_, ?_⟩
    · simp [Cmd.frees, Cmd.destroy, destroySlots]
    · rintro b ⟨slots, hslots, u, p, hu, hp, rfl⟩
      obtain rfl := Option.some.inj hslots
      obtain rfl : u = headSlot h (prefixLen t.type.head) := by simpa using hu
      obtain rfl := Option.some.inj hp
      exact .inl rfl
  · rcases hwf.tail_cases with htail | ⟨hdr, name, htail⟩
    · exact absurd (fun f hf => absurd (htail ▸ hf) List.not_mem_nil) hnull
    -- there is a payload, and it is not NULL
    · have hb : (t.vals ⟨.binaryBufRef hdr, name⟩ : UvBuf).base ≠ none := by
        intro hb
        rw [htail] at hnull
        refine hnull fun f hf => ?_
        obtain rfl := List.mem_singleton.mp hf
        exact ⟨rfl, by simp [payloadRef, hb]⟩
      obtain ⟨p, hp⟩ := Option.ne_none_iff_exists'.mp hb
      refine ⟨_, _, encode_ref h t (by rw [← htail]; exact hT) hF hne hb, ?_, ?_⟩
      · simp [Cmd.frees, Cmd.destroy, destroySlots, hp]
      · rintro b ⟨slots, hslots, u, q, hu, hq, rfl⟩
        obtain rfl := Option.some.inj hslots
        rcases List.mem_pair.mp hu with hu | hu <;> obtain rfl := Option.some.inj hu
        · obtain rfl := Option.some.inj hq
          exact .inl rfl
        · refine .inr ⟨⟨.binaryBufRef hdr, name⟩, ?_, _, q, by simp [payloadRef, hb], hq, rfl⟩
          rw [hT, htail]
          simp

/-- **The encoder meets the wire format** of every packet of the map, whatever
the members hold. -/
theorem encode_meets_format {e : NvmpType × Option CmdImp} (he : e ∈ protocolMap) (h : Heap)
    (t : NvmpCmd) (ht : t.type = e.1) (hpay : t.PayloadsIn h) (hsize : t.size < 2 ^ 31) :
    ∃ h' t' slots, t.encode h = some (h', t') ∧ Encoded h t h' t' slots :=
  encoded_wellFormed h (ht ▸ protocolMap_wellFormed he) hpay hsize

/-- The values with all members zero and without a payload. -/
def Values.zero : Values ν
  | ⟨.int16, _⟩ => 0
  | ⟨.int32, _⟩ => 0
  | ⟨.int64, _⟩ => 0
  | ⟨.fixedString len, _⟩ => List.Vector.replicate len 0
  | ⟨.binaryBufRef _, _⟩ => { base := none, len := 0 }

/-- A frame of two payload bytes. -/
theorem encode_meets_format_frame :
    ∃ h' t' slots,
      ((Cmd.init smtsFrameRes Values.zero).set resFrame ⟨some ⟨0, 0⟩, 2⟩).encode
          ⟨[[some 7, some 8]]⟩ = some (h', t') ∧
        Encoded ⟨[[some 7, some 8]]⟩
          ((Cmd.init smtsFrameRes Values.zero).set resFrame ⟨some ⟨0, 0⟩, 2⟩) h' t' slots := by
  apply encode_meets_format (e := (smtsFrameRes, none)) (by decide) _ _ rfl
  · intro f hf u hu
    have hall : ∀ f ∈ smtsFrameRes.fields, ∀ v,
        payloadRef ((Cmd.init smtsFrameRes Values.zero).set resFrame ⟨some ⟨0, 0⟩, 2⟩).vals f
          = some v → v = ⟨some ⟨0, 0⟩, 2⟩ := by
      decide
    obtain rfl := hall f hf u hu
    exact ⟨⟨⟨0, 0⟩, rfl, by decide⟩, by decide⟩
  · decide

end Format

end Smts
