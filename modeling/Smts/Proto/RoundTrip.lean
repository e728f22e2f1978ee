import Smts.Proto.Decode
import Mathlib.Data.List.TakeWhile

/-!
# Proto — round trips

Decoding undoes encoding and encoding undoes decoding, on the packets whose
fields all have a fixed width. With a payload the two disagree about its
length unless the constant in the declaration is the width of the fields in
front of it; one of the two declarations has it wrong.
-/

namespace Smts

section Words

variable {ν : Type}

theorem PacketType.WellFormed.head_eq {T : PacketType ν} (hT : T.WellFormed) :
    ∃ fs, T.head = packetLen :: Smts.cmd :: fs := by
  refine ⟨T.head.drop 2, ?_⟩
  conv_lhs => rw [← List.take_append_drop 2 T.head, hT.top]
  rfl

/-- The two words that every packet begins with are the values of its first two
fields. -/
theorem words_serFixed (vals : Values ν) (fs : List (Field ν)) (rest : List Byte) :
    lenWord (serFixed vals (packetLen :: cmd :: fs) ++ rest) = vals packetLen ∧
    cmdWord (serFixed vals (packetLen :: cmd :: fs) ++ rest) = vals cmd := by
  have hsplit : serFixed vals (packetLen :: cmd :: fs) ++ rest
      = BigEndian.bytes 4 (vals packetLen)
        ++ (BigEndian.bytes 4 (vals cmd) ++ (serFixed vals fs ++ rest)) := by
    simp only [serFixed, List.flatMap_cons, List.append_assoc]
    rfl
  rw [hsplit, lenWord, cmdWord, List.take_left' (BigEndian.length_bytes 4 _),
    List.drop_left' (BigEndian.length_bytes 4 _), List.take_left' (BigEndian.length_bytes 4 _)]
  exact ⟨BigEndian.value_bytes (n := 4) _, BigEndian.value_bytes (n := 4) _⟩

end Words

section Fixed

variable {ν : Type} [DecidableEq ν]

/-! ## Packets without a payload -/

theorem Cmd.init_type (T : PacketType ν) (garbage : Values ν) :
    (Cmd.init T garbage).type = T := rfl

/-- A packet that is long enough for its fixed-width fields can be decoded, and
each field has the value of its bytes. -/
theorem decode_fixed {t : Cmd ν} (hF : ∀ f ∈ t.type.fields, f.type.isRef = false)
    (hnd : t.type.fields.Nodup) {bytes : List Byte}
    (hlen : prefixLen t.type.fields ≤ bytes.length) (base : Ptr) (len : BitVec 64) :
    ∃ d, t.decode (Reader.within bytes) base len = some d ∧ d.type = t.type ∧
      serFixed d.vals t.type.fields = bytes.take (prefixLen t.type.fields) := by
  have htake : (Reader.within bytes).take (DecodeState.mk 0 t.vals).buf
      (prefixLen t.type.fields) = some (bytes.take (prefixLen t.type.fields)) :=
    Reader.take_within_zero bytes hlen
  obtain ⟨vals, hwalk, hser, -⟩ := decodeFields_some base hF hnd htake
  refine ⟨{ t with
    vals := vals
    codecBuf := { t.codecBuf with
      originalBuf := some [some { base := some base, len := len }]
      originalBufLen := 1 } }, ?_, rfl, hser⟩
  rw [Cmd.decode, hwalk]
  rfl

/-- The members `encode` assigns are already right: it changes nothing. -/
theorem Cmd.stamped_vals_self {t : Cmd ν} (h₁ : t.vals packetLen = t.len)
    (h₂ : t.vals Smts.cmd = t.type.cmd) : t.stamped.vals = t.vals := by
  funext f
  by_cases hf₂ : f = Smts.cmd
  · subst hf₂
    rw [t.stamped_cmd, h₂]
  · by_cases hf₁ : f = packetLen
    · subst hf₁
      rw [t.stamped_packetLen, h₁]
    · exact t.stamped_vals hf₁ hf₂

end Fixed

/-- The packets of the map without a payload. -/
def payloadFreeTypes : List NvmpType :=
  (protocolMap.map Prod.fst).filter fun T => T.fields.all fun f => !f.type.isRef

example : payloadFreeTypes
    = [abstractCmd, previewCmd, previewCmdRes, mockDvrPreview, testPTZCmd, commonRes] := by
  decide

theorem payloadFree_spec {T : NvmpType} (hT : T ∈ payloadFreeTypes) :
    T.WellFormed ∧ ∀ f ∈ T.fields, f.type.isRef = false := by
  obtain ⟨hmem, hfree⟩ := List.mem_filter.mp hT
  obtain ⟨e, he, rfl⟩ := List.mem_map.mp hmem
  refine ⟨protocolMap_wellFormed he, fun f hf => ?_⟩
  simpa using List.all_eq_true.mp hfree f hf

/-- **Both round trips of the fixed-width packets**: what is encoded decodes
to the same members, and what decodes is encoded to the same bytes. -/
theorem fixed_roundTrip {T : NvmpType} (hT : T ∈ payloadFreeTypes) :
    (∀ (h : Heap) (t : NvmpCmd), t.type = T →
      ∃ h' t' bytes, t.encode h = some (h', t') ∧ t'.wire h' = some bytes ∧
        bytes.length = prefixLen T.fields ∧
        ∀ garbage base len,
          ∃ d, (Cmd.init T garbage).decode (Reader.within bytes) base len = some d ∧
            d.vals packetLen = BitVec.ofNat 32 (prefixLen T.fields) ∧ d.vals cmd = T.cmd ∧
            ∀ f ∈ T.fields, f ≠ packetLen → f ≠ cmd → d.vals f = t.vals f) ∧
    (∀ bytes : List Byte, bytes.length = prefixLen T.fields →
      lenWord bytes = BitVec.ofNat 32 (prefixLen T.fields) → cmdWord bytes = T.cmd →
      ∀ h garbage base len,
        ∃ d h' d', (Cmd.init T garbage).decode (Reader.within bytes) base len = some d ∧
          d.encode h = some (h', d') ∧ d'.wire h' = some bytes) := by
  obtain ⟨hwf, hF⟩ := payloadFree_spec hT
  have hhead : T.head = T.fields := by
    rw [PacketType.head, List.takeWhile_eq_self_iff]
    simpa using hF
  have hnarrow : prefixLen T.fields < 256 := hhead ▸ hwf.narrow
  obtain ⟨fs, hfs⟩ := hwf.head_eq
  rw [hhead] at hfs
  have hne : T.fields ≠ [] := by
    rw [hfs]
    exact List.cons_ne_nil _ _
  have hnull : ∀ t : NvmpCmd, NullRefs t.vals [] := fun t f hf => absurd hf List.not_mem_nil
  -- what a write of an encoded struct sends
  have hencode : ∀ (h : Heap) (t : NvmpCmd), t.type = T →
      ∃ h' t', t.encode h = some (h', t') ∧ t'.wire h' = some (serFixed t.stamped.vals T.fields) ∧
        t.len = BitVec.ofNat 32 (prefixLen T.fields) := by
    intro h t ht
    have hfields : t.type.fields = T.fields ++ [] := by rw [ht, List.append_nil]
    obtain ⟨h', t', henc, hE⟩ := encoded_flat h t hfields hF hne (hnull t) (by omega)
    obtain ⟨bytes, hwire, hser, -⟩ := hE.wire
    have hvals : t'.vals = t.stamped.vals := by
      have := henc.symm.trans (encode_flat h t hfields hF hne (hnull t))
      rw [Option.some.injEq, Prod.mk.injEq] at this
      rw [this.2]
    rw [ht, serialize_fixed h _ hF, Option.some.injEq, hvals] at hser
    exact ⟨h', t', henc, hser ▸ hwire, t.len_flat hfields hF (hnull t)⟩
  constructor
  · intro h t ht
    obtain ⟨h', t', henc, hwire, hlen⟩ := hencode h t ht
    have hsize := length_serFixed t.stamped.vals T.fields
    refine ⟨h', t', _, henc, hwire, hsize, fun garbage base len => ?_⟩
    obtain ⟨d, hdec, -, hd⟩ :=
      decode_fixed (t := Cmd.init T garbage) hF hwf.nodup hsize.ge base len
    rw [Cmd.init_type, ← hsize, List.take_length] at hd
    have heq := serFixed_injective hF hd
    refine ⟨d, hdec, ?_, ?_, ?_⟩
    · rw [heq packetLen (by simp [hfs]), t.stamped_packetLen, hlen]
    · rw [heq cmd (by simp [hfs]), t.stamped_cmd, ht]
    · intro f hf h₁ h₂
      rw [heq f hf, t.stamped_vals h₁ h₂]
  · intro bytes hsize hlw hcw h garbage base len
    obtain ⟨d, hdec, htype, hd⟩ :=
      decode_fixed (t := Cmd.init T garbage) hF hwf.nodup hsize.ge base len
    rw [Cmd.init_type, ← hsize, List.take_length] at hd
    obtain ⟨h', d', henc, hwire, hlen⟩ := hencode h d htype
    have hwords := words_serFixed d.vals fs []
    rw [List.append_nil, ← hfs, hd] at hwords
    have hstamp : d.stamped.vals = d.vals := by
      apply Cmd.stamped_vals_self
      · rw [← hwords.1, hlw, hlen]
      · rw [← hwords.2, hcw, htype]
        rfl
    rw [hstamp, hd] at hwire
    exact ⟨d, h', d', hdec, henc, hwire⟩

/-- A DVR preview request, as the wire has it. -/
theorem fixed_roundTrip_mockDvrPreview :
    ∃ d h' d', (Cmd.init mockDvrPreview Values.zero).decode
        (Reader.within [0, 0, 0, 16, 0, 1, 0x80, 1, 0, 0, 2, 0, 0, 0, 0, 25]) ⟨0, 0⟩ 16 = some d ∧
      d.encode ⟨[]⟩ = some (h', d') ∧
      d'.wire h' = some [0, 0, 0, 16, 0, 1, 0x80, 1, 0, 0, 2, 0, 0, 0, 0, 25] :=
  (fixed_roundTrip (T := mockDvrPreview) (by decide)).2 _ (by decide) (by decide) (by decide) ⟨[]⟩
    Values.zero ⟨0, 0⟩ 16

section Payload

variable {ν : Type}

/-! ## Packets with a payload -/

/-- The length the decoder gives a payload, of a packet that is not shorter
than the declaration's constant. -/
theorem payloadLen_toNat {n : Nat} {hdr : BitVec 32} (hle : hdr.toNat ≤ n) (hn : n < 2 ^ 31) :
    ((BitVec.ofNat 32 n - hdr).signExtend 64).toNat = n - hdr.toNat := by
  have hsub : (BitVec.ofNat 32 n - hdr).toNat = n - hdr.toNat := by
    have := hdr.isLt
    rw [BitVec.toNat_sub, BitVec.toNat_ofNat]
    omega
  have hmsb : (BitVec.ofNat 32 n - hdr).msb = false := by
    rw [BitVec.msb_eq_decide, hsub]
    simp only [decide_eq_false_iff_not]
    omega
  rw [BitVec.signExtend_eq_setWidth_of_msb_false hmsb, BitVec.toNat_setWidth, hsub]
  exact Nat.mod_eq_of_lt (by omega)

/-- `T` ends in a payload of length `t->packet_len - hdr`. -/
structure PacketType.EndsInPayload (T : PacketType ν) (hdr : BitVec 32) (name : FieldName ν) :
    Prop where
  wellFormed : T.WellFormed
  tail : T.tail = [⟨.binaryBufRef hdr, name⟩]
  hdr_le : hdr.toNat ≤ prefixLen T.head

theorem PacketType.EndsInPayload.fields_eq {T : PacketType ν} {hdr : BitVec 32}
    {name : FieldName ν} (hT : T.EndsInPayload hdr name) :
    T.fields = T.head ++ [⟨.binaryBufRef hdr, name⟩] := by
  rw [← hT.tail]
  exact T.head_append_tail

theorem Heap.receive_block (h : Heap) (bytes : List Byte) :
    (h.receive bytes).1.blocks[h.blocks.length]? = some (bytes.map some) := by
  simp [Heap.receive]

theorem Cmd.PayloadsIn.payload {h : Heap} {t : Cmd ν} (hpay : t.PayloadsIn h) {hdr : BitVec 32}
    {name : FieldName ν} (hf : ⟨.binaryBufRef hdr, name⟩ ∈ t.type.fields) :
    ∃ payload, h.payload (t.vals ⟨.binaryBufRef hdr, name⟩) = some payload := by
  by_cases hb : (t.vals ⟨.binaryBufRef hdr, name⟩ : UvBuf).base = none
  · exact ⟨[], by rw [Heap.payload, hb]⟩
  · exact Option.isSome_iff_exists.mp (hpay _ hf _ (by simp [payloadRef, hb])).2

variable [DecidableEq ν]

/-- Decoding a packet whose last field is a payload, wherever the fields in
front of it are read from. -/
theorem decode_payload_of_take {t : Cmd ν} {F : List (Field ν)} {hdr : BitVec 32} {name : FieldName ν}
    (hT : t.type.fields = F ++ [⟨.binaryBufRef hdr, name⟩])
    (hF : ∀ f ∈ F, f.type.isRef = false) (hnd : t.type.fields.Nodup) {read : Reader}
    {bs : List Byte} (htake : read.take 0 (prefixLen F) = some bs) (base : Ptr) (len : BitVec 64) :
    ∃ d, t.decode read base len = some d ∧ d.type = t.type ∧ serFixed d.vals F = bs ∧
      d.vals ⟨.binaryBufRef hdr, name⟩
        = { base := some (base.add (prefixLen F))
            len := (d.vals packetLen - hdr).signExtend 64 } := by
  rw [hT] at hnd
  have hndF : F.Nodup := (List.nodup_append.mp hnd).1
  have hnot : ∀ f ∈ F, f ≠ ⟨.binaryBufRef hdr, name⟩ := by
    rintro f hf rfl
    have := hF _ hf
    simp [FieldType.isRef] at this
  have htake : read.take (DecodeState.mk 0 t.vals).buf (prefixLen F) = some bs := htake
  obtain ⟨vals, hwalk, hser, -⟩ := decodeFields_some base hF hndF htake
  let u : UvBuf := { base := some (base.add (prefixLen F))
                     len := (vals packetLen - hdr).signExtend 64 }
  refine ⟨{ t with
    vals := Function.update vals ⟨.binaryBufRef hdr, name⟩ u
    codecBuf := { t.codecBuf with
      originalBuf := some [some { base := some base, len := len }]
      originalBufLen := 1 } }, ?_, rfl, ?_, ?_⟩
  · rw [Cmd.decode, hT, decodeFields_append, hwalk]
    simp [decodeFields, decodeField, u]
  · rw [← hser]
    exact serFixed_congr fun f hf => Function.update_of_ne (hnot f hf) ..
  · have hkeep : Function.update vals ⟨.binaryBufRef hdr, name⟩ u packetLen = vals packetLen :=
      Function.update_of_ne (by simp) ..
    simp only [hkeep]
    exact Function.update_self ..

/-- Of a packet that is long enough, the packet itself is read. -/
theorem decode_payload {t : Cmd ν} {F : List (Field ν)} {hdr : BitVec 32} {name : FieldName ν}
    (hT : t.type.fields = F ++ [⟨.binaryBufRef hdr, name⟩])
    (hF : ∀ f ∈ F, f.type.isRef = false) (hnd : t.type.fields.Nodup) {bytes : List Byte}
    (hlen : prefixLen F ≤ bytes.length) (base : Ptr) (len : BitVec 64) :
    ∃ d, t.decode (Reader.within bytes) base len = some d ∧ d.type = t.type ∧
      serFixed d.vals F = bytes.take (prefixLen F) ∧
      d.vals ⟨.binaryBufRef hdr, name⟩
        = { base := some (base.add (prefixLen F))
            len := (d.vals packetLen - hdr).signExtend 64 } :=
  decode_payload_of_take hT hF hnd (Reader.take_within_zero bytes hlen) base len

/-- A packet shorter than its fixed fields is read past its end. -/
theorem decode_short {t : Cmd ν} {F R : List (Field ν)} (hT : t.type.fields = F ++ R)
    (hF : ∀ f ∈ F, f.type.isRef = false) {bytes : List Byte}
    (hlen : bytes.length < prefixLen F) (base : Ptr) (len : BitVec 64) :
    t.decode (Reader.within bytes) base len = none := by
  have htake : (Reader.within bytes).take (DecodeState.mk 0 t.vals).buf (prefixLen F) = none := by
    have := Reader.take_within bytes 0 (prefixLen F) (by omega)
    rwa [if_neg (by omega)] at this
  rw [Cmd.decode, hT, decodeFields_append, decodeFields_none base hF htake]
  rfl

/-- The packet a struct encodes to decodes, in a fresh struct of its type, to
the same header fields and a payload of the same length and bytes. -/
def Cmd.Survives (h : Heap) (t : Cmd ν) : Prop :=
  ∃ h' t' bytes, t.encode h = some (h', t') ∧ t'.wire h' = some bytes ∧
    ∀ garbage, ∃ d,
      (Cmd.init t.type garbage).decode (Reader.within bytes) (h'.receive bytes).2
          (BitVec.ofNat 64 bytes.length) = some d ∧
      (∀ f ∈ t.type.fields, f.type.isRef = false → d.vals f = t'.vals f) ∧
      ∀ hdr name, ⟨.binaryBufRef hdr, name⟩ ∈ t.type.fields →
        ∃ payload, h.payload (t.vals ⟨.binaryBufRef hdr, name⟩) = some payload ∧
          (d.vals ⟨.binaryBufRef hdr, name⟩ : UvBuf).len.toNat = payload.length ∧
          (h'.receive bytes).1.payload (d.vals ⟨.binaryBufRef hdr, name⟩) = some payload

/-- Decoded into a fresh struct and encoded again, the packet is the same. -/
def PacketType.Restores (h : Heap) (T : PacketType ν) (bytes : List Byte) : Prop :=
  ∀ garbage, ∃ d h' d',
    (Cmd.init T garbage).decode (Reader.within bytes) (h.receive bytes).2
        (BitVec.ofNat 64 bytes.length) = some d ∧
    d.encode (h.receive bytes).1 = some (h', d') ∧ d'.wire h' = some bytes

/-- **From struct to packet and back**: the constant has to be the width of
the fields in front of the payload. -/
theorem survives_iff {T : PacketType ν} {hdr : BitVec 32} {name : FieldName ν}
    (hT : T.EndsInPayload hdr name) {h : Heap} {t : Cmd ν} (ht : t.type = T)
    (hpay : t.PayloadsIn h) (hsize : t.size < 2 ^ 31) :
    t.Survives h ↔ hdr.toNat = prefixLen T.head := by
  subst ht
  have hF := t.type.head_fixed
  have hfields := hT.fields_eq
  have hmem : (⟨.binaryBufRef hdr, name⟩ : Field ν) ∈ t.type.fields := by simp [hfields]
  obtain ⟨payload, hpayload⟩ := hpay.payload hmem
  obtain ⟨h', t', slots, henc, hE⟩ := encoded_wellFormed h hT.wellFormed hpay hsize
  obtain ⟨bytes, hwire, hser, hlen⟩ := hE.wire
  -- the packet is the header fields and then the payload
  have hbytes : bytes = serFixed t'.vals t.type.head ++ payload := by
    have href : t'.vals ⟨.binaryBufRef hdr, name⟩ = t.vals ⟨.binaryBufRef hdr, name⟩ :=
      hE.others _ (by simp) (by simp)
    have : serialize h t'.vals t.type.fields
        = some (serFixed t'.vals t.type.head ++ payload) := by
      rw [hfields, serialize_append, serialize_fixed h _ hF]
      simp [serialize, serializeField, href, hpayload]
    exact Option.some.inj (hser.symm.trans this)
  have hpre := length_serFixed t'.vals t.type.head
  have hn : bytes.length = prefixLen t.type.head + payload.length := by
    rw [hbytes, List.length_append, hpre]
  have hn31 : bytes.length < 2 ^ 31 := by
    rw [hlen, hE.packetLen, hE.size]
    exact hsize
  -- what the decoder makes of it
  have hdecode : ∀ garbage, ∃ d,
      (Cmd.init t.type garbage).decode (Reader.within bytes) (h'.receive bytes).2
          (BitVec.ofNat 64 bytes.length) = some d ∧
      (∀ f ∈ t.type.head, d.vals f = t'.vals f) ∧
      d.vals ⟨.binaryBufRef hdr, name⟩
        = { base := some ⟨h'.blocks.length, prefixLen t.type.head⟩
            len := (BitVec.ofNat 32 bytes.length - hdr).signExtend 64 } := by
    intro garbage
    obtain ⟨d, hdec, -, hd, hu⟩ := decode_payload (t := Cmd.init t.type garbage)
      (by rw [Cmd.init_type, hfields]) hF (by rw [Cmd.init_type]; exact hT.wellFormed.nodup)
      (show prefixLen t.type.head ≤ bytes.length by omega) (h'.receive bytes).2
      (BitVec.ofNat 64 bytes.length)
    rw [hbytes, List.take_left' hpre] at hd
    have heq := serFixed_injective hF hd
    obtain ⟨fs, hfs⟩ := hT.wellFormed.head_eq
    have hplen : d.vals packetLen = BitVec.ofNat 32 bytes.length := by
      rw [heq packetLen (by simp [hfs]), hlen, BitVec.ofNat_toNat, BitVec.setWidth_eq]
    refine ⟨d, hdec, heq, ?_⟩
    rw [hu, hplen]
    simp [Heap.receive, Ptr.add]
  have hle : hdr.toNat ≤ bytes.length := by
    have := hT.hdr_le
    omega
  have hul := payloadLen_toNat hle hn31
  constructor
  · rintro ⟨h₁, t₁, bytes₁, henc₁, hwire₁, hall⟩
    obtain ⟨rfl, rfl⟩ := Prod.mk.inj (Option.some.inj (henc.symm.trans henc₁))
    obtain rfl := Option.some.inj (hwire.symm.trans hwire₁)
    obtain ⟨d, hdec, -, hu⟩ := hdecode t.vals
    obtain ⟨d', hdec', -, hall⟩ := hall t.vals
    obtain rfl := Option.some.inj (hdec.symm.trans hdec')
    obtain ⟨payload', hp', hl, -⟩ := hall hdr name hmem
    obtain rfl := Option.some.inj (hpayload.symm.trans hp')
    have := hT.hdr_le
    simp only [hu, hul] at hl
    omega
  · intro hhdr
    refine ⟨h', t', bytes, henc, hwire, fun garbage => ?_⟩
    obtain ⟨d, hdec, hheader, hu⟩ := hdecode garbage
    refine ⟨d, hdec, ?_, ?_⟩
    · intro f hf href
      rw [hfields, List.mem_append] at hf
      rcases hf with hf | hf
      · exact hheader f hf
      · obtain rfl := List.mem_singleton.mp hf
        simp [FieldType.isRef] at href
    · intro hdr' name' hf
      have hsame : (⟨.binaryBufRef hdr', name'⟩ : Field ν) = ⟨.binaryBufRef hdr, name⟩ := by
        rw [hfields, List.mem_append] at hf
        rcases hf with hf | hf
        · have := hF _ hf
          simp [FieldType.isRef] at this
        · exact List.mem_singleton.mp hf
      obtain ⟨rfl, rfl⟩ : hdr' = hdr ∧ name' = name := by simpa using hsame
      refine ⟨payload, hpayload, ?_, ?_⟩
      · simp only [hu, hul]
        omega
      · have hload := Heap.loadBytes_of_block (h'.receive_block bytes) (prefixLen t.type.head)
          payload.length (by omega)
        rw [Heap.payload, hu]
        simp only [hul]
        rw [show bytes.length - hdr'.toNat = payload.length by omega, hload, hbytes,
          List.drop_left' hpre, List.take_length]

/-- **From packet to struct and back**: the same condition. -/
theorem restores_iff {T : PacketType ν} {hdr : BitVec 32} {name : FieldName ν}
    (hT : T.EndsInPayload hdr name) (h : Heap) {bytes : List Byte}
    (hlo : prefixLen T.head ≤ bytes.length) (hhi : bytes.length < 2 ^ 31)
    (hlw : lenWord bytes = BitVec.ofNat 32 bytes.length) (hcw : cmdWord bytes = T.cmd) :
    T.Restores h bytes ↔ hdr.toNat = prefixLen T.head := by
  have hF := T.head_fixed
  have hfields := hT.fields_eq
  have hle := hT.hdr_le
  obtain ⟨fs, hfs⟩ := hT.wellFormed.head_eq
  have hul := payloadLen_toNat (show hdr.toNat ≤ bytes.length by omega) hhi
  -- what decoding and encoding make of it
  have hrun : ∀ garbage, ∃ d h' d',
      (Cmd.init T garbage).decode (Reader.within bytes) (h.receive bytes).2
          (BitVec.ofNat 64 bytes.length) = some d ∧
      d.encode (h.receive bytes).1 = some (h', d') ∧
      d'.wire h' = ((h.receive bytes).1.loadBytes ⟨h.blocks.length, prefixLen T.head⟩
        (bytes.length - hdr.toNat)).map (fun bs => serFixed d.stamped.vals T.head ++ bs) ∧
      serFixed d.vals T.head = bytes.take (prefixLen T.head) ∧
      (hdr.toNat = prefixLen T.head → d.stamped.vals = d.vals) := by
    intro garbage
    obtain ⟨d, hdec, hty, hd, hu⟩ := decode_payload (t := Cmd.init T garbage)
      (by rw [Cmd.init_type, hfields]) hF (by rw [Cmd.init_type]; exact hT.wellFormed.nodup)
      hlo (h.receive bytes).2 (BitVec.ofNat 64 bytes.length)
    rw [Cmd.init_type] at hty
    have hwords := words_serFixed d.vals fs (bytes.drop (prefixLen T.head))
    rw [← hfs, hd, List.take_append_drop, hlw, hcw] at hwords
    rw [← hwords.1] at hu
    have hdT : d.type.fields = T.head ++ [⟨.binaryBufRef hdr, name⟩] := by rw [hty, hfields]
    obtain ⟨h', d', henc, hwire⟩ := encode_ref_wire (h.receive bytes).1 d hdT hF
      hT.wellFormed.head_ne_nil hu rfl (by simp [Heap.receive]) (by omega)
    refine ⟨d, h', d', hdec, henc, ?_, hd, fun heq => ?_⟩
    · rw [hwire]
      simp only [hul, Heap.receive, Ptr.add, Int.zero_add]
    · apply Cmd.stamped_vals_self
      · rw [← hwords.1, d.len_ref hdT hF hu (Option.some_ne_none _)]
        simp only [hul]
        rw [show prefixLen T.head + (bytes.length - hdr.toNat) = bytes.length by omega]
      · rw [← hwords.2, hty]
  constructor
  · intro hall
    obtain ⟨d, h', d', hdec, henc, hwire, -, -⟩ := hrun Values.zero
    obtain ⟨d₁, h₁, d₁', hdec₁, henc₁, hwire₁⟩ := hall Values.zero
    obtain rfl := Option.some.inj (hdec.symm.trans hdec₁)
    obtain ⟨rfl, rfl⟩ := Prod.mk.inj (Option.some.inj (henc.symm.trans henc₁))
    obtain ⟨bs, hbs, hcat⟩ := Option.map_eq_some_iff.mp (hwire.symm.trans hwire₁)
    have hsum := congrArg List.length hcat
    rw [List.length_append, length_serFixed, Heap.length_loadBytes hbs] at hsum
    omega
  · intro heq garbage
    obtain ⟨d, h', d', hdec, henc, hwire, hd, hstamp⟩ := hrun garbage
    refine ⟨d, h', d', hdec, henc, ?_⟩
    have hload := Heap.loadBytes_of_block (h.receive_block bytes) (prefixLen T.head)
      (bytes.length - hdr.toNat) (by omega)
    rw [hwire, hload, hstamp heq, hd]
    simp only [Option.map_some, Option.some.injEq]
    rw [List.take_of_length_le (l := bytes.drop _) (by rw [List.length_drop]; omega),
      List.take_append_drop]

end Payload

/-- The packets of the map with a payload. -/
def payloadTypes : List NvmpType :=
  (protocolMap.map Prod.fst).filter fun T => T.fields.any fun f => f.type.isRef

theorem payloadTypes_eq : payloadTypes = [smtsFrameRes, mockDvrFrame] := by decide

theorem smtsFrameRes_endsInPayload : smtsFrameRes.EndsInPayload 20 (.user .frame) :=
  ⟨protocolMap_wellFormed (e := (smtsFrameRes, none)) (by decide), by decide, by decide⟩

theorem mockDvrFrame_endsInPayload : mockDvrFrame.EndsInPayload 24 (.user .frame) :=
  ⟨protocolMap_wellFormed (e := (mockDvrFrame, none)) (by decide), by decide, by decide⟩

/-- **Only the DVR's frames survive.** `smts_frame_res` is declared with the
length of the head of a packet, but `frame_type` stands between the head and
the payload. -/
theorem frame_roundTrip_iff {T : NvmpType} (hT : T ∈ payloadTypes) :
    (∀ (h : Heap) (t : NvmpCmd), t.type = T → t.PayloadsIn h → t.size ≤ maxPacketLen →
      (t.Survives h ↔ T = mockDvrFrame)) ∧
    (∀ (h : Heap) (bytes : List Byte), prefixLen T.head ≤ bytes.length →
      bytes.length ≤ maxPacketLen → lenWord bytes = BitVec.ofNat 32 bytes.length →
      cmdWord bytes = T.cmd → (T.Restores h bytes ↔ T = mockDvrFrame)) := by
  have hmax : maxPacketLen < 2 ^ 31 := by decide
  obtain ⟨hdr, name, hends, hiff⟩ : ∃ hdr name, T.EndsInPayload hdr name ∧
      (hdr.toNat = prefixLen T.head ↔ T = mockDvrFrame) := by
    rw [payloadTypes_eq] at hT
    rcases List.mem_pair.mp hT with rfl | rfl
    · exact ⟨20, .user .frame, smtsFrameRes_endsInPayload, by decide⟩
    · exact ⟨24, .user .frame, mockDvrFrame_endsInPayload, by decide⟩
  constructor
  · intro h t ht hpay hsize
    rw [survives_iff hends ht hpay (by omega), hiff]
  · intro h bytes hlo hhi hlw hcw
    rw [restores_iff hends h hlo (by omega) hlw hcw, hiff]

/-- A heap with one buffer of three bytes, which the caller owns. -/
def threeBytes : Heap := ⟨[[some 7, some 8, some 9]]⟩

/-- A frame of the DVR's with these bytes for its payload. -/
def threeBytesFrame : NvmpCmd :=
  (Cmd.init mockDvrFrame Values.zero).set ⟨.binaryBufRef 20, .user .frame⟩
    { base := some ⟨0, 0⟩, len := 3 }

theorem frame_roundTrip_iff_mockDvrFrame :
    threeBytesFrame.Survives threeBytes ∧
    mockDvrFrame.Restores ⟨[]⟩ ([0, 0, 0, 25, 0, 1, 0x80, 2] ++ List.replicate 16 0 ++ [7]) := by
  have hiff := frame_roundTrip_iff (T := mockDvrFrame) (by decide)
  constructor
  · refine (hiff.1 threeBytes threeBytesFrame rfl ?_ (by decide)).mpr rfl
    intro f hf u hu
    have hrefs : ∀ f ∈ mockDvrFrame.fields, ∀ u ∈ payloadRef threeBytesFrame.vals f,
        u = { base := some ⟨0, 0⟩, len := 3 } := by
      decide
    obtain rfl := hrefs f hf u hu
    exact ⟨⟨⟨0, 0⟩, rfl, by decide⟩, by decide⟩
  · exact (hiff.2 ⟨[]⟩ _ (by decide) (by decide) (by decide) (by decide)).mpr rfl

/-- A frame for a client does not survive, not even an empty one: it decodes
with four bytes of payload, and encoded again is four bytes longer. -/
theorem smtsFrameRes_not_roundTrip :
    ¬ (Cmd.init smtsFrameRes Values.zero).Survives ⟨[]⟩ ∧
    ¬ smtsFrameRes.Restores ⟨[]⟩
      ([0, 0, 0, 24, 0x80, 0x05, 0x01, 0x02] ++ List.replicate 16 0) := by
  have hends := smtsFrameRes_endsInPayload
  constructor
  · rw [survives_iff hends rfl ?_ (by decide)]
    · decide
    · intro f hf u hu
      have hnone : ∀ f ∈ smtsFrameRes.fields,
          payloadRef (Cmd.init smtsFrameRes Values.zero).vals f = none := by
        decide
      rw [Cmd.init_type] at hf
      rw [hnone f hf] at hu
      cases hu
  · rw [restores_iff hends ⟨[]⟩ (by decide) (by decide) (by decide) (by decide)]
    decide

end Smts
