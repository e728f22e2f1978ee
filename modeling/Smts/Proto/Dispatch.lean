import Smts.Proto.RoundTrip

/-!
# Proto — decoding what arrives

The two places a received packet is decoded: `dispatch_packet` on the side of
the clients, the DVR's read callback on the other. Neither looks at the length
of the packet first, so whether a decode stays inside it depends on what the
peer sent.
-/

namespace Smts

/-! ## The two decoders -/

/-- `dispatch_packet`, up to the call of the handler. In the `default` branch
nothing is decoded. -/
def dispatchDecode (read : Reader) (base : Ptr) (len : BitVec 64) (garbage : Values NvmpName) :
    Option (Option (NvmpCmd × Option CmdImp)) := do
  let cmd ← decodeInt32 read 4
  match protocolMap.find? fun e => e.1.cmd == cmd with
  | some (T, imp) => do
      let t ← (Cmd.init T garbage).decode read base len
      some (some (t, imp))
  | none => some none

/-- `on_dvr_client_read_frame_cb`, up to the decode: whatever the DVR sends is
taken for a frame. -/
def dvrDecode (read : Reader) (base : Ptr) (len : BitVec 64) (garbage : Values NvmpName) :
    Option NvmpCmd :=
  (Cmd.init mockDvrFrame garbage).decode read base len

/-- The struct a packet is decoded into is the only one that points into its
buffer, and gives it back. -/
theorem decode_ledger {ν : Type} [DecidableEq ν] {T : PacketType ν} {garbage : Values ν}
    {read : Reader} {base : Ptr} {len : BitVec 64} {t : Cmd ν}
    (h : (Cmd.init T garbage).decode read base len = some t) :
    t.ref = 0 ∧ t.data = none ∧ t.frees = [.block base, .slots, .struct] ∧
      ∀ b, t.Uses b → b = base.block := by
  obtain ⟨st, -, h⟩ := Option.bind_eq_some_iff.mp h
  obtain rfl := Option.some.inj h
  refine ⟨rfl, rfl, ?_, ?_⟩
  · simp [Cmd.frees, Cmd.destroy, destroySlots, Cmd.init]
  · rintro b ⟨slots, hslots, u, p, hu, hp, rfl⟩
    obtain rfl := Option.some.inj hslots
    obtain rfl := Option.some.inj (List.mem_singleton.mp hu)
    obtain rfl := Option.some.inj hp
    rfl

/-- A packet that was received and is passed on has not changed. -/
theorem decode_wire {ν : Type} [DecidableEq ν] {T : PacketType ν} {garbage : Values ν}
    {read : Reader} {b : Nat} {bytes : List Byte} {t : Cmd ν} {h : Heap}
    (hblock : h.blocks[b]? = some (bytes.map some)) (hmax : bytes.length < 2 ^ 64)
    (hdec : (Cmd.init T garbage).decode read ⟨b, 0⟩ (BitVec.ofNat 64 bytes.length) = some t) :
    t.wire h = some bytes := by
  obtain ⟨st, -, hdec⟩ := Option.bind_eq_some_iff.mp hdec
  obtain rfl := Option.some.inj hdec
  have hload := Heap.loadBytes_of_block hblock 0 bytes.length (by omega)
  have hlen : (BitVec.ofNat 64 bytes.length).toNat = bytes.length := by
    rw [BitVec.toNat_ofNat, Nat.mod_eq_of_lt hmax]
  rw [List.drop_zero, List.take_length] at hload
  have hload : h.loadBytes ⟨b, 0⟩ bytes.length = some bytes := hload
  simp [Cmd.wire, Heap.gather, hlen, hload]

/-- Whatever the DVR sends, a payload inside its buffer is made of it. -/
theorem dvrDecode_beyond (bytes : List Byte) (junk : Int → Byte) (base : Ptr) (len : BitVec 64)
    (garbage : Values NvmpName) :
    ∃ t, dvrDecode (Reader.beyond bytes junk) base len garbage = some t ∧
      t.vals dvrFrame = { base := some (base.add (prefixLen mockDvrFrame.head))
                          len := (t.vals packetLen - 24).signExtend 64 } := by
  obtain ⟨bs, hbs⟩ := Reader.take_beyond_some bytes junk 0 (prefixLen mockDvrFrame.head)
  obtain ⟨t, hdec, -, -, hu⟩ := decode_payload_of_take (t := Cmd.init mockDvrFrame garbage)
    mockDvrFrame_endsInPayload.fields_eq mockDvrFrame.head_fixed
    mockDvrFrame_endsInPayload.wellFormed.nodup hbs base len
  exact ⟨t, hdec, hu⟩

/-- Where everything can be read, every packet can be decoded. -/
theorem decodeFields_total {ν : Type} [DecidableEq ν] {read : Reader}
    (hread : ∀ i n, ∃ bs, read.take i n = some bs) (base : Ptr) (st : DecodeState ν)
    (F : List (Field ν)) : ∃ st', decodeFields read base st F = some st' := by
  induction F generalizing st with
  | nil => exact ⟨st, rfl⟩
  | cons f F ih =>
      obtain ⟨st₁, hst⟩ : ∃ st₁, decodeField read base st f = some st₁ := by
        by_cases hf : f.type.isRef = false
        · obtain ⟨bs, hbs⟩ := hread st.buf f.type.width
          exact ⟨_, decodeField_some base st hf hbs⟩
        · obtain ⟨k, name⟩ := f
          cases k with
          | binaryBufRef hdr => exact ⟨_, rfl⟩
          | _ => exact absurd rfl hf
      obtain ⟨st', hst'⟩ := ih st₁
      exact ⟨st', by rw [decodeFields, hst]; exact hst'⟩

theorem decode_total {ν : Type} [DecidableEq ν] {read : Reader}
    (hread : ∀ i n, ∃ bs, read.take i n = some bs) (base : Ptr) (len : BitVec 64) (t : Cmd ν) :
    ∃ t', t.decode read base len = some t' := by
  obtain ⟨st, hst⟩ := decodeFields_total hread base { buf := 0, vals := t.vals } t.type.fields
  rw [Cmd.decode, hst]
  exact ⟨_, rfl⟩

/-- Whatever a client sends, its command is looked up. -/
theorem dispatchDecode_beyond (bytes : List Byte) (junk : Int → Byte) (base : Ptr) (len : BitVec 64)
    (garbage : Values NvmpName) :
    ∃ cmd found, decodeInt32 (Reader.beyond bytes junk) 4 = some cmd ∧
      dispatchDecode (Reader.beyond bytes junk) base len garbage = some found ∧
      found.map Prod.snd = (protocolMap.find? fun e => e.1.cmd == cmd).map Prod.snd := by
  obtain ⟨bs, hbs⟩ := Reader.take_beyond_some bytes junk 4 4
  have hcmd : decodeInt32 (Reader.beyond bytes junk) 4 = some (BigEndian.value 32 bs) := by
    rw [decodeInt32, decodeInt_value, hbs]
    rfl
  rw [dispatchDecode, hcmd]
  simp only [Option.bind_eq_bind, Option.bind_some]
  cases hfind : protocolMap.find? fun e => e.1.cmd == BigEndian.value 32 bs with
  | none => exact ⟨_, none, rfl, rfl, by rw [hfind]; rfl⟩
  | some e =>
      obtain ⟨t, ht⟩ := decode_total (Reader.take_beyond_some bytes junk) base len
        (Cmd.init e.1 garbage)
      refine ⟨_, some (t, e.2), rfl, ?_, by rw [hfind]; rfl⟩
      simp only [ht, Option.bind_some]

/-- The payloads of a struct denote ranges inside the `n` bytes from `base` on. -/
def Cmd.InRange {ν : Type} (base : Ptr) (n : Nat) (t : Cmd ν) : Prop :=
  ∀ hdr name, ⟨.binaryBufRef hdr, name⟩ ∈ t.type.fields →
    ∃ p, (t.vals ⟨.binaryBufRef hdr, name⟩ : UvBuf).base = some p ∧ p.block = base.block ∧
      base.off ≤ p.off ∧ 0 ≤ (t.vals ⟨.binaryBufRef hdr, name⟩ : UvBuf).len.toInt ∧
      p.off + (t.vals ⟨.binaryBufRef hdr, name⟩ : UvBuf).len.toInt ≤ base.off + n

/-- `dispatch_packet` reads only the packet and produces only ranges of it. -/
def DispatchInside (bytes : List Byte) : Prop :=
  ∀ base len garbage, ∃ r, dispatchDecode (Reader.within bytes) base len garbage = some r ∧
    ∀ t imp, r = some (t, imp) → t.InRange base bytes.length

/-- The decode of the packet on the DVR's side stays inside the packet, too. -/
def DvrInside (bytes : List Byte) : Prop :=
  ∀ base len garbage, ∃ t, dvrDecode (Reader.within bytes) base len garbage = some t ∧
    t.InRange base bytes.length

/-- What a client has to send for its packet to be decoded inside: a command
word, and behind it, if the command is known, all fields of fixed width; and
the command must not be the one for frames, whose payload reaches four bytes
too far. -/
def Dispatchable (bytes : List Byte) : Prop :=
  8 ≤ bytes.length ∧ ∀ e ∈ protocolMap, e.1.cmd = cmdWord bytes →
    prefixLen e.1.head ≤ bytes.length ∧ e.1 ≠ smtsFrameRes

instance (bytes : List Byte) : Decidable (Dispatchable bytes) := by
  unfold Dispatchable
  infer_instance

section Inside

variable {ν : Type} [DecidableEq ν]

/-! ## When a struct's decode stays inside -/

/-- The decode of the packet into a fresh struct of type `T` stays inside. -/
def PacketType.Inside (T : PacketType ν) (bytes : List Byte) (base : Ptr) (len : BitVec 64)
    (garbage : Values ν) : Prop :=
  ∃ t, (Cmd.init T garbage).decode (Reader.within bytes) base len = some t ∧
    t.InRange base bytes.length

theorem inside_flat {T : PacketType ν} (hT : T.WellFormed) (htail : T.tail = [])
    (bytes : List Byte) (base : Ptr) (len : BitVec 64) (garbage : Values ν) :
    T.Inside bytes base len garbage ↔ prefixLen T.head ≤ bytes.length := by
  have hfields : T.fields = T.head := by
    have := T.head_append_tail
    rwa [htail, List.append_nil] at this
  have hF : ∀ f ∈ T.fields, f.type.isRef = false := hfields ▸ T.head_fixed
  constructor
  · rintro ⟨t, hdec, -⟩
    by_contra hshort
    rw [decode_short (t := Cmd.init T garbage) T.head_append_tail T.head_fixed (by omega)] at hdec
    cases hdec
  · intro hlen
    have hlen : prefixLen (Cmd.init T garbage).type.fields ≤ bytes.length := by
      rwa [Cmd.init_type, hfields]
    obtain ⟨t, hdec, hty, -⟩ := decode_fixed (t := Cmd.init T garbage) hF hT.nodup hlen base len
    refine ⟨t, hdec, fun hdr name hmem => ?_⟩
    rw [hty] at hmem
    have := hF _ hmem
    simp [FieldType.isRef] at this

theorem inside_payload {T : PacketType ν} {hdr : BitVec 32} {name : FieldName ν}
    (hT : T.EndsInPayload hdr name) {bytes : List Byte} (hmax : bytes.length < 2 ^ 31)
    (hlw : lenWord bytes = BitVec.ofNat 32 bytes.length) (base : Ptr) (len : BitVec 64)
    (garbage : Values ν) :
    T.Inside bytes base len garbage ↔
      prefixLen T.head ≤ bytes.length ∧ hdr.toNat = prefixLen T.head := by
  by_cases hlen : prefixLen T.head ≤ bytes.length
  · obtain ⟨t, hdec, hty, hser, hu⟩ := decode_payload (t := Cmd.init T garbage)
      (by rw [Cmd.init_type, hT.fields_eq]) T.head_fixed
      (by rw [Cmd.init_type]; exact hT.wellFormed.nodup) hlen base len
    rw [Cmd.init_type] at hty
    obtain ⟨fs, hfs⟩ := hT.wellFormed.head_eq
    have hwords := words_serFixed t.vals fs (bytes.drop (prefixLen T.head))
    rw [← hfs, hser, List.take_append_drop, hlw] at hwords
    rw [← hwords.1] at hu
    have hle := hT.hdr_le
    have hul := payloadLen_toNat (show hdr.toNat ≤ bytes.length by omega) hmax
    -- the length the decoder gives the payload, as a number
    have huI : ((BitVec.ofNat 32 bytes.length - hdr).signExtend 64).toInt
        = ((bytes.length - hdr.toNat : Nat) : Int) := by
      rw [BitVec.toInt_eq_toNat_of_lt (by omega), hul]
    have hmem : (⟨.binaryBufRef hdr, name⟩ : Field ν) ∈ t.type.fields := by
      simp [hty, hT.fields_eq]
    -- the payload begins behind the fixed fields, so it ends with the packet just when the width
    -- agrees
    have hrange : t.InRange base bytes.length ↔ hdr.toNat = prefixLen T.head := by
      constructor
      · intro hin
        obtain ⟨p, hp, -, -, -, hend⟩ := hin hdr name hmem
        simp only [hu, Option.some.injEq] at hp
        simp only [hu, huI, ← hp, Ptr.add_off] at hend
        omega
      · intro heq hdr' name' hmem'
        have hsame : (⟨.binaryBufRef hdr', name'⟩ : Field ν) = ⟨.binaryBufRef hdr, name⟩ := by
          rw [hty, hT.fields_eq, List.mem_append] at hmem'
          rcases hmem' with hf | hf
          · have := T.head_fixed _ hf
            simp [FieldType.isRef] at this
          · exact List.mem_singleton.mp hf
        obtain ⟨rfl, rfl⟩ : hdr' = hdr ∧ name' = name := by simpa using hsame
        refine ⟨base.add (prefixLen T.head), by rw [hu], rfl, ?_, ?_, ?_⟩
        · simp
        · simp only [hu, huI]
          omega
        · simp only [hu, huI, Ptr.add_off]
          omega
    rw [← hrange]
    constructor
    · rintro ⟨t', hdec', hin⟩
      obtain rfl := Option.some.inj (hdec.symm.trans hdec')
      exact ⟨hlen, hin⟩
    · rintro ⟨-, hin⟩
      exact ⟨t, hdec, hin⟩
  · constructor
    · rintro ⟨t, hdec, -⟩
      rw [decode_short (t := Cmd.init T garbage) T.head_append_tail T.head_fixed (by omega)]
        at hdec
      cases hdec
    · rintro ⟨hge, -⟩
      exact absurd hge hlen

end Inside

/-! ## When the two decoders stay inside -/

theorem protocolMap_cases : ∀ e ∈ protocolMap,
    (e.1.tail = [] ∧ e.1 ≠ smtsFrameRes) ∨ e.1 = smtsFrameRes ∨ e.1 = mockDvrFrame := by
  decide

theorem inside_map {e : NvmpType × Option CmdImp} (he : e ∈ protocolMap) {bytes : List Byte}
    (hmax : bytes.length < 2 ^ 31) (hlw : lenWord bytes = BitVec.ofNat 32 bytes.length)
    (base : Ptr) (len : BitVec 64) (garbage : Values NvmpName) :
    e.1.Inside bytes base len garbage ↔
      prefixLen e.1.head ≤ bytes.length ∧ e.1 ≠ smtsFrameRes := by
  rcases protocolMap_cases e he with ⟨htail, hne⟩ | heq | heq
  · rw [inside_flat (protocolMap_wellFormed he) htail]
    exact ⟨fun hlen => ⟨hlen, hne⟩, And.left⟩
  · rw [heq, inside_payload smtsFrameRes_endsInPayload hmax hlw]
    exact ⟨fun h => absurd h.2 (by decide), fun h => absurd rfl h.2⟩
  · rw [heq, inside_payload mockDvrFrame_endsInPayload hmax hlw]
    exact ⟨fun h => ⟨h.1, by decide⟩, fun h => ⟨h.1, by decide⟩⟩

theorem decodeInt32_cmd {bytes : List Byte} (hlen : packetLenFieldSize < bytes.length) :
    decodeInt32 (Reader.within bytes) 4
      = if 8 ≤ bytes.length then some (cmdWord bytes) else none := by
  rw [decodeInt32, decodeInt_value]
  have htake := Reader.take_within bytes 4 4 (Nat.le_of_lt hlen)
  rw [show ((4 : Nat) : Int) = 4 from rfl] at htake
  rw [htake]
  split <;> rfl

/-- A command number stands for one packet type and one handler: no two entries
of `PROTOCOL_MAP` share it. -/
theorem protocolMap_cmd_injective : ∀ e ∈ protocolMap, ∀ e' ∈ protocolMap,
    e.1.cmd = e'.1.cmd → e = e' := by
  decide

/-- **When decoding stays inside the packet**: on the side of the clients when
the packet is dispatchable, on the DVR's when it has the fixed fields of a
frame. -/
theorem decode_inside_iff {bytes : List Byte} (hlen : packetLenFieldSize < bytes.length)
    (hmax : bytes.length ≤ maxPacketLen)
    (hlw : lenWord bytes = BitVec.ofNat 32 bytes.length) :
    (DispatchInside bytes ↔ Dispatchable bytes) ∧
    (DvrInside bytes ↔ prefixLen mockDvrFrame.head ≤ bytes.length) := by
  have hmax31 : bytes.length < 2 ^ 31 := by
    have : maxPacketLen < 2 ^ 31 := by decide
    omega
  have hcmd := decodeInt32_cmd hlen
  refine ⟨⟨fun hin => ?_, fun ⟨h8, hall⟩ base len garbage => ?_⟩, ?_⟩
  · obtain ⟨r, hr, hrange⟩ := hin ⟨0, 0⟩ 0 Values.zero
    rw [dispatchDecode, hcmd] at hr
    by_cases h8 : 8 ≤ bytes.length
    · refine ⟨h8, fun e he hec => ?_⟩
      rw [if_pos h8] at hr
      simp only [Option.bind_eq_bind, Option.bind_some] at hr
      -- a command that is not in the table is not decoded, and reads nothing
      cases hfind : protocolMap.find? fun e => e.1.cmd == cmdWord bytes with
      | none =>
          have := List.find?_eq_none.mp hfind e he
          simp [hec] at this
      | some e' =>
          have he' := List.mem_of_find?_eq_some hfind
          have hec' : e'.1.cmd = cmdWord bytes := by simpa using List.find?_some hfind
          obtain rfl := protocolMap_cmd_injective e he e' he' (hec.trans hec'.symm)
          rw [hfind] at hr
          obtain ⟨t, hdec, ht⟩ := Option.bind_eq_some_iff.mp hr
          exact (inside_map he hmax31 hlw ⟨0, 0⟩ 0 Values.zero).mp
            ⟨t, hdec, hrange t e.2 (Option.some.inj ht).symm⟩
    · rw [if_neg h8] at hr
      cases hr
  · rw [dispatchDecode, hcmd, if_pos h8]
    simp only [Option.bind_eq_bind, Option.bind_some]
    cases hfind : protocolMap.find? fun e => e.1.cmd == cmdWord bytes with
    | none => exact ⟨none, rfl, fun t imp h => by cases h⟩
    | some e =>
        have he := List.mem_of_find?_eq_some hfind
        have hec : e.1.cmd = cmdWord bytes := by simpa using List.find?_some hfind
        obtain ⟨t, hdec, hin⟩ :=
          (inside_map he hmax31 hlw base len garbage).mpr (hall e he hec)
        refine ⟨some (t, e.2), ?_, fun t' imp h => ?_⟩
        · simp only [hdec, Option.bind_some]
        · obtain ⟨rfl, rfl⟩ := Prod.mk.inj (Option.some.inj h)
          exact hin
  · have hmap := fun base len garbage =>
      inside_map (e := (mockDvrFrame, none)) (by decide) hmax31 hlw base len garbage
    constructor
    · intro hin
      exact ((hmap ⟨0, 0⟩ 0 Values.zero).mp (hin _ _ _)).1
    · intro hge base len garbage
      exact (hmap base len garbage).mpr ⟨hge, by decide⟩

/-- A preview request of the DVR's and an empty frame. -/
theorem decode_inside_iff_holds :
    DispatchInside [0, 0, 0, 16, 0, 1, 0x80, 1, 0, 0, 2, 0, 0, 0, 0, 25] ∧
    DvrInside ([0, 0, 0, 24] ++ List.replicate 20 0) :=
  ⟨(decode_inside_iff (by decide) (by decide) (by decide)).1.mpr (by decide),
    (decode_inside_iff (by decide) (by decide) (by decide)).2.mpr (by decide)⟩

/-- Five bytes are enough for the framing and too few for either decoder. -/
theorem decode_not_inside :
    ¬ DispatchInside [0, 0, 0, 5, 0] ∧ ¬ DvrInside [0, 0, 0, 5, 0] := by
  constructor
  · intro hin
    obtain ⟨r, hr, -⟩ := hin ⟨0, 0⟩ 5 Values.zero
    have hnone : dispatchDecode (Reader.within [0, 0, 0, 5, 0]) ⟨0, 0⟩ 5 Values.zero = none := by
      rw [dispatchDecode, decodeInt32_cmd (by decide)]
      rfl
    rw [hnone] at hr
    cases hr
  · intro hin
    obtain ⟨t, ht, -⟩ := hin ⟨0, 0⟩ 5 Values.zero
    have hnone : dvrDecode (Reader.within [0, 0, 0, 5, 0]) ⟨0, 0⟩ 5 Values.zero = none :=
      decode_short (t := Cmd.init mockDvrFrame Values.zero) mockDvrFrame.head_append_tail
        mockDvrFrame.head_fixed (by decide) _ _
    rw [hnone] at ht
    cases ht

end Smts
