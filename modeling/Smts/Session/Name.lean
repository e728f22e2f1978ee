import Smts.Lib.Checked
import Smts.Lib.Numeral
import Smts.Session.Manager

/-!
# Session — names

`init_media_session` prints what identifies a session into a field of 64 bytes.
The name fits, and says which session it is.
-/

namespace Smts

open CString Checked Numeral

/-- `SESSION_NAME_FILED_SIZE`. -/
def sessionNameFiledSize : Nat := 64

/-- `"smts_session"`. -/
def smtsSessionName : Str := [115, 109, 116, 115, 95, 115, 101, 115, 115, 105, 111, 110]

/-- What `init_media_session` prints into `s->name`, with
`"%s_%lld_%d_%d"`. -/
def sessionName (dvrId : BitVec 64) (channelNo : BitVec 16) (frameMode : BitVec 32) : Str :=
  smtsSessionName ++ 95 :: (numeral 10 dvrId.toInt ++ 95 ::
    (numeral 10 channelNo.toInt ++ 95 :: numeral 10 frameMode.toInt))

section Decimal

variable {w : Nat}

/-- No underscore is part of a decimal, and no NUL. -/
theorem notMem_decimal (z : Int) :
    (95 : BitVec 8) ∉ numeral 10 z ∧ (0 : BitVec 8) ∉ numeral 10 z := by
  constructor <;> intro h
  · rcases mem_numeral (by decide) h with h | ⟨d, hd, h⟩
    · cases h
    · exact (digitByte_spec d (by omega)).2.2.1 h.symm
  · rcases mem_numeral (by decide) h with h | ⟨d, hd, h⟩
    · cases h
    · exact (digitByte_spec d (by omega)).2.2.2.1 h.symm

theorem numeral_toInt_inj {x y : BitVec w} :
    numeral 10 x.toInt = numeral 10 y.toInt ↔ x = y := by
  rw [(numeral_injective (by decide) (by decide)).eq_iff, BitVec.toInt_inj]

/-- A sign and the digits of the smallest value. -/
theorem length_decimal_le (x : BitVec w) {k : Nat} (hk : 0 < k) (h : 2 ^ (w - 1) < 10 ^ k) :
    (numeral 10 x.toInt).length ≤ k + 1 := by
  obtain ⟨hmin, hmax⟩ := fits_toInt x
  have habs : x.toInt.natAbs < 10 ^ k := by omega
  have hnumeral := length_numeral_le (by decide) hk habs
  have hsign := length_sign_le x.toInt
  omega

/-- What stands in front of the first separator can be told. -/
theorem append_cons_inj {x : BitVec 8} {s t u v : Str} (hs : x ∉ s) (ht : x ∉ t) :
    s ++ x :: u = t ++ x :: v ↔ s = t ∧ u = v := by
  constructor
  · intro h
    have hsplit := congrArg (List.splitOn x) h
    rw [List.splitOn_append_cons_self_of_not_mem hs, List.splitOn_append_cons_self_of_not_mem ht]
      at hsplit
    obtain rfl := (List.cons.inj hsplit).1
    exact ⟨rfl, (List.cons.inj (List.append_cancel_left h)).2⟩
  · rintro ⟨rfl, rfl⟩
    rfl

end Decimal

/-- **Session names.** A name and its NUL fit the field, and no two sessions that
differ in what they are asked for by have the same one. -/
theorem sessionName_identifies (dvrId : BitVec 64) (channelNo : BitVec 16) (frameMode : BitVec 32) :
    (sessionName dvrId channelNo frameMode ++ [0]).length ≤ sessionNameFiledSize ∧
      (0 : BitVec 8) ∉ sessionName dvrId channelNo frameMode ∧
      ∀ dvrId' channelNo' frameMode',
        sessionName dvrId channelNo frameMode = sessionName dvrId' channelNo' frameMode' ↔
          dvrId = dvrId' ∧ channelNo = channelNo' ∧ frameMode = frameMode' := by
  refine ⟨?_, ?_, fun dvrId' channelNo' frameMode' => ?_⟩
  · have hdvr := length_decimal_le dvrId (by decide : 0 < 19) (by decide)
    have hchannel := length_decimal_le channelNo (by decide : 0 < 5) (by decide)
    have hmode := length_decimal_le frameMode (by decide : 0 < 10) (by decide)
    have hfront : smtsSessionName.length = 12 := rfl
    simp only [sessionName, List.length_append, List.length_cons, List.length_nil, hfront,
      sessionNameFiledSize]
    omega
  · have hfront : (0 : BitVec 8) ∉ smtsSessionName := by decide
    have hdvr := (notMem_decimal dvrId.toInt).2
    have hchannel := (notMem_decimal channelNo.toInt).2
    have hmode := (notMem_decimal frameMode.toInt).2
    simp only [sessionName, List.mem_append, List.mem_cons, not_or]
    exact ⟨hfront, by decide, hdvr, by decide, hchannel, by decide, hmode⟩
  · rw [sessionName, sessionName, List.append_cancel_left_eq, List.cons_inj_right,
      append_cons_inj (notMem_decimal _).1 (notMem_decimal _).1,
      append_cons_inj (notMem_decimal _).1 (notMem_decimal _).1, numeral_toInt_inj,
      numeral_toInt_inj, numeral_toInt_inj]

end Smts
