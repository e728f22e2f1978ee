import Mathlib.Data.Nat.Digits.Lemmas
import Smts.Lib.CString

/-!
# Numeral — integers written to a base

The canonical numeral of an integer: a minus sign just when it is negative, no
zero in front, the digits `0`–`9` and `a`–`z`. Reading it back is the inverse,
and no two integers share one.
-/

namespace Numeral

open CString

/-- The character for the digit `d`: a decimal digit, or a small letter from 10
on. -/
def digitByte (d : Nat) : BitVec 8 :=
  if d < 10 then BitVec.ofNat 8 (48 + d) else BitVec.ofNat 8 (87 + d)

/-- The number that a digit character stands for. -/
def digitValue (c : BitVec 8) : Nat := if c.toNat < 58 then c.toNat - 48 else c.toNat - 87

/-- The digits of `n` from the last to the first; zero has one, too. -/
def lastFirst (base n : Nat) : List Nat := if n = 0 then [0] else Nat.digits base n

/-- The numeral of a number that is not negative. -/
def magnitude (base n : Nat) : Str := ((lastFirst base n).map digitByte).reverse

/-- The sign before the digits: only a negative number has one. -/
def sign (z : Int) : Str := if z < 0 then [45] else []

/-- The numeral of an integer: its sign, then the digits of its absolute value. -/
def numeral (base : Nat) (z : Int) : Str := sign z ++ magnitude base z.natAbs

/-- Reading digits from the first to the last. -/
def readNat (base : Nat) (s : Str) : Nat := s.foldl (fun acc c => acc * base + digitValue c) 0

/-- The integer that a numeral stands for, with its sign if it has one. -/
def read (base : Nat) (s : Str) : Int :=
  if s.head? = some 45 then -(readNat base s.tail : Int) else readNat base s

/-! ## Digits -/

theorem digitByte_spec : ∀ d < 36, digitValue (digitByte d) = d ∧ digitByte d ≠ 45 ∧
    digitByte d ≠ 95 ∧ digitByte d ≠ 0 ∧ digitByte d ≠ 37 ∧ (digitByte d = 48 → d = 0) := by
  decide

section Digits

variable {base n : Nat}

theorem lastFirst_of_lt (h : n < base) : lastFirst base n = [n] := by
  rw [lastFirst]
  split
  next hn => rw [hn]
  next hn => exact Nat.digits_of_lt base n hn h

theorem lastFirst_of_le (hbase : 1 < base) (h : base ≤ n) :
    lastFirst base n = n % base :: lastFirst base (n / base) := by
  have hquot : n / base ≠ 0 := (Nat.div_pos h (by omega)).ne'
  rw [lastFirst, lastFirst, if_neg (by omega), if_neg hquot,
    Nat.digits_def' hbase (by omega)]

theorem lastFirst_ne_nil (base n : Nat) : lastFirst base n ≠ [] := by
  rw [lastFirst]
  split
  next => simp
  next hn => exact Nat.digits_ne_nil_iff_ne_zero.mpr hn

theorem lt_of_mem_lastFirst (hbase : 1 < base) {d : Nat} (h : d ∈ lastFirst base n) : d < base := by
  rw [lastFirst] at h
  split at h
  next => rw [List.mem_singleton.mp h]; omega
  next => exact Nat.digits_lt_base hbase h

theorem ofDigits_lastFirst (base n : Nat) : Nat.ofDigits base (lastFirst base n) = n := by
  rw [lastFirst]
  split
  next hn => rw [hn, Nat.ofDigits_singleton]
  next => exact Nat.ofDigits_digits base n

/-- A number below `base ^ k` has at most `k` digits. -/
theorem length_lastFirst_le (hbase : 1 < base) {k : Nat} (hk : 0 < k) (h : n < base ^ k) :
    (lastFirst base n).length ≤ k := by
  rw [lastFirst]
  split
  next => exact hk
  next => exact (Nat.digits_length_le_iff hbase n).mpr h

/-! ## Magnitudes -/

theorem magnitude_of_lt (h : n < base) : magnitude base n = [digitByte n] := by
  rw [magnitude, lastFirst_of_lt h]
  rfl

theorem magnitude_ne_nil (base n : Nat) : magnitude base n ≠ [] := by
  simp [magnitude, lastFirst_ne_nil]

@[simp]
theorem length_magnitude : (magnitude base n).length = (lastFirst base n).length := by
  simp [magnitude]

theorem exists_digit_of_mem (hbase : 1 < base) {c : BitVec 8} (h : c ∈ magnitude base n) :
    ∃ d < base, c = digitByte d := by
  obtain ⟨d, hd, rfl⟩ := List.mem_map.mp (List.mem_reverse.mp h)
  exact ⟨d, lt_of_mem_lastFirst hbase hd, rfl⟩

/-- No zero is in front, but for that of zero itself. -/
theorem magnitude_head (hbase : 1 < base) (hmax : base ≤ 36) (hn : n ≠ 0) :
    (magnitude base n).head? ≠ some 48 := by
  have hdigits : lastFirst base n = Nat.digits base n := by rw [lastFirst, if_neg hn]
  have hne := Nat.digits_ne_nil_iff_ne_zero (b := base).mpr hn
  rw [magnitude, hdigits, List.head?_reverse, List.getLast?_map, List.getLast?_eq_some_getLast hne]
  intro h
  have hlt : (Nat.digits base n).getLast hne < 36 :=
    (Nat.digits_lt_base hbase (List.getLast_mem hne)).trans_le hmax
  obtain ⟨-, -, -, -, -, hzero⟩ := digitByte_spec _ hlt
  exact Nat.getLast_digit_ne_zero base hn (hzero (Option.some.inj h))

theorem readNat_magnitude (hbase : 1 < base) (hmax : base ≤ 36) (n : Nat) :
    readNat base (magnitude base n) = n := by
  have hgen : ∀ l : List Nat, (∀ d ∈ l, d < 36) →
      (l.map digitByte).foldr (fun c acc => acc * base + digitValue c) 0 = Nat.ofDigits base l := by
    intro l hl
    induction l with
    | nil => rfl
    | cons d l ih =>
        have hd := (digitByte_spec d (hl d (List.mem_cons_self ..))).1
        rw [List.map_cons, List.foldr_cons, ih fun x hx => hl x (List.mem_cons_of_mem _ hx), hd,
          Nat.ofDigits_cons, Nat.mul_comm, Nat.add_comm]
  rw [readNat, magnitude, List.foldl_reverse,
    hgen _ fun d hd => (lt_of_mem_lastFirst hbase hd).trans_le hmax, ofDigits_lastFirst]

end Digits

/-! ## Numerals -/

section Numerals

variable {base : Nat}

theorem numeral_of_nonneg {z : Int} (h : 0 ≤ z) : numeral base z = magnitude base z.natAbs := by
  rw [numeral, sign, if_neg (by omega), List.nil_append]

theorem numeral_of_neg {z : Int} (h : z < 0) : numeral base z = 45 :: magnitude base z.natAbs := by
  rw [numeral, sign, if_pos h, List.singleton_append]

/-- A minus sign stands in front of negative numbers only. -/
theorem numeral_head_iff (hbase : 1 < base) (hmax : base ≤ 36) (z : Int) :
    (numeral base z).head? = some 45 ↔ z < 0 := by
  constructor
  · intro h
    by_contra hz
    rw [numeral_of_nonneg (not_lt.mp hz)] at h
    obtain ⟨d, hd, hc⟩ := exists_digit_of_mem hbase (List.mem_of_head? h)
    exact (digitByte_spec d (hd.trans_le hmax)).2.1 hc.symm
  · intro h
    rw [numeral_of_neg h, List.head?_cons]

/-- **Numerals can be read back**: the numeral of an integer stands for that
integer, to any base that has enough digits. -/
theorem read_numeral (hbase : 1 < base) (hmax : base ≤ 36) (z : Int) :
    read base (numeral base z) = z := by
  rw [read]
  split
  next h =>
    have hz := (numeral_head_iff hbase hmax z).mp h
    rw [numeral_of_neg hz, List.tail_cons, readNat_magnitude hbase hmax]
    omega
  next h =>
    have hz := not_lt.mp fun hz => h ((numeral_head_iff hbase hmax z).mpr hz)
    rw [numeral_of_nonneg hz, readNat_magnitude hbase hmax]
    omega

theorem numeral_injective (hbase : 1 < base) (hmax : base ≤ 36) :
    Function.Injective (numeral base) := by
  intro y z h
  rw [← read_numeral hbase hmax y, h, read_numeral hbase hmax]

theorem length_numeral_le (hbase : 1 < base) {k : Nat} (hk : 0 < k) {z : Int}
    (h : z.natAbs < base ^ k) : (numeral base z).length ≤ (sign z).length + k := by
  rw [numeral, List.length_append, length_magnitude]
  exact Nat.add_le_add_left (length_lastFirst_le hbase hk h) _

theorem length_sign_le (z : Int) : (sign z).length ≤ 1 := by
  rw [sign]
  split <;> decide

/-- A numeral is made of digits of its base and a minus sign, nothing else. -/
theorem mem_numeral (hbase : 1 < base) {z : Int} {c : BitVec 8} (h : c ∈ numeral base z) :
    c = 45 ∨ ∃ d < base, c = digitByte d := by
  rw [numeral, List.mem_append] at h
  rcases h with h | h
  · rw [sign] at h
    split at h
    · exact .inl (List.mem_singleton.mp h)
    · cases h
  · exact .inr (exists_digit_of_mem hbase h)

end Numerals

end Numeral
