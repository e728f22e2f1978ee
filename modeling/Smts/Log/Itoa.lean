import Smts.Lib.Checked
import Smts.Lib.Numeral
import Smts.Log.Format

/-!
# Log — itoa

`itoa` of `smts_util.c`, digit by digit and swap by swap: the digits are taken
from a table around its middle, last digit first, and turned round in place.
What it leaves is the canonical numeral.
-/

namespace Smts

open CString Checked Numeral

namespace SmtsUtil

/-! ## smts_util.c -/

/-- `do { .. } while (value)`: `buf` is what lies before `ptr`. The result is
with the last `tmp_value`. -/
def digitLoop (base : Int) : Nat → Int → Str → Except Fault (Str × Int)
  | 0, _, _ => .error .outOfFuel
  | fuel + 1, value, buf => do
      let tmpValue := value
      let value ← div value base
      let back ← mul 32 value base
      let rest ← sub 32 tmpValue back
      let i ← add 32 35 rest
      let c ← get itoaDigits i
      let buf := buf ++ [c]
      if value = 0 then .ok (buf, tmpValue) else digitLoop base fuel value buf

/-- `while (ptr1 < ptr) { .. }`, on what `result` points to. -/
def swapLoop : Nat → Str → Nat → Nat → Except Fault Str
  | 0, _, _, _ => .error .outOfFuel
  | fuel + 1, buf, ptr1, ptr =>
      if ptr1 < ptr then do
        let tmpChar ← get buf ptr
        let c ← get buf ptr1
        swapLoop fuel ((buf.set ptr c).set ptr1 tmpChar) (ptr1 + 1) (ptr - 1)
      else .ok buf

/-- `itoa`: the bytes it writes. -/
def itoa (fuel : Nat) (value base : BitVec 32) : Except Fault Str :=
  if base.toInt < 2 ∨ 36 < base.toInt then .ok [0]
  else do
    let (buf, tmpValue) ← digitLoop base.toInt fuel value.toInt []
    let buf := if tmpValue < 0 then buf ++ [45] else buf
    swapLoop fuel (buf ++ [0]) 0 (buf.length - 1)

example : itoa 32 (BitVec.ofInt 32 (-2 ^ 31)) 16 = .ok [45, 56, 48, 48, 48, 48, 48, 48, 48, 0] := by
  decide +kernel

/-! ## The digits -/

/-- Around the middle of the table, on both sides the same digits. -/
theorem itoaDigits_spec : ∀ k < 36, itoaDigits[35 + k]? = some (digitByte k) ∧
    itoaDigits[35 - k]? = some (digitByte k) := by
  decide

theorem get_itoaDigits {r : Int} (hr : r.natAbs < 36) :
    get itoaDigits (35 + r) = .ok (digitByte r.natAbs) := by
  obtain ⟨hpos, hneg⟩ := itoaDigits_spec r.natAbs hr
  rcases Int.le_total 0 r with h | h
  · rw [show 35 + r = ((35 + r.natAbs : Nat) : Int) by omega]
    exact get_ok hpos
  · rw [show 35 + r = ((35 - r.natAbs : Nat) : Int) by omega]
    exact get_ok hneg

section Digits

variable {base : Nat} {value : Int}

theorem natAbs_tdiv_natCast (value : Int) (base : Nat) :
    (value.tdiv base).natAbs = value.natAbs / base := by
  rw [Int.natAbs_tdiv, Int.natAbs_natCast]
  rfl

theorem tdiv_eq_zero_iff (hbase : 1 < base) : value.tdiv base = 0 ↔ value.natAbs < base := by
  rw [← Int.natAbs_eq_zero, natAbs_tdiv_natCast, Nat.div_eq_zero_iff]
  omega

/-- The chunks stay on the side of zero they are on. -/
theorem tdiv_neg_iff (hquot : value.tdiv base ≠ 0) :
    value.tdiv base < 0 ↔ value < 0 := by
  rcases Int.le_total 0 value with h | h
  · have := Int.tdiv_nonneg h (Int.natCast_nonneg base)
    omega
  · have := Int.tdiv_nonneg (Int.neg_nonneg_of_nonpos h) (Int.natCast_nonneg base)
    rw [Int.neg_tdiv] at this
    have hne : value ≠ 0 := by
      rintro rfl
      simp at hquot
    omega

/-- What is put back of a chunk does not leave its range. -/
theorem fits_tdiv_mul (base : Nat) (h : Fits 32 value) :
    Fits 32 (value.tdiv base * base) ∧ Fits 32 (value - value.tdiv base * base) := by
  have hmod := Int.tmod_add_mul_tdiv value base
  rw [Int.mul_comm] at hmod
  have hsub : value - value.tdiv base * base = value.tmod base := by omega
  rw [hsub]
  have hle := Int.natAbs_tmod value base
  have hmodle := Nat.mod_le value.natAbs base
  rw [Int.natAbs_natCast] at hle
  obtain ⟨hmin, hmax⟩ := h
  rcases Int.le_total 0 value with hv | hv
  · have hpos := Int.tmod_nonneg (base : Int) hv
    constructor <;> constructor <;> omega
  · have hneg := Int.tmod_nonneg (base : Int) (Int.neg_nonneg_of_nonpos hv)
    rw [Int.neg_tmod] at hneg
    constructor <;> constructor <;> omega

/-- One round of the loop, without the faults. -/
theorem digitLoop_succ (hbase : 1 < base) (hmax : base ≤ 36) (h : Fits 32 value) (fuel : Nat)
    (buf : Str) :
    digitLoop base (fuel + 1) value buf =
      let buf := buf ++ [digitByte (value.natAbs % base)]
      if value.tdiv base = 0 then .ok (buf, value) else digitLoop base fuel (value.tdiv base) buf := by
  have hmod := Int.tmod_add_mul_tdiv value base
  rw [Int.mul_comm] at hmod
  have hsub : value - value.tdiv base * base = value.tmod base := by omega
  have habs : (value.tmod base).natAbs = value.natAbs % base := by
    rw [Int.natAbs_tmod, Int.natAbs_natCast]
  have hlt : (value.tmod base).natAbs < 36 := by
    rw [habs]
    exact (Nat.mod_lt _ (by omega)).trans_le hmax
  obtain ⟨hback, hrest⟩ := fits_tdiv_mul base h
  have hindex : Fits 32 (35 + (value - value.tdiv base * base)) := by
    rw [hsub]
    constructor <;> omega
  rw [digitLoop, bind_ok (div_ok (by omega)), bind_ok (mul_ok hback), bind_ok (sub_ok hrest),
    bind_ok (add_ok hindex), hsub, bind_ok (get_itoaDigits hlt), habs]

/-- The loop writes the digits, the last one first. -/
theorem digitLoop_ok (hbase : 1 < base) (hmax : base ≤ 36) {fuel : Nat} (hfuel : 0 < fuel)
    (h : Fits 32 value) (hpow : value.natAbs < base ^ fuel) (buf : Str) :
    ∃ tmpValue, digitLoop base fuel value buf
        = .ok (buf ++ (lastFirst base value.natAbs).map digitByte, tmpValue) ∧
      (tmpValue < 0 ↔ value < 0) := by
  induction fuel generalizing value buf with
  | zero => omega
  | succ fuel ih =>
      rw [digitLoop_succ hbase hmax h]
      dsimp only
      split
      next hquot =>
        have hlt := (tdiv_eq_zero_iff hbase).mp hquot
        refine ⟨value, ?_, Iff.rfl⟩
        rw [lastFirst_of_lt hlt, Nat.mod_eq_of_lt hlt]
        rfl
      next hquot =>
        have hge : base ≤ value.natAbs := not_lt.mp fun hlt => hquot ((tdiv_eq_zero_iff hbase).mpr hlt)
        have habs := natAbs_tdiv_natCast value base
        have hle := Nat.div_le_self value.natAbs base
        -- a quotient is no larger, and has the sign, so the arithmetic is inside 32 bits
        have hfits : Fits 32 (value.tdiv base) := by
          have hneg := tdiv_neg_iff hquot
          obtain ⟨hmin, hmax⟩ := h
          constructor <;> omega
        have hquotpow : (value.tdiv base).natAbs < base ^ fuel := by
          rw [habs, Nat.div_lt_iff_lt_mul (by omega), ← Nat.pow_succ]
          exact hpow
        have hfuel' : 0 < fuel := by
          rcases Nat.eq_zero_or_pos fuel with rfl | hpos
          · rw [Nat.pow_zero] at hquotpow
            omega
          · exact hpos
        obtain ⟨tmpValue, hloop, hneg⟩ := ih hfuel' hfits hquotpow (buf ++ [digitByte (value.natAbs % base)])
        refine ⟨tmpValue, ?_, hneg.trans (tdiv_neg_iff hquot)⟩
        rw [hloop, habs, lastFirst_of_le hbase hge, List.map_cons, List.append_assoc]
        rfl

end Digits

/-! ## The reversal -/

theorem swapLoop_done {fuel : Nat} (hfuel : 0 < fuel) {buf : Str} {ptr1 ptr : Nat}
    (h : ptr ≤ ptr1) : swapLoop fuel buf ptr1 ptr = .ok buf := by
  obtain ⟨k, rfl⟩ : ∃ k, fuel = k + 1 := ⟨fuel - 1, by omega⟩
  rw [swapLoop, if_neg (by omega)]

/-- One round of the loop swaps the two outer bytes and moves both indices in. -/
theorem swapLoop_succ (fuel : Nat) (pre : Str) (x : BitVec 8) (m : Str) (y : BitVec 8) (post : Str) :
    swapLoop (fuel + 1) (pre ++ x :: (m ++ y :: post)) pre.length (pre.length + m.length + 1)
      = swapLoop fuel (pre ++ y :: (m ++ x :: post)) (pre.length + 1) (pre.length + m.length) := by
  have hx : (pre ++ x :: (m ++ y :: post))[pre.length]? = some x := by simp
  have hassoc : ∀ a b, pre ++ a :: (m ++ b :: post) = (pre ++ a :: m) ++ b :: post := by simp
  have hlen : pre.length + m.length + 1 = (pre ++ x :: m).length := by
    simp
    omega
  have hy : (pre ++ x :: (m ++ y :: post))[pre.length + m.length + 1]? = some y := by
    rw [hassoc, hlen, List.getElem?_append_right le_rfl, Nat.sub_self, List.getElem?_cons_zero]
  have hset : ((pre ++ x :: (m ++ y :: post)).set (pre.length + m.length + 1) x).set pre.length y
      = pre ++ y :: (m ++ x :: post) := by
    rw [hassoc, hlen, List.set_append_right _ _ le_rfl, Nat.sub_self, List.set_cons_zero, ← hassoc,
      List.set_append_right _ _ le_rfl, Nat.sub_self, List.set_cons_zero]
  rw [swapLoop, if_pos (by omega), bind_ok (get_ok hy), bind_ok (get_ok hx), hset,
    Nat.add_sub_cancel]

/-- The bytes between the two pointers are turned round, the others stay. -/
theorem swapLoop_ok {fuel : Nat} (mid : Str) (hfuel : mid.length < 2 * fuel) (pre post : Str)
    {ptr : Nat} (hptr : ptr + 1 = pre.length + mid.length) :
    swapLoop fuel (pre ++ (mid ++ post)) pre.length ptr = .ok (pre ++ (mid.reverse ++ post)) := by
  induction fuel generalizing mid pre post ptr with
  | zero => omega
  | succ fuel ih =>
      rcases mid with _ | ⟨x, t⟩
      · rw [List.length_nil] at hptr
        exact swapLoop_done (Nat.succ_pos fuel) (by omega)
      rcases List.eq_nil_or_concat' t with rfl | ⟨m, y, rfl⟩
      · rw [List.length_singleton] at hptr
        exact swapLoop_done (Nat.succ_pos fuel) (by omega)
      · simp only [List.length_cons, List.length_append, List.length_nil] at hfuel hptr
        obtain rfl : ptr = pre.length + m.length + 1 := by omega
        have hround := swapLoop_succ fuel pre x m y post
        have hptr' : pre.length + m.length + 1 = (pre ++ [y]).length + m.length := by
          simp
          omega
        have hrest := ih m (by omega) (pre ++ [y]) (x :: post) hptr'
        simp only [List.append_assoc, List.singleton_append, List.length_append,
          List.length_singleton] at hrest
        simp only [List.cons_append, List.append_assoc, List.reverse_cons, List.reverse_append,
          List.reverse_nil, List.nil_append]
        exact hround.trans hrest

/-! ## Numerals -/

/-- The pointers `itoa` turns the bytes round between. -/
theorem swapLoop_buf {fuel : Nat} {buf : Str} (hbuf : buf ≠ []) (hfuel : buf.length < 2 * fuel) :
    swapLoop fuel (buf ++ [0]) 0 (buf.length - 1) = .ok (buf.reverse ++ [0]) := by
  have hpos := List.length_pos_of_ne_nil hbuf
  exact swapLoop_ok buf hfuel [] [0] (by rw [List.length_nil]; omega)

/-- `itoa` writes the numeral and a NUL, without a fault. -/
theorem itoa_ok {fuel : Nat} (hfuel : 32 ≤ fuel) {value base : BitVec 32} (hmin : 2 ≤ base.toInt)
    (hmax : base.toInt ≤ 36) :
    itoa fuel value base = .ok (numeral base.toInt.toNat value.toInt ++ [0]) ∧
      (numeral base.toInt.toNat value.toInt).length ≤ 33 := by
  obtain ⟨b, hb⟩ : ∃ b : Nat, base.toInt = b := ⟨base.toInt.toNat, by omega⟩
  rw [hb] at hmin hmax
  have hbase : 1 < b := by omega
  have hfits : Fits 32 value.toInt := fits_toInt value
  have habs : value.toInt.natAbs < b ^ 32 := by
    have hpow : 2 ^ 32 ≤ b ^ 32 := Nat.pow_le_pow_left (by omega) 32
    obtain ⟨h₁, h₂⟩ := hfits
    omega
  have hlen : (numeral b value.toInt).length ≤ 33 := by
    have h₁ := length_numeral_le hbase (by decide) habs
    have h₂ := length_sign_le value.toInt
    omega
  have hpos : 0 < fuel := by omega
  obtain ⟨tmpValue, hloop, hneg⟩ := digitLoop_ok hbase (by omega) hpos hfits
    (habs.trans_le (Nat.pow_le_pow_right (by omega) hfuel)) []
  -- the digits and the sign were written from behind
  have hbuf : (if tmpValue < 0 then (lastFirst b value.toInt.natAbs).map digitByte ++ [45]
      else (lastFirst b value.toInt.natAbs).map digitByte).reverse = numeral b value.toInt := by
    rw [numeral, magnitude, sign]
    simp only [hneg]
    split <;> simp
  rw [List.nil_append] at hloop
  generalize (lastFirst b value.toInt.natAbs).map digitByte = digits at hloop hbuf
  rw [itoa, hb, if_neg (by omega), bind_ok hloop, Int.toNat_natCast]
  refine ⟨?_, hlen⟩
  dsimp only
  generalize (if tmpValue < 0 then digits ++ [45] else digits) = buf at hbuf
  have hne : buf ≠ [] := by
    rintro rfl
    rw [List.reverse_nil, numeral] at hbuf
    exact magnitude_ne_nil _ _ (List.append_eq_nil_iff.mp hbuf.symm).2
  have hlt : buf.length < 2 * fuel := by
    rw [← hbuf, List.length_reverse] at hlen
    omega
  rw [swapLoop_buf hne hlt, hbuf]

/-- **`itoa` renders every `int`** to every base it takes: it comes to an end
without a fault, and what it has written is the canonical numeral with a NUL, in
34 bytes at most. -/
theorem itoa_renders {fuel : Nat} (hfuel : 32 ≤ fuel) {value base : BitVec 32}
    (hmin : 2 ≤ base.toInt) (hmax : base.toInt ≤ 36) :
    ∃ s, itoa fuel value base = .ok (s ++ [0]) ∧ 0 ∉ s ∧ (s ++ [0]).length ≤ 34 ∧
      s = numeral base.toInt.toNat value.toInt ∧
      (s.head? = some 45 ↔ value.toInt < 0) ∧
      (value.toInt = 0 → s = [48]) ∧
      (value.toInt ≠ 0 → (magnitude base.toInt.toNat value.toInt.natAbs).head? ≠ some 48) ∧
      read base.toInt.toNat s = value.toInt := by
  obtain ⟨hok, hlen⟩ := @itoa_ok fuel hfuel value base hmin hmax
  have hb : 1 < base.toInt.toNat := by omega
  have hb' : base.toInt.toNat ≤ 36 := by omega
  refine ⟨_, hok, fun hzero => ?_, ?_, rfl, numeral_head_iff hb hb' _, fun hvalue => ?_,
    fun hvalue => magnitude_head hb hb' (by omega), read_numeral hb hb' _⟩
  · rcases mem_numeral hb hzero with h | ⟨d, hd, h⟩
    · exact absurd h (by decide)
    · exact (digitByte_spec d (hd.trans_le hb')).2.2.2.1 h.symm
  · rw [List.length_append, List.length_singleton]
    omega
  · rw [hvalue, numeral_of_nonneg le_rfl]
    exact magnitude_of_lt (by omega)

/-- `INT_MIN`, to the base 2. -/
theorem itoa_renders_intMin :
    ∃ s, itoa 32 (BitVec.intMin 32) 2 = .ok (s ++ [0]) ∧ (s ++ [0]).length ≤ 34 ∧
      read 2 s = -2 ^ 31 := by
  obtain ⟨s, hok, -, hlen, -, -, -, -, hread⟩ :=
    @itoa_renders 32 le_rfl (BitVec.intMin 32) 2 (by decide) (by decide)
  exact ⟨s, hok, hlen, hread.trans (by decide)⟩

end SmtsUtil

/-! ## In a format -/

theorem itoaLoop_eq {base : Nat} (hbase : 1 < base) (hmax : base ≤ 36) {n : Nat} (hn : 0 < n)
    {value : Int} (h : value.natAbs < base ^ n) :
    itoaLoop base n value = (lastFirst base value.natAbs).map digitByte ++ sign value := by
  induction n generalizing value with
  | zero => omega
  | succ n ih =>
      have hmod := Int.tmod_add_mul_tdiv value base
      rw [Int.mul_comm] at hmod
      have hsub : value - value.tdiv base * base = value.tmod base := by omega
      have habs : (value.tmod base).natAbs = value.natAbs % base := by
        rw [Int.natAbs_tmod, Int.natAbs_natCast]
      have hlt : (value.tmod base).natAbs < 36 := by
        rw [habs]
        exact (Nat.mod_lt _ (by omega)).trans_le hmax
      -- the table has the digits on both sides of its middle, for a remainder of either sign
      have hdigit : itoaDigits.getD (35 + value.tmod base).toNat 48
          = digitByte (value.natAbs % base) := by
        obtain ⟨hpos, hneg⟩ := SmtsUtil.itoaDigits_spec _ hlt
        rw [← habs, List.getD_eq_getElem?_getD]
        rcases Int.le_total 0 (value.tmod base) with hr | hr
        · rw [show (35 + value.tmod base).toNat = 35 + (value.tmod base).natAbs by omega, hpos]
          rfl
        · rw [show (35 + value.tmod base).toNat = 35 - (value.tmod base).natAbs by omega, hneg]
          rfl
      rw [itoaLoop, hsub, hdigit]
      split
      next hquot =>
        have hvalue := (SmtsUtil.tdiv_eq_zero_iff hbase).mp hquot
        rw [lastFirst_of_lt hvalue, Nat.mod_eq_of_lt hvalue, sign]
        rfl
      next hquot =>
        have hge : base ≤ value.natAbs :=
          not_lt.mp fun hlt => hquot ((SmtsUtil.tdiv_eq_zero_iff hbase).mpr hlt)
        have hquotpow : (value.tdiv base).natAbs < base ^ n := by
          rw [SmtsUtil.natAbs_tdiv_natCast, Nat.div_lt_iff_lt_mul (by omega), ← Nat.pow_succ]
          exact h
        have hn' : 0 < n := by
          rcases Nat.eq_zero_or_pos n with rfl | hpos
          · rw [Nat.pow_zero] at hquotpow
            omega
          · exact hpos
        have hsign : sign (value.tdiv base) = sign value := by
          simp only [sign, SmtsUtil.tdiv_neg_iff hquot]
        rw [ih hn' hquotpow, hsign, SmtsUtil.natAbs_tdiv_natCast, lastFirst_of_le hbase hge,
          List.map_cons, List.cons_append]

theorem toInt32_eq_iff {value : Int} : toInt32 value = value ↔ Fits 32 value := by
  constructor
  · intro h
    rw [← h]
    exact fits_toInt _
  · rintro ⟨hmin, hmax⟩
    exact BitVec.toInt_ofInt_eq_self (by decide) (by simpa using hmin) (by simpa using hmax)

/-- What a format shows of an `int` is its numeral. -/
theorem itoa_eq_numeral {value : Int} (h : Fits 32 value) : itoa value 10 = numeral 10 value := by
  have habs : value.natAbs < 10 ^ 32 := by
    obtain ⟨h₁, h₂⟩ := h
    omega
  rw [itoa, if_neg (by decide), numeral, magnitude,
    show (10 : Int) = ((10 : Nat) : Int) from rfl, itoaLoop_eq (by decide) (by decide) (by decide) habs,
    List.reverse_append, sign]
  split <;> rfl

end Smts
