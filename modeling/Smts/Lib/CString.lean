import Mathlib.Data.List.Basic
import Mathlib.Tactic.IntervalCases

/-!
# CString — functions of `string.h` and `stdlib.h` on byte strings

A C string is the list of its bytes, without the NUL behind them.
-/

namespace CString

abbrev Str := List (BitVec 8)

/-- `strstr`, as the position of the first occurrence. -/
def strstr (needle : Str) : Str → Option Nat
  | [] => if needle = [] then some 0 else none
  | c :: s =>
      if needle.isPrefixOf (c :: s) then some 0 else (strstr needle s).map (· + 1)

/-- `isspace`. -/
def isSpace (c : BitVec 8) : Bool := c == 32 || (9 ≤ c && c ≤ 13)

/-- `isdigit`. -/
def isDigit (c : BitVec 8) : Bool := 48 ≤ c && c ≤ 57

/-- The number the leading digits spell, read on from `acc`. -/
def digits (acc : Nat) : Str → Nat
  | [] => acc
  | c :: s => if isDigit c then digits (acc * 10 + (c.toNat - 48)) s else acc

/-- `strtol` to the base 10; a value that is out of range is the nearest
`long`. -/
def strtol (s : Str) : Int :=
  match s.dropWhile isSpace with
  | [] => 0
  | c :: t =>
      if c = 45 then max (-2 ^ 63) (-(digits 0 t : Int))
      else if c = 43 then min (2 ^ 63 - 1) (digits 0 t : Int)
      else min (2 ^ 63 - 1) (digits 0 (c :: t) : Int)

/-- `atoi`: the `int` that is left of the `long`. -/
def atoi (s : Str) : Int := (BitVec.ofInt 32 (strtol s)).toInt

/-- `%d` of a number that is not negative. -/
def decimal (n : Nat) : Str := (Nat.toDigits 10 n).map fun c => BitVec.ofNat 8 c.toNat

/-! ## Decimals -/

theorem decimal_of_lt {n : Nat} (h : n < 10) : decimal n = [BitVec.ofNat 8 (48 + n)] := by
  rw [decimal, Nat.toDigits_of_lt_base h]
  interval_cases n <;> rfl

theorem decimal_of_le {n : Nat} (h : 10 ≤ n) :
    decimal n = decimal (n / 10) ++ [BitVec.ofNat 8 (48 + n % 10)] := by
  have hlast := decimal_of_lt (Nat.mod_lt n (by decide : 10 > 0))
  rw [decimal, Nat.toDigits_of_lt_base (Nat.mod_lt n (by decide))] at hlast
  rw [decimal, Nat.toDigits_of_base_le (by decide) h, List.map_append, hlast]
  rfl

theorem decimal_ne_nil (n : Nat) : decimal n ≠ [] := by
  simp [decimal, Nat.toDigits_ne_nil]

theorem isDigit_ofNat {n : Nat} (h : n < 10) : isDigit (BitVec.ofNat 8 (48 + n)) = true := by
  interval_cases n <;> rfl

theorem isDigit_of_mem_decimal {n : Nat} {c : BitVec 8} (h : c ∈ decimal n) :
    isDigit c = true := by
  induction n using Nat.strong_induction_on with
  | _ n ih =>
      rcases Nat.lt_or_ge n 10 with hn | hn
      · rw [decimal_of_lt hn, List.mem_singleton] at h
        rw [h, isDigit_ofNat hn]
      · rw [decimal_of_le hn, List.mem_append, List.mem_singleton] at h
        rcases h with h | rfl
        · exact ih (n / 10) (by omega) h
        · exact isDigit_ofNat (Nat.mod_lt n (by decide))

theorem digits_decimal_append (n : Nat) (s : Str) : digits 0 (decimal n ++ s) = digits n s := by
  have hdigit : ∀ acc d : Nat, d < 10 → ∀ t,
      digits acc (BitVec.ofNat 8 (48 + d) :: t) = digits (acc * 10 + d) t := by
    intro acc d hd t
    rw [digits, if_pos (isDigit_ofNat hd), BitVec.toNat_ofNat, Nat.mod_eq_of_lt (by omega),
      Nat.add_sub_cancel_left]
  induction n using Nat.strong_induction_on generalizing s with
  | _ n ih =>
      rcases Nat.lt_or_ge n 10 with hn | hn
      · rw [decimal_of_lt hn, List.singleton_append, hdigit 0 n hn, Nat.zero_mul, Nat.zero_add]
      · rw [decimal_of_le hn, List.append_assoc, ih (n / 10) (by omega), List.singleton_append,
          hdigit _ _ (Nat.mod_lt n (by decide)), Nat.div_add_mod']

theorem digits_decimal (n : Nat) : digits 0 (decimal n) = n := by
  have h := digits_decimal_append n []
  rwa [List.append_nil] at h

theorem decimal_injective : Function.Injective decimal := by
  intro m n h
  rw [← digits_decimal m, h, digits_decimal]

/-- `atoi` reads a decimal numeral back, as far as an `int` goes. -/
theorem atoi_decimal {n : Nat} (h : n < 2 ^ 31) : atoi (decimal n) = n := by
  have hlong : strtol (decimal n) = n := by
    obtain ⟨c, t, hct⟩ := List.exists_cons_of_ne_nil (decimal_ne_nil n)
    have hc : isDigit c = true := isDigit_of_mem_decimal (n := n) (by simp [hct])
    have hge : 48 ≤ c.toNat ∧ c.toNat ≤ 57 := by
      simpa [isDigit, BitVec.le_def] using hc
    have hspace : isSpace c = false := by
      simp only [isSpace, Bool.or_eq_false_iff, beq_eq_false_iff_ne, Bool.and_eq_false_iff,
        decide_eq_false_iff_not, BitVec.le_def]
      refine ⟨?_, .inr ?_⟩
      · rintro rfl
        simp at hge
      · simp
        omega
    have hminus : c ≠ 45 := by
      rintro rfl
      simp at hge
    have hplus : c ≠ 43 := by
      rintro rfl
      simp at hge
    have hval := digits_decimal n
    rw [strtol, hct, List.dropWhile_cons_of_neg (by simp [hspace])]
    simp only [if_neg hminus, if_neg hplus]
    rw [← hct, hval]
    omega
  rw [atoi, hlong, BitVec.toInt_ofInt, Int.bmod_eq_of_le (by omega) (by omega)]

/-! ## Searching -/

/-- The first place is the end, when what is searched for starts with a byte
that does not occur before. -/
theorem strstr_append {x : BitVec 8} {needle s : Str} (h : x ∉ s) :
    strstr (x :: needle) (s ++ x :: needle) = some s.length := by
  induction s with
  | nil => simp [strstr]
  | cons c s ih =>
      rw [List.mem_cons, not_or] at h
      have hne : (x == c) = false := by simpa using h.1
      rw [List.cons_append, strstr, if_neg (by simp [List.isPrefixOf, hne]), ih h.2]
      rfl

/-- `strstr` with a string of one byte finds the first place of that byte. -/
theorem strstr_singleton {x : BitVec 8} {s : Str} (h : x ∉ s) (t : Str) :
    strstr [x] (s ++ x :: t) = some s.length := by
  induction s with
  | nil => simp [strstr]
  | cons c s ih =>
      rw [List.mem_cons, not_or] at h
      have hne : (x == c) = false := by simpa using h.1
      rw [List.cons_append, strstr, if_neg (by simp [List.isPrefixOf, hne]), ih h.2]
      rfl

theorem strstr_singleton_eq_none {x : BitVec 8} {s : Str} (h : x ∉ s) : strstr [x] s = none := by
  induction s with
  | nil => simp [strstr]
  | cons c s ih =>
      rw [List.mem_cons, not_or] at h
      have hne : (x == c) = false := by simpa using h.1
      rw [strstr, if_neg (by simp [List.isPrefixOf, hne]), ih h.2]
      rfl

end CString
