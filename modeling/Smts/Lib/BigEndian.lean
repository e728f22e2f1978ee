import Mathlib.Tactic.Common
import Mathlib.Data.List.GetD

/-!
# BigEndian — words as byte lists, most significant byte first

`bytes n x` are the low `n` bytes of `x`; `value w l` is the word of width
`w` a byte list spells, read by shifting one byte in after another. The two
undo each other when the width is `8 * n`.
-/

namespace BigEndian

variable {w : Nat}

/-- The low `n` bytes of `x`, most significant first. -/
def bytes : Nat → BitVec w → List (BitVec 8)
  | 0, _ => []
  | n + 1, x => (x >>> (8 * n)).setWidth 8 :: bytes n x

/-- One byte shifted in from the right: a round of a decoding loop. -/
def push (acc : BitVec w) (b : BitVec 8) : BitVec w :=
  (acc <<< 8) ||| b.setWidth w

/-- The word of `w` bits that the bytes of `l` spell, the most significant byte
first. -/
def value (w : Nat) (l : List (BitVec 8)) : BitVec w :=
  l.foldl push 0

@[simp] theorem length_bytes (n : Nat) (x : BitVec w) : (bytes n x).length = n := by
  induction n with
  | zero => rfl
  | succ n ih => rw [bytes, List.length_cons, ih]

theorem getLsbD_push (acc : BitVec w) (b : BitVec 8) (i : Nat) :
    (push acc b).getLsbD i
      = (decide (i < w) && if i < 8 then b.getLsbD i else acc.getLsbD (i - 8)) := by
  simp only [push, BitVec.getLsbD_or, BitVec.getLsbD_shiftLeft, BitVec.getLsbD_setWidth]
  by_cases hi : i < 8
  · simp [hi]
  · have hb : b.getLsbD i = false := BitVec.getLsbD_of_ge b i (by omega)
    simp [hi, hb]

/-- Bit `i` of what a fold of `push` builds: the bytes of `l` from its end,
then the accumulator. -/
theorem getLsbD_foldl_push (l : List (BitVec 8)) (acc : BitVec w) (i : Nat) (hi : i < w) :
    (l.foldl push acc).getLsbD i
      = if i < 8 * l.length then (l.reverse.getD (i / 8) 0).getLsbD (i % 8)
        else acc.getLsbD (i - 8 * l.length) := by
  induction l generalizing acc with
  | nil => simp
  | cons b l ih =>
      rw [List.foldl_cons, ih, List.length_cons, List.reverse_cons]
      by_cases h₁ : i < 8 * l.length
      · have hlt : i / 8 < l.reverse.length := by
          rw [List.length_reverse]; omega
        rw [if_pos h₁, if_pos (by omega), List.getD_append _ _ _ _ hlt]
      · rw [if_neg h₁, getLsbD_push]
        have hw : i - 8 * l.length < w := by omega
        by_cases h₂ : i < 8 * (l.length + 1)
        · have hdiv : i / 8 = l.length := by omega
          have hmod : i % 8 = i - 8 * l.length := by omega
          rw [if_pos h₂, List.getD_append_right _ _ _ _ (by rw [List.length_reverse]; omega),
            List.length_reverse, hdiv, hmod]
          simp [hw, show i - 8 * l.length < 8 by omega]
        · rw [if_neg h₂]
          simp [hw, show ¬ i - 8 * l.length < 8 by omega,
            show i - 8 * l.length - 8 = i - 8 * (l.length + 1) by omega]

/-- Bit `i` of byte `k`, counted from the end. -/
theorem getD_reverse_bytes (n : Nat) (x : BitVec w) (k : Nat) (hk : k < n) :
    (bytes n x).reverse.getD k 0 = (x >>> (8 * k)).setWidth 8 := by
  induction n with
  | zero => omega
  | succ n ih =>
      rw [bytes, List.reverse_cons]
      by_cases h : k < n
      · rw [List.getD_append _ _ _ _ (by simpa using h), ih h]
      · have hkn : k = n := by omega
        subst hkn
        rw [List.getD_append_right _ _ _ _ (by simp)]
        simp

/-- **Decoding undoes encoding**: the bytes of a word spell the word, whatever
its width. -/
theorem value_bytes {n : Nat} (x : BitVec (8 * n)) : value (8 * n) (bytes n x) = x := by
  apply BitVec.eq_of_getLsbD_eq
  intro i hi
  rw [value, getLsbD_foldl_push _ _ _ hi, length_bytes, if_pos hi,
    getD_reverse_bytes n x _ (by omega)]
  simp only [BitVec.getLsbD_setWidth, BitVec.getLsbD_ushiftRight]
  rw [show 8 * (i / 8) + i % 8 = i by omega]
  simp [Nat.mod_lt]

/-- A word determines the bytes that spell it. -/
theorem value_injective {n : Nat} {l l' : List (BitVec 8)} (hl : l.length = n)
    (hl' : l'.length = n) (h : value (8 * n) l = value (8 * n) l') : l = l' := by
  refine List.reverse_inj.mp (List.ext_getElem (by simp [hl, hl']) fun k hk hk' => ?_)
  rw [List.length_reverse] at hk hk'
  apply BitVec.eq_of_getLsbD_eq
  intro j hj
  have hbit := congrArg (fun v => v.getLsbD (8 * k + j)) h
  simp only [value] at hbit
  rw [getLsbD_foldl_push _ _ _ (by omega), getLsbD_foldl_push _ _ _ (by omega),
    if_pos (by omega), if_pos (by omega), show (8 * k + j) / 8 = k by omega,
    show (8 * k + j) % 8 = j by omega] at hbit
  rwa [List.getD_eq_getElem _ _ (by simpa using hk), List.getD_eq_getElem _ _ (by simpa using hk')]
    at hbit

/-- **Encoding undoes decoding**: `n` bytes are the bytes of the word they
spell, so no two lists of them spell the same one. -/
theorem bytes_value {n : Nat} {l : List (BitVec 8)} (hl : l.length = n) :
    bytes n (value (8 * n) l) = l :=
  value_injective (by simp) hl (value_bytes _)

end BigEndian
