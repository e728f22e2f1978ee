import Mathlib.Data.List.TakeWhile

/-!
# Memory — bytes at addresses

A flat memory of bytes, the strings in it, and the bounded formatting of
`stdio.h` as far as it concerns memory: which bytes it stores where.
-/

namespace Memory

abbrev Mem := Nat → BitVec 8

/-- The `n` bytes that lie from the address `a` on. -/
def read (m : Mem) (a n : Nat) : List (BitVec 8) := (List.range n).map fun i => m (a + i)

/-- The memory after `bs` was stored from the address `a` on. -/
def store (m : Mem) (a : Nat) (bs : List (BitVec 8)) : Mem := fun x =>
  if a ≤ x ∧ x < a + bs.length then bs.getD (x - a) 0 else m x

/-- `strlen`, of a string that ends within `fuel` bytes. -/
def strlen (m : Mem) (a : Nat) : Nat → Nat
  | 0 => 0
  | fuel + 1 => if m a = 0 then 0 else strlen m (a + 1) fuel + 1

/-- What `vsnprintf` stores of `text` in `size` bytes: it is cut off, and ends
with a NUL. -/
def cut (size : Nat) (text : List (BitVec 8)) : List (BitVec 8) :=
  if size = 0 then [] else text.take (size - 1) ++ [0]

/-- `text` as a C string: up to its first NUL. -/
def cString (text : List (BitVec 8)) : List (BitVec 8) := text.takeWhile (· ≠ 0)

/-! ## Reading back -/

@[simp] theorem length_read (m : Mem) (a n : Nat) : (read m a n).length = n := by
  simp [read]

@[simp] theorem read_zero (m : Mem) (a : Nat) : read m a 0 = [] := rfl

theorem read_add (m : Mem) (a n k : Nat) : read m a (n + k) = read m a n ++ read m (a + n) k := by
  simp [read, List.range_add, Nat.add_assoc]

theorem read_congr {m m' : Mem} {a n : Nat} (h : ∀ x, a ≤ x → x < a + n → m x = m' x) :
    read m a n = read m' a n := by
  apply List.map_congr_left
  intro i hi
  rw [List.mem_range] at hi
  exact h _ (by omega) (by omega)

theorem store_of_notMem {m : Mem} {a x : Nat} {bs : List (BitVec 8)}
    (h : x < a ∨ a + bs.length ≤ x) : store m a bs x = m x :=
  if_neg (by omega)

/-- A store does not change what is read from addresses it does not reach. -/
theorem read_store_of_disjoint {m : Mem} {a b n : Nat} {bs : List (BitVec 8)}
    (h : a + n ≤ b ∨ b + bs.length ≤ a) : read (store m b bs) a n = read m a n :=
  read_congr fun _ _ _ => store_of_notMem (by omega)

/-- Reading back from the start of a store gives what was stored there. -/
theorem read_store_append (m : Mem) (a : Nat) (bs cs : List (BitVec 8)) :
    read (store m a (bs ++ cs)) a bs.length = bs := by
  apply List.ext_getElem
  · simp
  · intro i _ hi
    simp only [read, List.getElem_map, List.getElem_range, store, List.length_append]
    rw [if_pos (by omega), Nat.add_sub_cancel_left, List.getD_eq_getElem?_getD,
      List.getElem?_append_left hi, List.getElem?_eq_getElem hi, Option.getD_some]

theorem strlen_of_read {m : Mem} {fuel : Nat} (s : List (BitVec 8)) {a : Nat}
    (hread : read m a (s.length + 1) = s ++ [0]) (hs : (0 : BitVec 8) ∉ s) (h : s.length < fuel) :
    strlen m a fuel = s.length := by
  induction s generalizing a fuel with
  | nil =>
      obtain ⟨n, rfl⟩ : ∃ n, fuel = n + 1 := ⟨fuel - 1, by simp at h; omega⟩
      have hzero : m a = 0 := by simpa [read] using hread
      rw [strlen, if_pos hzero]
      rfl
  | cons c s ih =>
      obtain ⟨n, rfl⟩ : ∃ n, fuel = n + 1 := ⟨fuel - 1, by simp at h; omega⟩
      rw [List.length_cons, Nat.add_comm, read_add, List.cons_append] at hread
      have hc : m a = c := by simpa [read] using congrArg List.head? hread
      have hrest : read m (a + 1) (s.length + 1) = s ++ [0] := by
        simpa [read] using congrArg List.tail hread
      rw [List.mem_cons, not_or] at hs
      rw [strlen, if_neg (by rw [hc]; exact Ne.symm hs.1), ih hrest hs.2 (by simp at h; omega)]
      rfl

/-! ## Formatting -/

theorem cut_of_lt {size : Nat} {text : List (BitVec 8)} (h : text.length < size) :
    cut size text = text ++ [0] := by
  rw [cut, if_neg (by omega), List.take_of_length_le (by omega)]

theorem length_cut_le (size : Nat) (text : List (BitVec 8)) : (cut size text).length ≤ size := by
  unfold cut
  split
  · simp
  · simp only [List.length_append, List.length_take, List.length_singleton]
    omega

theorem length_cString_le (text : List (BitVec 8)) : (cString text).length ≤ text.length :=
  (List.takeWhile_prefix _).length_le

theorem cString_eq_self {text : List (BitVec 8)} : cString text = text ↔ (0 : BitVec 8) ∉ text := by
  rw [cString, List.takeWhile_eq_self_iff]
  constructor
  · intro h hmem
    simpa using h 0 hmem
  · intro h c hc
    simp only [decide_eq_true_eq]
    rintro rfl
    exact h hc

theorem zero_notMem_cString (text : List (BitVec 8)) : (0 : BitVec 8) ∉ cString text := by
  intro hmem
  simpa using List.mem_takeWhile_imp hmem

/-- What is found where a text was formatted that fits. -/
theorem read_store_cut {size : Nat} {text : List (BitVec 8)} (m : Mem) (a : Nat)
    (h : text.length < size) :
    read (store m a (cut size text)) a (cString text).length = cString text ∧
      strlen (store m a (cut size text)) a size = (cString text).length := by
  have hsplit : cString text ++ text.dropWhile (· ≠ 0) = text := List.takeWhile_append_dropWhile
  rw [cut_of_lt h]
  have hterm : ∃ rest, text ++ [0] = (cString text ++ [0]) ++ rest := by
    cases hd : text.dropWhile (· ≠ 0) with
    | nil =>
        rw [hd, List.append_nil] at hsplit
        exact ⟨[], by rw [hsplit, List.append_nil]⟩
    | cons c rest =>
        have hc : c = 0 := by
          have hhead := List.head?_dropWhile_not (fun c : BitVec 8 => decide (c ≠ 0)) text
          rw [hd] at hhead
          simpa using hhead
        have htext : text = cString text ++ c :: rest := by rw [← hd, hsplit]
        exact ⟨rest ++ [0], by rw [List.append_assoc, ← hc]; simpa using congrArg (· ++ [c]) htext⟩
  obtain ⟨rest, hrest⟩ := hterm
  have hread : read (store m a (text ++ [0])) a ((cString text).length + 1)
      = cString text ++ [0] := by
    have := read_store_append m a (cString text ++ [0]) rest
    rwa [← hrest, List.length_append, List.length_singleton] at this
  constructor
  · have := congrArg (List.take (cString text).length) hread
    rwa [read_add, List.take_left' (length_read ..), List.take_left] at this
  · have := length_cString_le text
    exact strlen_of_read _ hread (zero_notMem_cString text) (by omega)

end Memory
