import Mathlib.Tactic.Ring

/-!
# Checked — arithmetic that stops at the first fault

C's integer operations where a fault is a result of its own: a divisor that is
zero, a result that its type does not hold, an index outside of a table, a
negative number of bytes asked for. A computation is in order when it has an
ordinary result.
-/

namespace Checked

inductive Fault where
  | divisionByZero
  | overflow (x : Int)
  | negativeSize (n : Int)
  | outside (i : Int)
  /-- a loop is not over -/
  | outOfFuel
deriving DecidableEq, Repr

/-- A signed integer of `w` bits holds `x`. -/
def Fits (w : Nat) (x : Int) : Prop :=
  -((2 ^ (w - 1) : Nat) : Int) ≤ x ∧ x < ((2 ^ (w - 1) : Nat) : Int)

instance (w : Nat) (x : Int) : Decidable (Fits w x) :=
  inferInstanceAs (Decidable (_ ∧ _))

/-- `a / b`, which rounds toward zero. -/
def div (a b : Int) : Except Fault Int :=
  if b = 0 then .error .divisionByZero else .ok (a.tdiv b)

/-- `a % b`, of the sign of `a`. -/
def rem (a b : Int) : Except Fault Int :=
  if b = 0 then .error .divisionByZero else .ok (a.tmod b)

/-- A result that a signed integer of `w` bits has to hold. -/
def fit (w : Nat) (x : Int) : Except Fault Int :=
  if Fits w x then .ok x else .error (.overflow x)

def add (w : Nat) (a b : Int) : Except Fault Int := fit w (a + b)

def sub (w : Nat) (a b : Int) : Except Fault Int := fit w (a - b)

def mul (w : Nat) (a b : Int) : Except Fault Int := fit w (a * b)

/-- `table[i]`. -/
def get {α : Type} (table : List α) (i : Int) : Except Fault α :=
  match if 0 ≤ i then table[i.toNat]? else none with
  | some x => .ok x
  | none => .error (.outside i)

/-- `malloc(n)`, with an `int` for a size. -/
def malloc (n : Int) : Except Fault Unit :=
  if 0 ≤ n then .ok () else .error (.negativeSize n)

section Spec

variable {α β : Type} {a b x : Int} {w : Nat}

theorem bind_ok_iff {c : Except Fault α} {f : α → Except Fault β} {y : β} :
    (c >>= f) = .ok y ↔ ∃ x, c = .ok x ∧ f x = .ok y := by
  cases c with
  | error e =>
      constructor
      · rintro ⟨⟩
      · rintro ⟨_, ⟨⟩, _⟩
  | ok x =>
      constructor
      · intro h
        exact ⟨x, rfl, h⟩
      · rintro ⟨y, hy, h⟩
        obtain rfl := Except.ok.inj hy
        exact h

theorem div_ok_iff : div a b = .ok x ↔ b ≠ 0 ∧ x = a.tdiv b := by
  rw [div]
  split
  next hb => simp [hb]
  next hb => simp [hb, eq_comm]

theorem rem_ok_iff : rem a b = .ok x ↔ b ≠ 0 ∧ x = a.tmod b := by
  rw [rem]
  split
  next hb => simp [hb]
  next hb => simp [hb, eq_comm]

theorem fits_toInt (v : BitVec w) : Fits w v.toInt := by
  rw [Fits]
  push_cast
  exact ⟨v.le_toInt, v.toInt_lt⟩

theorem fit_ok_iff : fit w a = .ok x ↔ Fits w a ∧ x = a := by
  rw [fit]
  split
  next ha => simp [ha, eq_comm]
  next ha => simp [ha]

theorem mul_ok_iff : mul w a b = .ok x ↔ Fits w (a * b) ∧ x = a * b := fit_ok_iff

theorem add_ok (h : Fits w (a + b)) : add w a b = .ok (a + b) := if_pos h

theorem sub_ok (h : Fits w (a - b)) : sub w a b = .ok (a - b) := if_pos h

theorem mul_ok (h : Fits w (a * b)) : mul w a b = .ok (a * b) := if_pos h

theorem div_ok (h : b ≠ 0) : div a b = .ok (a.tdiv b) := if_neg h

theorem get_ok {table : List α} {i : Nat} {y : α} (h : table[i]? = some y) :
    get table i = .ok y := by
  rw [get, if_pos (Int.natCast_nonneg i), Int.toNat_natCast, h]

theorem bind_ok {c : Except Fault α} {f : α → Except Fault β} {y : α} (h : c = .ok y) :
    (c >>= f) = f y := by
  rw [h]
  rfl

theorem malloc_ok_iff {u : Unit} : malloc x = .ok u ↔ 0 ≤ x := by
  rw [malloc]
  split
  next hx => simp [hx]
  next hx => simp [hx]

@[simp]
theorem malloc_natCast (n : Nat) : malloc n = .ok () := if_pos (Int.natCast_nonneg n)

end Spec

end Checked
