import Smts.Lib.CString

/-!
# Printf — format strings and the arguments they use

The conversion specifications of ISO C's `printf` family: how a format is read,
how many values of a `va_list` each specification takes, and which of them
depend on the values. What a conversion makes of its values is a parameter; it
may be nothing, as when `%n` stores through a value that is no pointer.
-/

namespace Printf

open CString

/-! ## Conversion specifications -/

/-- A field width or precision of a conversion specification. -/
inductive Amount where
  | none
  | given (digits : Str)
  /-- `*`: an argument says it -/
  | star
deriving DecidableEq, Repr

structure Spec where
  flags : Str
  width : Amount
  precision : Amount
  length : Str
  conv : BitVec 8
deriving DecidableEq, Repr

/-- A byte that is printed as it is, or a conversion. -/
inductive Piece where
  | lit (c : BitVec 8)
  | spec (d : Spec)
deriving DecidableEq, Repr

def Amount.arity : Amount → Nat
  | .star => 1
  | _ => 0

/-- The values a conversion takes from the `va_list`. -/
def Spec.arity (d : Spec) : Nat := d.width.arity + d.precision.arity + 1

/-- A precision of zero is written down, as in `%.0s`; a lone dot counts as one. -/
def Amount.isZero : Amount → Bool
  | .given digits => digits.all (· == 48)
  | _ => false

/-- What comes of the conversion depends on its values: all of them but strings
that are cut off before their first byte. -/
def Spec.Shows (d : Spec) : Prop :=
  ¬ (d.conv = 115 ∧ d.precision.isZero = true ∧ d.width ≠ .star)

instance (d : Spec) : Decidable d.Shows := by unfold Spec.Shows; infer_instance

/-- `-`, `+`, space, `#`, `0`. -/
def flagChars : Str := [45, 43, 32, 35, 48]

/-- `h`, `l`, `j`, `z`, `t`, `L`. -/
def lengthChars : Str := [104, 108, 106, 122, 116, 76]

/-- The length modifiers; an empty one says that there is none. -/
def lengths : List Str :=
  [[], [104, 104], [104], [108], [108, 108], [106], [122], [116], [76]]

/-- `d i o u x X f F e E g G a A c s p n`. -/
def convChars : Str :=
  [100, 105, 111, 117, 120, 88, 102, 70, 101, 69, 103, 71, 97, 65, 99, 115, 112, 110]

/-! ## Reading a format -/

/-- How far the reading of a specification has come: what was last read of it. -/
inductive Phase where
  | flags
  | width
  /-- `*` for the width -/
  | afterWidth
  | precision
  | length
deriving DecidableEq, Repr

/-- Nothing read but the percent sign. -/
def Spec.blank : Spec := ⟨[], .none, .none, [], 0⟩

def Amount.push : Amount → BitVec 8 → Amount
  | .given digits, c => .given (digits ++ [c])
  | _, c => .given [c]

/-- A specification goes on with one more byte. -/
def more (phase : Phase) (d : Spec) (c : BitVec 8) : Option (Phase × Spec) :=
  if phase = .flags ∧ c ∈ flagChars then some (.flags, { d with flags := d.flags ++ [c] })
  else if (phase = .flags ∨ phase = .width) ∧ isDigit c then
    some (.width, { d with width := d.width.push c })
  else if phase = .flags ∧ c = 42 then some (.afterWidth, { d with width := .star })
  else if (phase = .flags ∨ phase = .width ∨ phase = .afterWidth) ∧ c = 46 then
    some (.precision, { d with precision := .given [] })
  else if phase = .precision ∧ isDigit c then
    some (.precision, { d with precision := d.precision.push c })
  else if phase = .precision ∧ d.precision = .given [] ∧ c = 42 then
    some (.length, { d with precision := .star })
  else if c ∈ lengthChars then some (.length, { d with length := d.length ++ [c] })
  else none

/-- A specification ends with its conversion; `%%` is a percent sign. -/
def last (phase : Phase) (d : Spec) (c : BitVec 8) : Option Piece :=
  if c = 37 ∧ phase = .flags ∧ d = .blank then some (.lit 37)
  else if c ∈ convChars ∧ d.length ∈ lengths then some (.spec { d with conv := c })
  else none

/-- Reading one more byte; the state is the specification that is not complete. -/
def step : Option (Phase × Spec) → BitVec 8 → Option (Option (Phase × Spec) × List Piece)
  | none, c => if c = 37 then some (some (.flags, .blank), []) else some (none, [.lit c])
  | some (phase, d), c =>
      match more phase d c with
      | some state => some (some state, [])
      | none => (last phase d c).map fun piece => (none, [piece])

def scan (state : Option (Phase × Spec)) : Str → Option (Option (Phase × Spec) × List Piece)
  | [] => some (state, [])
  | c :: s =>
      (step state c).bind fun r => (scan r.1 s).map fun q => (q.1, r.2 ++ q.2)

/-- A format; none when it is not valid. -/
def parse (s : Str) : Option (List Piece) :=
  (scan none s).bind fun r => if r.1 = none then some r.2 else none

theorem scan_append (state : Option (Phase × Spec)) (s t : Str) :
    scan state (s ++ t)
      = (scan state s).bind fun r => (scan r.1 t).map fun q => (q.1, r.2 ++ q.2) := by
  induction s generalizing state with
  | nil => simp [scan]
  | cons c s ih =>
      rw [List.cons_append, scan, scan]
      cases step state c with
      | none => rfl
      | some r =>
          rw [Option.bind_some, ih, Option.bind_some]
          cases scan r.1 s with
          | none => rfl
          | some q =>
              simp only [Option.bind_some, Option.map_some]
              cases scan q.1 t with
              | none => rfl
              | some p => simp

theorem scan_of_parse {s : Str} {ps : List Piece} (h : parse s = some ps) :
    scan none s = some (none, ps) := by
  obtain ⟨⟨state, qs⟩, hscan, h⟩ := Option.bind_eq_some_iff.mp h
  split at h
  next hstate =>
    obtain rfl := Option.some.inj h
    rw [hscan, ← hstate]
  next => cases h

/-- Formats can be put together: behind a whole format the pieces of the next
one follow. -/
theorem parse_append {s t : Str} {ps : List Piece} (h : parse s = some ps) :
    parse (s ++ t) = (parse t).map (ps ++ ·) := by
  unfold parse
  rw [scan_append, scan_of_parse h, Option.bind_some]
  dsimp only
  cases scan none t with
  | none => rfl
  | some q =>
      simp only [Option.map_some, Option.bind_some]
      split <;> rfl

/-- A text without percent signs stands for itself. -/
theorem parse_plain {s : Str} (h : (37 : BitVec 8) ∉ s) : parse s = some (s.map .lit) := by
  induction s with
  | nil => rfl
  | cons c s ih =>
      rw [List.mem_cons, not_or] at h
      have hc : parse [c] = some [.lit c] := by
        have hne : c ≠ 37 := Ne.symm h.1
        rw [parse, scan, step, if_neg hne]
        rfl
      have happ := parse_append (t := s) hc
      rw [ih h.2] at happ
      exact happ

theorem lit_of_step {state : Option (Phase × Spec)} {c x : BitVec 8}
    {r : Option (Phase × Spec) × List Piece} (h : step state c = some r) (hx : .lit x ∈ r.2) :
    x = c ∨ x = 37 := by
  cases state with
  | none =>
      rw [step] at h
      split at h
      · obtain rfl := Option.some.inj h
        cases hx
      · obtain rfl := Option.some.inj h
        exact .inl (Piece.lit.inj (List.mem_singleton.mp hx))
  | some state =>
      rw [step] at h
      split at h
      · obtain rfl := Option.some.inj h
        cases hx
      · obtain ⟨piece, hlast, rfl⟩ := Option.map_eq_some_iff.mp h
        rw [List.mem_singleton] at hx
        subst hx
        unfold last at hlast
        split at hlast
        · exact .inr (Piece.lit.inj (Option.some.inj hlast)).symm
        · split at hlast <;> cases hlast

/-- What is printed as it is stands in the format. -/
theorem lit_of_scan {state : Option (Phase × Spec)} {s : Str} {x : BitVec 8}
    {r : Option (Phase × Spec) × List Piece} (h : scan state s = some r) (hx : .lit x ∈ r.2) :
    x ∈ s ∨ x = 37 := by
  induction s generalizing state r with
  | nil =>
      obtain rfl := Option.some.inj h
      cases hx
  | cons c s ih =>
      obtain ⟨r', hstep, h⟩ := Option.bind_eq_some_iff.mp h
      obtain ⟨q, hscan, rfl⟩ := Option.map_eq_some_iff.mp h
      rcases List.mem_append.mp hx with hx | hx
      · rcases lit_of_step hstep hx with rfl | hpercent
        · exact .inl List.mem_cons_self
        · exact .inr hpercent
      · exact (ih hscan hx).imp_left (List.mem_cons_of_mem c)

theorem lit_of_parse {s : Str} {ps : List Piece} {x : BitVec 8} (h : parse s = some ps)
    (hx : .lit x ∈ ps) : x ∈ s ∨ x = 37 := lit_of_scan (scan_of_parse h) hx

/-- `%-*.3ld` -/
example : parse [37, 45, 42, 46, 51, 108, 100]
    = some [.spec ⟨[45], .star, .given [51], [108], 100⟩] := by decide

/-! ## Printing -/

/-- The specifications of a format. -/
def specs (ps : List Piece) : List Spec :=
  ps.filterMap fun
    | .lit _ => none
    | .spec d => some d

/-- The values a format takes from the `va_list`. -/
def arity (ps : List Piece) : Nat := ((specs ps).map Spec.arity).sum

@[simp] theorem specs_nil : specs [] = [] := rfl

@[simp] theorem specs_lit (c : BitVec 8) (ps : List Piece) : specs (.lit c :: ps) = specs ps := rfl

@[simp] theorem specs_spec (d : Spec) (ps : List Piece) :
    specs (.spec d :: ps) = d :: specs ps := rfl

@[simp] theorem specs_append (ps qs : List Piece) : specs (ps ++ qs) = specs ps ++ specs qs :=
  List.filterMap_append

@[simp] theorem specs_map_lit (s : Str) : specs (s.map .lit) = [] := by
  induction s with
  | nil => rfl
  | cons c s ih => exact ih

theorem arity_spec (d : Spec) (ps : List Piece) : arity (.spec d :: ps) = d.arity + arity ps := rfl

theorem arity_pos {ps : List Piece} {d : Spec} (h : d ∈ specs ps) : 0 < arity ps := by
  induction ps with
  | nil => cases h
  | cons p ps ih =>
      cases p with
      | lit c => exact ih h
      | spec d' =>
          rw [arity_spec, Spec.arity]
          omega

/-- What conversions make of the values they take: of their width and precision,
where they are `*`, and the value itself. It is not defined for a value that is
none of the conversion's, as `%n` for one that is no pointer. What depends on its
values is something else for others, a text at most three bytes longer (`0x1` for
nothing) or nothing at all. -/
structure Conversions (α : Type) where
  text : Spec → List α → Option Str
  shown : ∀ d, d.Shows → ∀ values : List α, values.length = d.arity →
    ∃ others : List α, others.length = d.arity ∧ text d others ≠ text d values ∧
      ∀ s t, text d others = some s → text d values = some t → 0 ∉ s ∧ s.length ≤ t.length + 3
  hidden : ∀ d, ¬ d.Shows → ∃ s : Str, 0 ∉ s ∧ ∀ values : List α, text d values = some s

section Valist

variable {α : Type}

/-- The arguments of a call, and what is read when they are used up. -/
def valist (args : List α) (behind : Nat → α) : Nat → α := fun i =>
  args[i]?.getD (behind (i - args.length))

theorem valist_of_lt {args : List α} {i : Nat} (h : i < args.length) (behind : Nat → α) :
    valist args behind i = args[i] := by
  rw [valist, List.getElem?_eq_getElem h, Option.getD_some]

theorem valist_add (args : List α) (behind : Nat → α) (i : Nat) :
    valist args behind (args.length + i) = behind i := by
  rw [valist, List.getElem?_eq_none (Nat.le_add_right _ _), Option.getD_none,
    Nat.add_sub_cancel_left]

theorem map_valist (args : List α) (behind : Nat → α) :
    (List.range args.length).map (valist args behind) = args := by
  apply List.ext_getElem
  · simp
  · intro i hi hi'
    rw [List.getElem_map, List.getElem_range, valist_of_lt hi']

end Valist

variable {α : Type} (C : Conversions α) {ps : List Piece} {va va' : Nat → α}

/-- The text of a format, if all conversions have one; `va` are the values that are
left in the `va_list`. -/
def vprintf : List Piece → (Nat → α) → Option Str
  | [], _ => some []
  | .lit c :: ps, va => (vprintf ps va).map (c :: ·)
  | .spec d :: ps, va => do
      let s ← C.text d ((List.range d.arity).map va)
      let t ← vprintf ps fun i => va (d.arity + i)
      some (s ++ t)

/-- Only the values that a format takes from its `va_list` count. -/
theorem vprintf_congr (h : ∀ i < arity ps, va i = va' i) : vprintf C ps va = vprintf C ps va' := by
  induction ps generalizing va va' with
  | nil => rfl
  | cons p ps ih =>
      cases p with
      | lit c => rw [vprintf, vprintf, ih h]
      | spec d =>
          rw [arity_spec] at h
          have hhead : (List.range d.arity).map va = (List.range d.arity).map va' := by
            refine List.map_congr_left fun i hi => h i ?_
            have := List.mem_range.mp hi
            omega
          have hrest : (vprintf C ps fun i => va (d.arity + i))
              = vprintf C ps fun i => va' (d.arity + i) := ih fun i hi => h _ (by omega)
          rw [vprintf, vprintf, hhead, hrest]

/-- A format of which no specification shows its values has one text, whatever
the values are. -/
theorem vprintf_of_hidden (h : ∀ d ∈ specs ps, ¬ d.Shows) (hlit : ∀ c, .lit c ∈ ps → c ≠ 0) :
    ∃ s : Str, 0 ∉ s ∧ ∀ va, vprintf C ps va = some s := by
  induction ps with
  | nil => exact ⟨[], by simp, fun _ => rfl⟩
  | cons p ps ih =>
      have hrest := fun c hc => hlit c (List.mem_cons_of_mem p hc)
      cases p with
      | lit c =>
          obtain ⟨s, hs, htext⟩ := ih h hrest
          have hc : c ≠ 0 := hlit c List.mem_cons_self
          refine ⟨c :: s, ?_, fun va => ?_⟩
          · rw [List.mem_cons, not_or]
            exact ⟨hc.symm, hs⟩
          · rw [vprintf, htext, Option.map_some]
      | spec d =>
          rw [specs_spec, List.forall_mem_cons] at h
          obtain ⟨s, hs, htext⟩ := ih h.2 hrest
          obtain ⟨t, ht, hd⟩ := C.hidden d h.1
          refine ⟨t ++ s, ?_, fun va => ?_⟩
          · rw [List.mem_append, not_or]
            exact ⟨ht, hs⟩
          · rw [vprintf, hd, htext]
            rfl

theorem vprintf_spec_eq_some {d : Spec} {t : Str} :
    vprintf C (.spec d :: ps) va = some t ↔
      ∃ t₁ t₂, C.text d ((List.range d.arity).map va) = some t₁ ∧
        (vprintf C ps fun i => va (d.arity + i)) = some t₂ ∧ t = t₁ ++ t₂ := by
  constructor
  · intro h
    obtain ⟨t₁, ht₁, h⟩ := Option.bind_eq_some_iff.mp h
    obtain ⟨t₂, ht₂, h⟩ := Option.bind_eq_some_iff.mp h
    exact ⟨t₁, t₂, ht₁, ht₂, (Option.some.inj h).symm⟩
  · rintro ⟨t₁, t₂, ht₁, ht₂, rfl⟩
    rw [vprintf, ht₁, ht₂]
    rfl

/-- The values behind the ones that a format takes do not count. -/
theorem vprintf_valist {args : List α} (hlen : arity ps = args.length) (behind behind' : Nat → α) :
    vprintf C ps (valist args behind) = vprintf C ps (valist args behind') := by
  refine vprintf_congr C fun i hi => ?_
  rw [hlen] at hi
  rw [valist_of_lt hi, valist_of_lt hi]

/-- Another text than `t`, with a zero only if `t` has one, and longer by three
bytes at most. -/
def Differs (t s : Str) : Prop :=
  s ≠ t ∧ ((0 : BitVec 8) ∉ t → (0 : BitVec 8) ∉ s) ∧ s.length ≤ t.length + 3

theorem Differs.append_left {t s : Str} (h : Differs t s) (u : Str) : Differs (u ++ t) (u ++ s) := by
  obtain ⟨hne, hzero, hlen⟩ := h
  refine ⟨fun heq => hne (List.append_cancel_left heq), fun hmem => ?_, ?_⟩
  · rw [List.mem_append, not_or] at hmem ⊢
    exact ⟨hmem.1, hzero hmem.2⟩
  · rw [List.length_append, List.length_append]
    omega

theorem Differs.append_right {t s : Str} (h : Differs t s) (u : Str) : Differs (t ++ u) (s ++ u) := by
  obtain ⟨hne, hzero, hlen⟩ := h
  refine ⟨fun heq => hne (List.append_cancel_right heq), fun hmem => ?_, ?_⟩
  · rw [List.mem_append, not_or] at hmem ⊢
    exact ⟨hzero hmem.1, hmem.2⟩
  · rw [List.length_append, List.length_append]
    omega

/-- Other values for the first conversion, and the same ones behind it. -/
theorem exists_differs_head {d : Spec} (hd : d.Shows) {t : Str}
    (ht : vprintf C (.spec d :: ps) va = some t) :
    ∃ va', ∀ s, vprintf C (.spec d :: ps) va' = some s → Differs t s := by
  obtain ⟨t₁, t₂, ht₁, ht₂, rfl⟩ := (vprintf_spec_eq_some C).mp ht
  have hlen : ((List.range d.arity).map va).length = d.arity := by simp
  obtain ⟨others, hother, hne, hle⟩ := C.shown d hd _ hlen
  refine ⟨valist others fun i => va (d.arity + i), fun s hs => ?_⟩
  obtain ⟨s₁, s₂, hs₁, hs₂, rfl⟩ := (vprintf_spec_eq_some C).mp hs
  rw [← hother, map_valist] at hs₁
  simp only [← hother, valist_add] at hs₂
  rw [hother, ht₂] at hs₂
  obtain rfl := Option.some.inj hs₂
  obtain ⟨hzero, hlong⟩ := hle s₁ t₁ hs₁ ht₁
  have hhead : Differs t₁ s₁ :=
    ⟨fun heq => hne (by rw [hs₁, ht₁, heq]), fun _ => hzero, hlong⟩
  exact hhead.append_right t₂

/-- The same values for the first conversion, and other ones behind it. -/
theorem exists_differs_tail {d : Spec} {t₁ t₂ : Str} {va' : Nat → α}
    (ht₁ : C.text d ((List.range d.arity).map va) = some t₁)
    (hva : ∀ s, vprintf C ps va' = some s → Differs t₂ s) :
    ∃ va'', ∀ s, vprintf C (.spec d :: ps) va'' = some s → Differs (t₁ ++ t₂) s := by
  have hlen : ((List.range d.arity).map va).length = d.arity := by simp
  have hmap := map_valist ((List.range d.arity).map va) va'
  have hadd := valist_add ((List.range d.arity).map va) va'
  rw [hlen] at hmap hadd
  refine ⟨valist ((List.range d.arity).map va) va', fun s hs => ?_⟩
  obtain ⟨s₁, s₂, hs₁, hs₂, rfl⟩ := (vprintf_spec_eq_some C).mp hs
  rw [hmap, ht₁] at hs₁
  simp only [hadd] at hs₂
  obtain rfl := Option.some.inj hs₁
  exact (hva s₂ hs₂).append_left t₁

/-- Other values make another text, or none, when it depends on one of them. -/
theorem exists_vprintf_ne (h : ∃ d ∈ specs ps, d.Shows) {t : Str} (ht : vprintf C ps va = some t) :
    ∃ va', ∀ s, vprintf C ps va' = some s → Differs t s := by
  induction ps generalizing va t with
  | nil =>
      obtain ⟨d, hd, -⟩ := h
      cases hd
  | cons p ps ih =>
      cases p with
      | lit c =>
          obtain ⟨t₁, ht₁, rfl⟩ := Option.map_eq_some_iff.mp ht
          obtain ⟨va', hva⟩ := ih h ht₁
          refine ⟨va', fun s hs => ?_⟩
          obtain ⟨s₁, hs₁, rfl⟩ := Option.map_eq_some_iff.mp hs
          exact (hva s₁ hs₁).append_left [c]
      | spec d =>
          by_cases hd : d.Shows
          · exact exists_differs_head C hd ht
          · have hrest : ∃ d ∈ specs ps, d.Shows := by
              obtain ⟨d', hmem, hshows⟩ := h
              rcases List.mem_cons.mp hmem with rfl | hmem
              · exact absurd hshows hd
              · exact ⟨d', hmem, hshows⟩
            obtain ⟨t₁, t₂, ht₁, ht₂, rfl⟩ := (vprintf_spec_eq_some C).mp ht
            obtain ⟨va', hva⟩ := ih hrest ht₂
            exact exists_differs_tail C ht₁ hva

end Printf
