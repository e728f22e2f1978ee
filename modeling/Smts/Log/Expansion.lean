import Smts.Log.Itoa

/-!
# Log — what a header pattern stands for

The reference expansion of a pattern against what `css_logger_gen_format`
writes. A string is only copied the first time, a line number is cut to an
`int`, and a percent sign with nothing behind it takes the end of the pattern
for a conversion.
-/

namespace Smts

open CString Checked Numeral

/-! ## The reference expansion -/

/-- The conversions that stand for strings: `d`, `p`, `F`, `f` and `m`. -/
def isText (k : BitVec 8) : Bool := k == 100 || k == 112 || k == 70 || k == 102 || k == 109

/-- The string that a conversion of the pattern stands for; other conversions
than these have none. -/
def Sources.text (src : Sources) (k : BitVec 8) : Str :=
  if k = 100 then src.time
  else if k = 112 then src.level
  else if k = 70 then src.file
  else if k = 102 then src.func
  else if k = 109 then src.msg
  else []

/-- The other conversions, with the numerals of the line and the process. -/
def other (line pid : Str) (k : BitVec 8) : Str :=
  if k = 80 then pid
  else if k = 108 then line
  else if k = 37 then [37, 37]
  else []

/-- What the pattern stands for; a percent sign at its end for nothing. -/
def expansion (line pid : Str) (src : Sources) : Str → Str
  | [] => []
  | [c] => if c = 37 then [] else [c]
  | c :: k :: pattern =>
      if c = 37 then
        (if isText k then src.text k else other line pid k) ++ expansion line pid src pattern
      else c :: expansion line pid src (k :: pattern)

/-- `css_logger_gen_format`, with its arguments as they are declared: a `long`
is cut to the `int` that `itoa` takes. -/
def cssLoggerGenFormat (pattern : Str) (line : BitVec 64) (pid : BitVec 32) (src : Sources) :
    Option Str :=
  (genText (toInt32 line.toInt) pid.toInt pattern src).map (· ++ [0])

/-- It reads inside the pattern, and writes the expansion and a NUL. -/
def Expands (pattern : Str) (line : BitVec 64) (pid : BitVec 32) (src : Sources) : Prop :=
  cssLoggerGenFormat pattern line pid src
    = some (expansion (numeral 10 line.toInt) (numeral 10 pid.toInt) src pattern ++ [0])

/-! ## When it is met -/

/-- The pattern ends in a percent sign that none stands in front of. -/
def endsInPercent : Str → Bool
  | [] => false
  | [c] => c == 37
  | c :: k :: pattern => if c = 37 then endsInPercent pattern else endsInPercent (k :: pattern)

/-- How often a conversion is in the pattern. -/
def uses (x : BitVec 8) : Str → Nat
  | [] => 0
  | [_] => 0
  | c :: k :: pattern =>
      if c = 37 then (if k = x then 1 else 0) + uses x pattern else uses x (k :: pattern)

/-- No string is asked for twice, but for empty ones. -/
def TextsOnce (pattern : Str) (src : Sources) : Prop :=
  ∀ k, isText k = true → uses k pattern ≤ 1 ∨ src.text k = []

/-- The line is an `int`, or not asked for. -/
def LineFits (pattern : Str) (line : BitVec 64) : Prop :=
  uses 108 pattern = 0 ∨ Fits 32 line.toInt

/-! ## One conversion -/

/-- The sources when a conversion's string has been copied: `CL_COPY_STR` leaves
the pointer to it at its end. -/
def Sources.copied (src : Sources) (k : BitVec 8) : Sources :=
  (patternPiece 0 0 src k).2

section Piece

variable {line pid : Int} {src cur : Sources} {k j : BitVec 8}

theorem patternPiece_text (line pid : Int) (src : Sources) (hk : isText k = true) :
    patternPiece line pid src k = (src.text k, src.copied k) := by
  simp only [isText, Bool.or_eq_true, beq_iff_eq] at hk
  rcases hk with (((rfl | rfl) | rfl) | rfl) | rfl <;> rfl

theorem patternPiece_other (line pid : Int) (src : Sources) (hk : isText k = false) :
    patternPiece line pid src k = (other (itoa line 10) (itoa pid 10) k, src) := by
  simp only [isText, Bool.or_eq_false_iff, beq_eq_false_iff_ne] at hk
  obtain ⟨⟨⟨⟨h₁, h₂⟩, h₃⟩, h₄⟩, h₅⟩ := hk
  simp only [patternPiece, other, h₁, h₂, h₃, h₄, h₅, if_false]
  split_ifs <;> rfl

theorem Sources.copied_text (src : Sources) (hk : isText k = true) (hj : isText j = true) :
    (src.copied k).text j = if j = k then [] else src.text j := by
  simp only [isText, Bool.or_eq_true, beq_iff_eq] at hk hj
  rcases hk with (((rfl | rfl) | rfl) | rfl) | rfl <;>
    rcases hj with (((rfl | rfl) | rfl) | rfl) | rfl <;> rfl

end Piece

/-! ## The copied strings -/

/-- A conversion that stands `n` times finds its string in `cur`, and each time. -/
def Fresh (cur src : Sources) (k : BitVec 8) (n : Nat) : Prop :=
  n = 0 ∨ cur.text k = src.text k ∧ (n ≤ 1 ∨ src.text k = [])

/-- Each string is still as it was, or has been copied and is empty now. -/
def Left (cur src : Sources) : Prop :=
  ∀ k, isText k = true → cur.text k = src.text k ∨ cur.text k = []

section Texts

variable {line pid : Int} {pattern t : Str} {src cur : Sources} {k : BitVec 8}

theorem genText_eq_none_iff : genText line pid pattern cur = none ↔ endsInPercent pattern = true := by
  fun_induction genText line pid pattern cur with
  | case1 cur => simp [endsInPercent]
  | case2 cur => simp [endsInPercent]
  | case3 c cur hc => simpa [endsInPercent] using hc
  | case4 k pattern cur ih => rw [Option.map_eq_none_iff, ih, endsInPercent, if_pos rfl]
  | case5 c k pattern cur hc ih => rw [Option.map_eq_none_iff, ih, endsInPercent, if_neg hc]

theorem Left.copied (hleft : Left cur src) (hk : isText k = true) : Left (cur.copied k) src := by
  intro j hj
  rw [cur.copied_text hk hj]
  split
  · exact .inr rfl
  · exact hleft j hj

/-- A string that is there is copied, and has to be empty to be copied again. -/
theorem fresh_copied_iff (hk : isText k = true) (hcur : cur.text k = src.text k) {pattern : Str} :
    (∀ j, isText j = true → Fresh (cur.copied k) src j (uses j pattern)) ↔
      ∀ j, isText j = true → Fresh cur src j (uses j (37 :: k :: pattern)) := by
  refine forall₂_congr fun j hj => ?_
  rw [Fresh, Fresh, cur.copied_text hk hj, uses, if_pos rfl]
  by_cases hjk : j = k
  · subst hjk
    rw [if_pos rfl, if_pos rfl, hcur, eq_comm (a := ([] : Str))]
    by_cases hempty : src.text j = []
    · simp only [hempty, or_true, and_true]
    · simp only [hempty, or_false, false_and, true_and]
      omega
  · rw [if_neg hjk, if_neg (Ne.symm hjk), Nat.zero_add]

/-- The text is not longer than the expansion, and is the expansion just when
each string is found each time it is asked for. -/
theorem genText_eq_iff (hleft : Left cur src) (h : genText line pid pattern cur = some t) :
    t.length ≤ (expansion (itoa line 10) (itoa pid 10) src pattern).length ∧
      (t = expansion (itoa line 10) (itoa pid 10) src pattern ↔
        ∀ k, isText k = true → Fresh cur src k (uses k pattern)) := by
  fun_induction genText line pid pattern cur generalizing t with
  | case1 cur =>
      obtain rfl := Option.some.inj h
      exact ⟨le_rfl, iff_of_true rfl fun k _ => .inl rfl⟩
  | case2 cur => cases h
  | case3 c cur hc =>
      obtain rfl := Option.some.inj h
      rw [expansion, if_neg hc]
      exact ⟨le_rfl, iff_of_true rfl fun k _ => .inl rfl⟩
  | case4 k pattern cur ih =>
      obtain ⟨t, ht, rfl⟩ := Option.map_eq_some_iff.mp h
      rw [expansion, if_pos rfl]
      rcases hk : isText k with _ | _
      · rw [patternPiece_other line pid cur hk] at ih ht ⊢
        obtain ⟨hlen, hiff⟩ := ih hleft ht
        -- a letter of no string uses up none
        have huses : ∀ j, isText j = true → uses j (37 :: k :: pattern) = uses j pattern := by
          intro j hj
          have hne : k ≠ j := by
            rintro rfl
            rw [hj] at hk
            cases hk
          rw [uses, if_pos rfl, if_neg hne, Nat.zero_add]
        rw [if_neg (by decide), List.length_append, List.length_append, List.append_cancel_left_eq]
        refine ⟨Nat.add_le_add_left hlen _, hiff.trans (forall₂_congr fun j hj => ?_)⟩
        rw [huses j hj]
      · rw [patternPiece_text line pid cur hk] at ih ht ⊢
        obtain ⟨hlen, hiff⟩ := ih (hleft.copied hk) ht
        rw [if_pos rfl, List.length_append, List.length_append]
        by_cases hcur : cur.text k = src.text k
        · dsimp only
          rw [hcur, List.append_cancel_left_eq, hiff, fresh_copied_iff hk hcur]
          exact ⟨Nat.add_le_add_left hlen _, Iff.rfl⟩
        · -- the string has been copied, and was not empty
          have hempty := (hleft k hk).resolve_left hcur
          have hpos := List.length_pos_of_ne_nil fun h => hcur (hempty.trans h.symm)
          rw [hempty, List.nil_append, List.length_nil]
          refine ⟨by omega, iff_of_false (fun h => ?_) fun hall => ?_⟩
          · have := congrArg List.length h
            rw [List.length_append] at this
            omega
          · rcases hall k hk with h | h
            · rw [uses, if_pos rfl, if_pos rfl] at h
              omega
            · exact hcur h.1
  | case5 c k pattern cur hc ih =>
      obtain ⟨t, ht, rfl⟩ := Option.map_eq_some_iff.mp h
      obtain ⟨hlen, hiff⟩ := ih hleft ht
      simp only [expansion, uses, if_neg hc, List.length_cons, List.cons_inj_right]
      exact ⟨Nat.succ_le_succ hlen, hiff⟩

/-- From strings of which none has been copied, each is found once. -/
theorem forall_fresh_iff :
    (∀ k, isText k = true → Fresh src src k (uses k pattern)) ↔ TextsOnce pattern src := by
  refine forall₂_congr fun k _ => ?_
  rw [Fresh]
  constructor
  · rintro (h | h)
    · exact .inl (by omega)
    · exact h.2
  · intro h
    exact .inr ⟨rfl, h⟩

end Texts

/-! ## The line -/

section Line

variable {a b pid : Str} {src : Sources} {pattern : Str}

/-- As often as a numeral stands in the expansion, so often its length counts. -/
theorem length_expansion (a pid : Str) (src : Sources) (pattern : Str) :
    (expansion a pid src pattern).length
      = (expansion [] pid src pattern).length + uses 108 pattern * a.length := by
  fun_induction uses 108 pattern with
  | case1 => simp [expansion]
  | case2 c => simp [expansion]
  | case3 k pattern ih =>
      rw [expansion, expansion, if_pos rfl, if_pos rfl, List.length_append, List.length_append, ih]
      by_cases hk : k = 108
      · subst hk
        have hline : ∀ a, (if isText 108 = true then src.text 108 else other a pid 108) = a :=
          fun _ => rfl
        rw [hline, hline, if_pos rfl, List.length_nil, Nat.add_mul, Nat.one_mul]
        omega
      · have hother : other a pid k = other [] pid k := by
          simp only [other, if_neg hk]
        rw [hother, if_neg hk, Nat.zero_add, Nat.add_assoc]
  | case4 c k pattern hc ih =>
      rw [expansion, expansion, if_neg hc, if_neg hc, List.length_cons, List.length_cons, ih]
      omega

/-- Two numerals of one length give two expansions, if one is shown. -/
theorem expansion_injective (hlen : a.length = b.length)
    (h : expansion a pid src pattern = expansion b pid src pattern) :
    uses 108 pattern = 0 ∨ a = b := by
  fun_induction uses 108 pattern with
  | case1 => exact .inl rfl
  | case2 c => exact .inl rfl
  | case3 k pattern ih =>
      rw [expansion, expansion, if_pos rfl, if_pos rfl] at h
      by_cases hk : k = 108
      · subst hk
        exact .inr (List.append_inj h hlen).1
      · have hother : other a pid k = other b pid k := by
          simp only [other, if_neg hk]
        rw [hother, List.append_cancel_left_eq] at h
        rw [if_neg hk, Nat.zero_add]
        exact ih h
  | case4 c k pattern hc ih =>
      rw [expansion, expansion, if_neg hc, if_neg hc, List.cons_inj_right] at h
      exact ih h

theorem expansion_congr (h : uses 108 pattern = 0) (a b pid : Str) (src : Sources) :
    expansion a pid src pattern = expansion b pid src pattern := by
  fun_induction uses 108 pattern with
  | case1 => rfl
  | case2 c => rfl
  | case3 k pattern ih =>
      obtain ⟨hk, hrest⟩ := Nat.add_eq_zero_iff.mp h
      have hne : k ≠ 108 := by
        rintro rfl
        cases hk
      have hother : other a pid k = other b pid k := by
        simp only [other, if_neg hne]
      rw [expansion, expansion, if_pos rfl, if_pos rfl, hother, ih hrest]
  | case4 c k pattern hc ih =>
      rw [expansion, expansion, if_neg hc, if_neg hc, ih h]

theorem expansion_eq_iff :
    expansion a pid src pattern = expansion b pid src pattern ↔ uses 108 pattern = 0 ∨ a = b := by
  constructor
  · intro h
    rcases Nat.eq_zero_or_pos (uses 108 pattern) with hzero | hpos
    · exact .inl hzero
    · have hlen := congrArg List.length h
      rw [length_expansion a, length_expansion b, Nat.add_left_cancel_iff,
        Nat.mul_right_inj hpos.ne'] at hlen
      exact expansion_injective hlen h
  · rintro (h | rfl)
    · exact expansion_congr h a b pid src
    · rfl

end Line

/-! ## The header -/

/-- **Header patterns.** A pattern that ends in a lone percent sign is read
behind its end. Else a pattern that shows no string twice, and no line that is
no `int`, is expanded; and one of the two defects alone always shows. -/
theorem expands_iff (pattern : Str) (line : BitVec 64) (pid : BitVec 32) (src : Sources) :
    (endsInPercent pattern = false ∧ TextsOnce pattern src ∧ LineFits pattern line →
      Expands pattern line pid src) ∧
    (Expands pattern line pid src →
      endsInPercent pattern = false ∧ (TextsOnce pattern src ↔ LineFits pattern line)) := by
  rw [Expands, cssLoggerGenFormat]
  rcases htext : genText (toInt32 line.toInt) pid.toInt pattern src with _ | t
  · have hend := genText_eq_none_iff.mp htext
    simp [hend]
  · have hend : endsInPercent pattern = false := by
      rw [← Bool.not_eq_true, ← genText_eq_none_iff, htext]
      simp
    have hcopied := (genText_eq_iff (fun k _ => .inl rfl) htext).2
    have hcut : Fits 32 (toInt32 line.toInt) := fits_toInt _
    have hlines : expansion (numeral 10 (toInt32 line.toInt)) (numeral 10 pid.toInt) src pattern
        = expansion (numeral 10 line.toInt) (numeral 10 pid.toInt) src pattern ↔
          LineFits pattern line := by
      rw [expansion_eq_iff, LineFits, ← toInt32_eq_iff,
        (numeral_injective (by decide) (by decide)).eq_iff]
    rw [itoa_eq_numeral hcut, itoa_eq_numeral (fits_toInt pid), forall_fresh_iff] at hcopied
    rw [Option.map_some, Option.some_inj, List.append_cancel_right_eq]
    constructor
    · rintro ⟨-, htexts, hline⟩
      rw [hcopied.mpr htexts, hlines.mpr hline]
    · intro h
      rw [← h, eq_comm] at hlines
      exact ⟨hend, hcopied.symm.trans hlines⟩

/-- `"%"` is read behind its end. -/
theorem not_expands_percent : ¬ ∀ pattern line pid src, Expands pattern line pid src := by
  intro hall
  have hread := hall [37] 1 1 ⟨[], [], [], [], []⟩
  rw [Expands, show cssLoggerGenFormat [37] 1 1 ⟨[], [], [], [], []⟩ = none from rfl] at hread
  cases hread

/-- `"%m%m%l"` with `"-"` on line 2147483648: the second sign that is not copied
is that of the line. -/
example : Expands [37, 109, 37, 109, 37, 108] (2 ^ 31) 1 ⟨[], [], [], [], [45]⟩ := by
  unfold Expands
  decide +kernel

end Smts
