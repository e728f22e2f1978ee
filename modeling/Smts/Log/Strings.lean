import Smts.Log.Itoa

/-!
# Log — base names and line ends

Two of the string functions of `css_logger.c`. `cl_index_of_basename` takes the
first character of a path without a separator for one.
`css_logger_fmt_replace_enter` leaves out what stands behind the last newline,
and has room for 31 of them.
-/

namespace Smts

open CString Checked

/-! ## Base names -/

/-- The bytes that stand between the parts of a path. -/
def isSeparator (c : BitVec 8) : Bool := c == 47 || c == 92

/-- The base name of a path: what stands behind its last separator. -/
def baseName (file : Str) : Str := (file.reverse.takeWhile fun c => !isSeparator c).reverse

/-- The position just after the last separator, or the start. -/
def AfterLast (file : Str) (index : Nat) : Prop :=
  (∀ i c, index ≤ i → file[i]? = some c → isSeparator c = false) ∧
    (index = 0 ∨ ∃ c, file[index - 1]? = some c ∧ isSeparator c = true)

/-- `cl_index_of_basename` returns an index inside the string, and there the
base name begins. -/
def IndexesBaseName (file : Str) : Prop :=
  clIndexOfBasename file ≤ file.length ∧ AfterLast file (clIndexOfBasename file) ∧
    file.drop (clIndexOfBasename file) = baseName file

section BaseName

variable {file : Str} {n : Nat}

/-- Where the loop stops: at a separator, or at the start. -/
theorem lastSlash_spec (file : Str) (n : Nat) :
    (lastSlash file n = 0 ∨ ∃ c, file[lastSlash file n]? = some c ∧ isSeparator c = true) ∧
      ∀ i c, lastSlash file n < i → i ≤ n → file[i]? = some c → isSeparator c = false := by
  induction n with
  | zero => exact ⟨.inl rfl, fun i c hlt hle => by omega⟩
  | succ n ih =>
      rw [lastSlash]
      split
      next h =>
        refine ⟨.inr ?_, fun i c hlt hle => by omega⟩
        rcases h with h | h
        · exact ⟨47, h, rfl⟩
        · exact ⟨92, h, rfl⟩
      next h =>
        obtain ⟨hstop, hbehind⟩ := ih
        refine ⟨hstop, fun i c hlt hle hc => ?_⟩
        rcases Nat.lt_or_ge n i with hi | hi
        · obtain rfl : i = n + 1 := by omega
          rw [hc, Option.some_inj, Option.some_inj, not_or] at h
          simpa [isSeparator] using h
        · exact hbehind i c hlt hi hc

/-- Such a position is where the base name starts. -/
theorem AfterLast.drop_eq {index : Nat} (h : AfterLast file index) (hle : index ≤ file.length) :
    file.drop index = baseName file := by
  obtain ⟨hbehind, hat⟩ := h
  have hnone : ∀ c ∈ (file.drop index).reverse, (!isSeparator c) = true := by
    intro c hc
    obtain ⟨i, hi⟩ := List.mem_iff_getElem?.mp (List.mem_reverse.mp hc)
    rw [List.getElem?_drop] at hi
    rw [hbehind _ c (Nat.le_add_right index i) hi]
    rfl
  have hfront : ((file.take index).reverse.takeWhile fun c => !isSeparator c) = [] := by
    rcases hat with rfl | ⟨c, hc, hsep⟩
    · rfl
    · have hpos : index - 1 < file.length := (List.getElem?_eq_some_iff.mp hc).1
      rcases Nat.eq_zero_or_pos index with rfl | hindex
      · rfl
      · have htake : file.take index = file.take (index - 1) ++ [c] := by
          conv_lhs => rw [show index = index - 1 + 1 by omega, List.take_add_one, hc]
          rfl
        rw [htake, List.reverse_append, List.reverse_singleton, List.singleton_append,
          List.takeWhile_cons_of_neg (by simp [hsep])]
  have hsplit : file.reverse = (file.drop index).reverse ++ (file.take index).reverse := by
    rw [← List.reverse_append, List.take_append_drop]
  rw [baseName, hsplit, List.takeWhile_append_of_pos hnone, hfront, List.append_nil,
    List.reverse_reverse]

/-- **Base names.** The index is that of the base name just when the path has a
separator. -/
theorem indexesBaseName_iff (hfile : file ≠ []) :
    IndexesBaseName file ↔ ∃ c ∈ file, isSeparator c = true := by
  have hlen : file.length ≠ 0 := fun h => hfile (List.length_eq_zero_iff.mp h)
  have hindex : clIndexOfBasename file = lastSlash file file.length + 1 := by
    rw [clIndexOfBasename, if_neg hlen]
  obtain ⟨hstop, hbehind⟩ := lastSlash_spec file file.length
  rw [IndexesBaseName, hindex]
  constructor
  · rintro ⟨-, ⟨-, hat⟩, -⟩
    obtain ⟨c, hc, hsep⟩ := hat.resolve_left (Nat.succ_ne_zero _)
    exact ⟨c, List.mem_of_getElem? hc, hsep⟩
  · rintro ⟨c, hmem, hsep⟩
    obtain ⟨i, hi⟩ := List.mem_iff_getElem?.mp hmem
    have hlt : i < file.length := (List.getElem?_eq_some_iff.mp hi).1
    have hle : i ≤ lastSlash file file.length := by
      by_contra h
      rw [hbehind i c (by omega) hlt.le hi] at hsep
      cases hsep
    have hat : ∃ c, file[lastSlash file file.length]? = some c ∧ isSeparator c = true := by
      rcases hstop with h | h
      · obtain rfl : i = 0 := by omega
        rw [h]
        exact ⟨c, hi, hsep⟩
      · exact h
    obtain ⟨d, hd, hdsep⟩ := hat
    have hinside : lastSlash file file.length + 1 ≤ file.length :=
      (List.getElem?_eq_some_iff.mp hd).1
    have hafter : AfterLast file (lastSlash file file.length + 1) := by
      refine ⟨fun j e hj he => ?_, .inr ⟨d, hd, hdsep⟩⟩
      exact hbehind j e (by omega) (List.getElem?_eq_some_iff.mp he).1.le he
    exact ⟨hinside, hafter, hafter.drop_eq hinside⟩

/-- `"/a.c"`. -/
theorem indexesBaseName_iff_root : IndexesBaseName [47, 97, 46, 99] :=
  (indexesBaseName_iff (by decide)).mpr ⟨47, by decide, rfl⟩

/-- `"a.c"` loses its first letter. -/
theorem not_indexesBaseName_plain : ¬ ∀ file, file ≠ [] → IndexesBaseName file := by
  intro hall
  obtain ⟨-, -, hdrop⟩ := hall [97, 46, 99] (by decide)
  exact absurd hdrop (by decide)

end BaseName

/-! ## Line ends -/

/-- What has been written to `*ffmt`, if it lies inside of it. -/
def written (cap : Nat) (out : Str) : Option Str := if out.length ≤ cap then some out else none

/-- The loop of `css_logger_fmt_replace_enter`: `tmp` is at `i` in `from_str`, and
`out` is what lies before `dest_str`. A negative `pos` is a `size_t` that
`strncpy` pads to. -/
def enterLoop (cap : Nat) : Nat → Str → Nat → Str → Option Str
  | 0, _, _, _ => none
  | fuel + 1, fromStr, i, out =>
      let pos := toInt32 i
      if pos < 0 then none
      else
        (written cap (out ++ fromStr.take pos.toNat ++ [13, 10])).bind fun out =>
          (strstr [10] (fromStr.drop (i + 1))).elim (written cap (out ++ [0])) fun next =>
            enterLoop cap fuel (fromStr.drop (i + 1)) next out

/-- `css_logger_fmt_replace_enter`: what it returns and the bytes at `*ffmt`. -/
def cssLoggerFmtReplaceEnter (fmt : Str) : Option (Int × Option Str) :=
  (strstr [10] fmt).elim (some (-1, none)) fun i =>
    (enterLoop (fmt.length + 32) fmt.length fmt i []).map fun out => (0, some out)

/-- The string with each `\n` in it as `\r\n`. -/
def crlf (s : Str) : Str := s.flatMap fun c => if c = 10 then [13, 10] else [c]

/-- It writes the converted lines and a NUL inside of what it asks for, or says
that there are none. -/
def Converts (fmt : Str) : Prop :=
  ((10 : BitVec 8) ∈ fmt → cssLoggerFmtReplaceEnter fmt = some (0, some (crlf fmt ++ [0]))) ∧
    ((10 : BitVec 8) ∉ fmt → cssLoggerFmtReplaceEnter fmt = some (-1, none))

/-- The last line is ended, too, and each fits an `int`. -/
def Ended (fmt : Str) : Prop :=
  (fmt.splitOn 10).getLast? = some [] ∧ ∀ line ∈ fmt.splitOn 10, line.length < 2 ^ 31

section Enter

variable {cap fuel : Nat} {s seg rest out r : Str}

@[simp]
theorem crlf_nil : crlf [] = [] := rfl

theorem crlf_append (s t : Str) : crlf (s ++ t) = crlf s ++ crlf t := List.flatMap_append

theorem crlf_of_notMem (h : (10 : BitVec 8) ∉ s) : crlf s = s := by
  induction s with
  | nil => rfl
  | cons c s ih =>
      rw [List.mem_cons, not_or] at h
      rw [crlf, List.flatMap_cons, if_neg (Ne.symm h.1), ← crlf, ih h.2]
      rfl

theorem crlf_line (h : (10 : BitVec 8) ∉ seg) (rest : Str) :
    crlf (seg ++ 10 :: rest) = seg ++ [13, 10] ++ crlf rest := by
  rw [crlf_append, crlf_of_notMem h, List.append_assoc]
  rfl

theorem length_crlf (s : Str) : (crlf s).length = s.length + s.count (10 : BitVec 8) := by
  induction s with
  | nil => rfl
  | cons c s ih =>
      rw [crlf, List.flatMap_cons, ← crlf, List.length_append, ih, List.count_cons, List.length_cons]
      by_cases hc : c = 10
      · rw [if_pos hc, if_pos (beq_iff_eq.mpr hc), List.length_cons, List.length_singleton]
        omega
      · rw [if_neg hc, if_neg (by simpa using hc), List.length_singleton]
        omega

theorem ended_line_iff (h : (10 : BitVec 8) ∉ seg) :
    Ended (seg ++ 10 :: rest) ↔ seg.length < 2 ^ 31 ∧ Ended rest := by
  rw [Ended, Ended, List.splitOn_append_cons_self_of_not_mem h,
    List.getLast?_cons_of_ne_nil (List.splitOn_ne_nil _ _), List.forall_mem_cons]
  tauto

theorem ended_of_notMem_iff (h : (10 : BitVec 8) ∉ rest) : Ended rest ↔ rest = [] := by
  rw [Ended, List.splitOn_eq_singleton h]
  constructor
  · rintro ⟨hlast, -⟩
    exact Option.some.inj hlast
  · rintro rfl
    exact ⟨rfl, by simp⟩

theorem toInt32_natCast_le (n : Nat) : toInt32 n ≤ n := by
  rw [toInt32, BitVec.toInt_ofInt, Int.bmod]
  split <;> omega

theorem toInt32_natCast {n : Nat} (h : n < 2 ^ 31) : toInt32 n = n :=
  toInt32_eq_iff.mpr ⟨by omega, by omega⟩

theorem lt_of_toInt32_natCast {n : Nat} (h : toInt32 n = n) : n < 2 ^ 31 := by
  obtain ⟨-, hmax⟩ := toInt32_eq_iff.mp h
  omega

theorem written_eq_some_iff : written cap out = some r ↔ r = out ∧ out.length ≤ cap := by
  rw [written]
  split
  next h => simp [h, eq_comm]
  next h => simp [h]

/-- One round of the loop: the line up to the next `\n` is copied, with `\r\n`
behind it, and the search goes on. -/
theorem enterLoop_line (cap fuel : Nat) (seg rest out : Str) :
    enterLoop cap (fuel + 1) (seg ++ 10 :: rest) seg.length out =
      if toInt32 seg.length < 0 then none
      else
        (written cap (out ++ seg.take (toInt32 seg.length).toNat ++ [13, 10])).bind fun out =>
          (strstr [10] rest).elim (written cap (out ++ [0])) fun next =>
            enterLoop cap fuel rest next out := by
  have hdrop : (seg ++ 10 :: rest).drop (seg.length + 1) = rest := by
    rw [List.drop_append]
    simp
  have htake : (seg ++ 10 :: rest).take (toInt32 seg.length).toNat
      = seg.take (toInt32 seg.length).toNat := by
    have := toInt32_natCast_le seg.length
    exact List.take_append_of_le_length (by omega)
  rw [enterLoop]
  simp only [hdrop, htake]

/-- What the loop writes is at most as long as the converted lines, and as long
only when the text is ended. -/
theorem enterLoop_bound (hseg : (10 : BitVec 8) ∉ seg)
    (h : enterLoop cap fuel (seg ++ 10 :: rest) seg.length out = some r) :
    r.length ≤ cap ∧ r.length ≤ out.length + (crlf (seg ++ 10 :: rest)).length + 1 ∧
      (r.length = out.length + (crlf (seg ++ 10 :: rest)).length + 1 → Ended (seg ++ 10 :: rest)) := by
  induction fuel generalizing seg rest out with
  | zero => cases h
  | succ fuel ih =>
      rw [enterLoop_line] at h
      have hle := toInt32_natCast_le seg.length
      split at h
      next => cases h
      next hpos =>
        obtain ⟨out', hwritten, h⟩ := Option.bind_eq_some_iff.mp h
        obtain ⟨rfl, hcap⟩ := written_eq_some_iff.mp hwritten
        have hlen : (out ++ seg.take (toInt32 seg.length).toNat ++ [13, 10]).length
            = out.length + (toInt32 seg.length).toNat + 2 := by
          simp only [List.length_append, List.length_take, List.length_cons, List.length_nil]
          omega
        rw [crlf_line hseg, ended_line_iff hseg, List.length_append, List.length_append]
        rw [hlen] at hcap
        -- the loop goes on as long as there is a further line feed
        by_cases hrest : (10 : BitVec 8) ∈ rest
        · obtain ⟨seg', rest', rfl, hseg'⟩ := List.eq_append_cons_of_mem hrest
          rw [strstr_singleton hseg'] at h
          obtain ⟨hle', hbound, hexact⟩ := ih hseg' h
          rw [hlen] at hbound hexact
          simp only [List.length_cons, List.length_nil]
          refine ⟨hle', by omega, fun heq => ⟨?_, hexact (by omega)⟩⟩
          exact lt_of_toInt32_natCast (by omega)
        · rw [strstr_singleton_eq_none hrest] at h
          obtain ⟨rfl, hle'⟩ := written_eq_some_iff.mp h
          rw [List.length_append, hlen] at hle' ⊢
          rw [crlf_of_notMem hrest, ended_of_notMem_iff hrest]
          simp only [List.length_cons, List.length_nil] at hle' ⊢
          refine ⟨hle', by omega, fun heq => ⟨?_, ?_⟩⟩
          · exact lt_of_toInt32_natCast (by omega)
          · exact List.length_eq_zero_iff.mp (by omega)

/-- An ended text is converted, if there is room. -/
theorem enterLoop_ended (hfuel : (seg ++ 10 :: rest).length ≤ fuel) (hseg : (10 : BitVec 8) ∉ seg)
    (hended : Ended (seg ++ 10 :: rest))
    (hcap : out.length + (crlf (seg ++ 10 :: rest)).length + 1 ≤ cap) :
    enterLoop cap fuel (seg ++ 10 :: rest) seg.length out
      = some (out ++ crlf (seg ++ 10 :: rest) ++ [0]) := by
  induction fuel generalizing seg rest out with
  | zero => simp at hfuel
  | succ fuel ih =>
      obtain ⟨hshort, hended⟩ := (ended_line_iff hseg).mp hended
      rw [crlf_line hseg] at hcap ⊢
      have hout : out ++ seg ++ [13, 10] ++ crlf rest = out ++ (seg ++ [13, 10] ++ crlf rest) := by
        simp only [List.append_assoc]
      have hlen : (out ++ seg ++ [13, 10]).length + (crlf rest).length + 1 ≤ cap := by
        simp only [List.length_append] at hcap ⊢
        omega
      rw [enterLoop_line, toInt32_natCast hshort, if_neg (by omega), Int.toNat_natCast,
        List.take_length, written, if_pos (by omega), Option.bind_some, ← hout]
      by_cases hrest : (10 : BitVec 8) ∈ rest
      · obtain ⟨seg', rest', rfl, hseg'⟩ := List.eq_append_cons_of_mem hrest
        rw [strstr_singleton hseg', Option.elim_some]
        refine ih ?_ hseg' hended hlen
        simp only [List.length_append, List.length_cons] at hfuel ⊢
        omega
      · obtain rfl := (ended_of_notMem_iff hrest).mp hended
        rw [strstr_singleton_eq_none hrest, Option.elim_none, crlf_nil, List.append_nil]
        rw [crlf_nil, List.length_nil, Nat.add_zero] at hlen
        rw [written, List.length_append, List.length_singleton, if_pos hlen]

/-- **Line ends.** A text is converted just when it has no newline, or ends in
one, has not more than 31 of them, and no line that is too long for an `int`. -/
theorem converts_iff (fmt : Str) :
    Converts fmt ↔ (10 : BitVec 8) ∉ fmt ∨ Ended fmt ∧ fmt.count 10 ≤ 31 := by
  rw [Converts, cssLoggerFmtReplaceEnter]
  by_cases hmem : (10 : BitVec 8) ∈ fmt
  · rw [or_iff_right (not_not_intro hmem), and_iff_left fun h => absurd hmem h,
      forall_prop_of_true hmem]
    obtain ⟨seg, rest, rfl, hseg⟩ := List.eq_append_cons_of_mem hmem
    have hcrlf := length_crlf (seg ++ 10 :: rest)
    rw [strstr_singleton hseg, Option.elim_some, Option.map_eq_some_iff]
    constructor
    · rintro ⟨r, hloop, hr⟩
      obtain rfl : r = crlf (seg ++ 10 :: rest) ++ [0] := by simpa using hr
      obtain ⟨hcap, -, hexact⟩ := enterLoop_bound hseg hloop
      rw [List.length_append, List.length_singleton] at hcap hexact
      exact ⟨hexact (by simp), by omega⟩
    · rintro ⟨hended, hcount⟩
      refine ⟨_, enterLoop_ended le_rfl hseg hended ?_, rfl⟩
      rw [List.length_nil]
      omega
  · rw [strstr_singleton_eq_none hmem, Option.elim_none]
    exact iff_of_true ⟨fun h => absurd h hmem, fun _ => rfl⟩ (.inl hmem)

/-- `"a\nb"` loses its `b`. -/
theorem not_converts_tail : ¬ ∀ fmt, Converts fmt := by
  intro hall
  obtain ⟨h, -⟩ := hall [97, 10, 98]
  exact absurd (h (by decide)) (by decide)

end Enter

end Smts
