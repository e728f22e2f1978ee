import Smts.Lib.CString
import Mathlib.Logic.Function.Basic

/-!
# Log — rotating the log files

`css_logger_rename_old_logs` moves every `k.log` one number up before a new
`0.log` is opened. It goes by what `strstr` and `atoi` make of the names in the
directory, and a number stands for the file of that number whether the file is
there or not.
-/

namespace Smts

open CString

/-- `MAX_LOGGER_FILES_LEN`. -/
def maxLoggerFilesLen : Nat := 20

/-- `MAX_PATH`. -/
def maxPath : Nat := 256

/-- `DEFAULT_LOG_FILE_FIX`: `".log"`. -/
def defaultLogFileFix : Str := [46, 108, 111, 103]

/-- `UV_ENOENT`. -/
def uvEnoent : Int := -2

/-- `"%d%s"` of a number and the suffix: the file's path below the log
directory. -/
def logName (k : Nat) : Str := decimal k ++ defaultLogFileFix

/-- The log directory: the files' contents by name, and the names in the order
`uv_fs_scandir` lists them. -/
structure LogDir (α : Type) where
  files : Str → Option α
  names : List Str
  mem_names : ∀ n, n ∈ names ↔ (files n).isSome

/-- What is left of a call of `css_logger_rename_old_logs`: the files, the
result, the indices `ibasename` was used with, the files a rename replaced. -/
structure Rotation (α : Type) where
  files : Str → Option α
  result : Int
  indexed : List Int
  replaced : List Str

namespace LogDir

/-- What the scan makes of a file name: no number if the suffix is not in it. -/
def logNumber (name : Str) : Option Int :=
  (strstr defaultLogFileFix name).map fun pos => atoi (name.take pos)

/-- The scan's `ibasename`, with the indices it was written at. An index below
0 misses the array. -/
structure Marks where
  ibasename : Int → Bool
  indexed : List Int

/-- The scan, for one name; `strcpy` has room for `MAX_PATH` bytes. -/
def mark (m : Marks) (name : Str) : Option Marks :=
  if name.length < maxPath then
    match logNumber name with
    | some lindex =>
        if lindex < maxLoggerFilesLen then
          some { ibasename := Function.update m.ibasename lindex true
                 indexed := m.indexed ++ [lindex] }
        else some m
    | none => some m
  else none

end LogDir

namespace Rotation

variable {α : Type}

/-- `uv_fs_rename`. -/
def rename (r : Rotation α) (old new : Str) : Rotation α × Int :=
  match r.files old with
  | some x =>
      ({ r with
          files := Function.update (Function.update r.files old none) new (some x)
          replaced := if (r.files new).isSome then r.replaced ++ [new] else r.replaced }, 0)
  | none => (r, uvEnoent)

/-- `uv_fs_unlink`. -/
def unlink (r : Rotation α) (name : Str) : Rotation α × Int :=
  match r.files name with
  | some _ => ({ r with files := Function.update r.files name none }, 0)
  | none => (r, uvEnoent)

/-- The second loop, over the indices below `n` downwards. -/
def shift (ibasename : Int → Bool) : Nat → Rotation α → Rotation α
  | 0, r => r
  | lindex + 1, r =>
      let r := { r with indexed := r.indexed ++ [(lindex : Int)] }
      if ibasename lindex then
        let (r, res) :=
          if lindex + 1 < maxLoggerFilesLen then r.rename (logName lindex) (logName (lindex + 1))
          else r.unlink (logName lindex)
        if res ≠ 0 then { r with result := res } else r.shift ibasename lindex
      else r.shift ibasename lindex

end Rotation

namespace LogDir

variable {α : Type}

/-- `css_logger_rename_old_logs`. -/
def renameOldLogs (d : LogDir α) : Option (Rotation α) := do
  let r : Rotation α := { files := d.files, result := 0, indexed := [], replaced := [] }
  if 0 < d.names.length then
    let m ← d.names.foldlM mark { ibasename := fun _ => false, indexed := [] }
    some ({ r with indexed := m.indexed }.shift m.ibasename maxLoggerFilesLen)
  else some r

/-- Every log file has moved one number up, the last is gone, and nothing else
has changed. -/
structure Rotated (d : LogDir α) (r : Rotation α) : Prop where
  result : r.result = 0
  shifted : ∀ k, k + 1 < maxLoggerFilesLen → r.files (logName (k + 1)) = d.files (logName k)
  first : r.files (logName 0) = none
  others : ∀ n, (∀ k < maxLoggerFilesLen, n ≠ logName k) → r.files n = d.files n
  replaced : r.replaced = []
  indexed : ∀ i ∈ r.indexed, 0 ≤ i ∧ i < maxLoggerFilesLen

/-- The number the scan makes of a name is one of the array's, and then there
is a log file of that number, or it is beyond the array. -/
def Numbered (d : LogDir α) : Prop :=
  ∀ n ∈ d.names, ∀ l, logNumber n = some l →
    0 ≤ l ∧ (l < maxLoggerFilesLen → (d.files (logName l.toNat)).isSome)

end LogDir

/-! ## Names -/

theorem logName_injective : Function.Injective logName := by
  intro i j h
  exact decimal_injective (List.append_cancel_right h)

theorem logNumber_logName {k : Nat} (h : k < 2 ^ 31) :
    LogDir.logNumber (logName k) = some (k : Int) := by
  have hdot : (46 : BitVec 8) ∉ decimal k := by
    intro hmem
    cases isDigit_of_mem_decimal hmem
  rw [LogDir.logNumber, logName, defaultLogFileFix, strstr_append hdot, Option.map_some,
    List.take_left, atoi_decimal h]

namespace LogDir

/-! ## The scan -/

/-- Some name is taken for log number `l`. -/
def Listed (names : List Str) (l : Int) : Prop :=
  ∃ n ∈ names, logNumber n = some l ∧ l < maxLoggerFilesLen

theorem listed_cons (n : Str) (names : List Str) (l : Int) :
    Listed (n :: names) l ↔ (logNumber n = some l ∧ l < maxLoggerFilesLen) ∨ Listed names l := by
  simp [Listed]

theorem mark_spec {m : Marks} {n : Str} (h : n.length < maxPath) :
    ∃ m', mark m n = some m' ∧
      (∀ l, m'.ibasename l = true ↔
        m.ibasename l = true ∨ logNumber n = some l ∧ l < maxLoggerFilesLen) ∧
      ∀ l, l ∈ m'.indexed ↔ l ∈ m.indexed ∨ logNumber n = some l ∧ l < maxLoggerFilesLen := by
  rw [mark, if_pos h]
  cases hn : logNumber n with
  | none => exact ⟨m, rfl, by simp, by simp⟩
  | some i =>
      by_cases hi : i < maxLoggerFilesLen
      · refine ⟨_, if_pos hi, ?_, ?_⟩
        · intro l
          by_cases hl : l = i
          · subst hl
            simp [hi]
          · simp [Function.update_of_ne hl, Ne.symm hl]
        · intro l
          rw [List.mem_append, List.mem_singleton]
          constructor
          · rintro (hl | rfl)
            · exact .inl hl
            · exact .inr ⟨rfl, hi⟩
          · rintro (hl | ⟨hl, -⟩)
            · exact .inl hl
            · exact .inr (Option.some.inj hl).symm
      · refine ⟨m, if_neg hi, ?_, ?_⟩ <;>
        · intro l
          constructor
          · exact .inl
          · rintro (hl | ⟨hl, hlt⟩)
            · exact hl
            · obtain rfl := Option.some.inj hl
              exact absurd hlt hi

theorem scan_spec {names : List Str} (h : ∀ n ∈ names, n.length < maxPath) (m : Marks) :
    ∃ m', names.foldlM mark m = some m' ∧
      (∀ l, m'.ibasename l = true ↔ m.ibasename l = true ∨ Listed names l) ∧
      ∀ l, l ∈ m'.indexed ↔ l ∈ m.indexed ∨ Listed names l := by
  induction names generalizing m with
  | nil => exact ⟨m, rfl, by simp [Listed], by simp [Listed]⟩
  | cons n names ih =>
      obtain ⟨m₁, hm₁, hbase₁, hidx₁⟩ := mark_spec (m := m) (h n List.mem_cons_self)
      obtain ⟨m₂, hm₂, hbase₂, hidx₂⟩ := ih (fun n' hn' => h n' (List.mem_cons_of_mem _ hn')) m₁
      refine ⟨m₂, by rw [List.foldlM_cons, hm₁]; exact hm₂, fun l => ?_, fun l => ?_⟩
      · rw [hbase₂, hbase₁, listed_cons, or_assoc]
      · rw [hidx₂, hidx₁, listed_cons, or_assoc]

end LogDir

/-! ## The shift -/

namespace Rotation

variable {α : Type} {d : Str → Option α} {r : Rotation α} {ibasename : Int → Bool}

/-- The shift has come down to the number `n`: the files from `n` on have moved
up by one, and those below are where they were. -/
structure Shifted (d : Str → Option α) (n : Nat) (r : Rotation α) : Prop where
  result : r.result = 0
  moved : ∀ k, n ≤ k → k + 1 < maxLoggerFilesLen → r.files (logName (k + 1)) = d (logName k)
  gap : n < maxLoggerFilesLen → r.files (logName n) = none
  below : ∀ k < n, r.files (logName k) = d (logName k)
  others : ∀ name, (∀ k < maxLoggerFilesLen, name ≠ logName k) → r.files name = d name
  replaced : r.replaced = []

theorem Shifted.skip {l : Nat} (h : Shifted d (l + 1) r) (hl : d (logName l) = none) :
    Shifted d l r where
  result := h.result
  moved := by
    intro k hk hlen
    rcases Nat.eq_or_lt_of_le hk with rfl | hk
    · rw [h.gap hlen, hl]
    · exact h.moved k hk hlen
  gap := fun _ => by rw [h.below l (Nat.lt_succ_self l), hl]
  below := fun k hk => h.below k (Nat.lt_succ_of_lt hk)
  others := h.others
  replaced := h.replaced

theorem Shifted.rename {l : Nat} {x : α} (h : Shifted d (l + 1) r)
    (hlen : l + 1 < maxLoggerFilesLen) (hl : d (logName l) = some x) :
    ∃ r', r.rename (logName l) (logName (l + 1)) = (r', 0) ∧ Shifted d l r' := by
  have hfile : r.files (logName l) = some x := by rw [h.below l (Nat.lt_succ_self l), hl]
  have hne : ∀ {i j : Nat}, i ≠ j → logName i ≠ logName j := fun hij heq =>
    hij (logName_injective heq)
  rw [Rotation.rename, hfile]
  refine ⟨_, rfl, ?_⟩
  constructor
  case result => exact h.result
  case moved =>
    intro k hk hlen'
    rcases Nat.eq_or_lt_of_le hk with rfl | hk
    · simp [hl]
    · simp only
      rw [Function.update_of_ne (hne (by omega)), Function.update_of_ne (hne (by omega))]
      exact h.moved k hk hlen'
  case gap =>
    intro _
    simp only
    rw [Function.update_of_ne (hne (by omega)), Function.update_self]
  case below =>
    intro k hk
    simp only
    rw [Function.update_of_ne (hne (by omega)), Function.update_of_ne (hne (by omega))]
    exact h.below k (Nat.lt_succ_of_lt hk)
  case others =>
    intro name hname
    simp only
    rw [Function.update_of_ne (hname _ hlen), Function.update_of_ne (hname _ (by omega))]
    exact h.others name hname
  case replaced => simp [h.gap hlen, h.replaced]

theorem Shifted.unlink {l : Nat} {x : α} (h : Shifted d (l + 1) r)
    (hlen : l + 1 = maxLoggerFilesLen) (hl : d (logName l) = some x) :
    ∃ r', r.unlink (logName l) = (r', 0) ∧ Shifted d l r' := by
  have hfile : r.files (logName l) = some x := by rw [h.below l (Nat.lt_succ_self l), hl]
  rw [Rotation.unlink, hfile]
  refine ⟨_, rfl, h.result, ?_, ?_, ?_, ?_, h.replaced⟩
  · intro k hk hlen'
    omega
  · intro _
    exact Function.update_self ..
  · intro k hk
    simp only
    rw [Function.update_of_ne fun heq => by have := logName_injective heq; omega]
    exact h.below k (Nat.lt_succ_of_lt hk)
  · intro name hname
    simp only
    rw [Function.update_of_ne (hname _ (by omega))]
    exact h.others name hname

/-- When just the numbers of existing files are marked, all of them move. -/
theorem Shifted.shift {n : Nat} (hn : n ≤ maxLoggerFilesLen)
    (hmark : ∀ l < n, ibasename (l : Int) = (d (logName l)).isSome) (h : Shifted d n r) :
    Shifted d 0 (r.shift ibasename n) := by
  induction n generalizing r with
  | zero => exact h
  | succ l ih =>
      have hmark' := fun k (hk : k < l) => hmark k (Nat.lt_succ_of_lt hk)
      have h₁ : Shifted d (l + 1) { r with indexed := r.indexed ++ [(l : Int)] } :=
        ⟨h.result, h.moved, h.gap, h.below, h.others, h.replaced⟩
      rw [Rotation.shift]
      cases hl : d (logName l) with
      | none =>
          rw [if_neg (by simp [hmark l (Nat.lt_succ_self l), hl])]
          exact ih (by omega) hmark' (h₁.skip hl)
      | some x =>
          rw [if_pos (by simp [hmark l (Nat.lt_succ_self l), hl])]
          rcases Nat.lt_or_eq_of_le hn with hlt | heq
          · obtain ⟨r', hr', h'⟩ := h₁.rename hlt hl
            simp only [if_pos hlt, hr', ne_eq, not_true_eq_false, if_false]
            exact ih (by omega) hmark' h'
          · obtain ⟨r', hr', h'⟩ := h₁.unlink heq hl
            simp only [if_neg (by omega : ¬ l + 1 < maxLoggerFilesLen), hr', ne_eq,
              not_true_eq_false, if_false]
            exact ih (by omega) hmark' h'

/-- The two calls of a round: they fail when the file is not there, and leave
the smaller numbers alone. -/
theorem move_cases (r : Rotation α) (l : Nat) :
    (if l + 1 < maxLoggerFilesLen then r.rename (logName l) (logName (l + 1))
      else r.unlink (logName l)) = (r, uvEnoent) ∧ r.files (logName l) = none ∨
    ∃ r', (if l + 1 < maxLoggerFilesLen then r.rename (logName l) (logName (l + 1))
      else r.unlink (logName l)) = (r', 0) ∧ (r.files (logName l)).isSome ∧
        r'.indexed = r.indexed ∧ ∀ k < l, r'.files (logName k) = r.files (logName k) := by
  have hne : ∀ {i j : Nat}, i < j → logName i ≠ logName j := fun hij heq =>
    Nat.ne_of_lt hij (logName_injective heq)
  cases hl : r.files (logName l) with
  | none =>
      refine .inl ⟨?_, rfl⟩
      split <;> simp [Rotation.rename, Rotation.unlink, hl]
  | some x =>
      refine .inr ?_
      split
      · rw [Rotation.rename, hl]
        refine ⟨_, rfl, rfl, rfl, fun k hk => ?_⟩
        simp only
        rw [Function.update_of_ne (hne (by omega)), Function.update_of_ne (hne hk)]
      · rw [Rotation.unlink, hl]
        refine ⟨_, rfl, rfl, rfl, fun k hk => ?_⟩
        simp only
        rw [Function.update_of_ne (hne hk)]

/-- One mark too many, and the shift stops with an error. -/
theorem shift_fails {n : Nat} (hbelow : ∀ k < n, r.files (logName k) = d (logName k))
    (hbad : ∃ l < n, ibasename (l : Int) = true ∧ d (logName l) = none) :
    (r.shift ibasename n).result ≠ 0 := by
  induction n generalizing r with
  | zero =>
      obtain ⟨l, hl, -⟩ := hbad
      exact absurd hl (Nat.not_lt_zero l)
  | succ l ih =>
      obtain ⟨b, hb, hmark, hnone⟩ := hbad
      have hrest : b ≠ l → ∃ b < l, ibasename (b : Int) = true ∧ d (logName b) = none :=
        fun hne => ⟨b, by omega, hmark, hnone⟩
      rw [Rotation.shift]
      by_cases hl : ibasename (l : Int) = true
      · rw [if_pos hl]
        obtain ⟨hmove, -⟩ | ⟨r', hmove, hsome, -, hfiles⟩ :=
          move_cases { r with indexed := r.indexed ++ [(l : Int)] } l
        · simp [hmove, uvEnoent]
        · have hbl : b ≠ l := by
            rintro rfl
            rw [hbelow b hb, hnone] at hsome
            cases hsome
          simp only [hmove, ne_eq, not_true_eq_false, if_false]
          refine ih (fun k hk => ?_) (hrest hbl)
          rw [hfiles k hk, hbelow k (Nat.lt_succ_of_lt hk)]
      · rw [if_neg hl]
        refine ih (fun k hk => hbelow k (Nat.lt_succ_of_lt hk)) (hrest ?_)
        rintro rfl
        exact hl hmark

/-- The shift reads `ibasename` only at the indices it counts down through. -/
theorem shift_indexed (n : Nat) (i : Int) :
    (i ∈ r.indexed → i ∈ (r.shift ibasename n).indexed) ∧
      (i ∈ (r.shift ibasename n).indexed → i ∈ r.indexed ∨ 0 ≤ i ∧ i < n) := by
  induction n generalizing r with
  | zero => exact ⟨id, .inl⟩
  | succ l ih =>
      -- a round reads the mark of `l`, and the next rounds those below
      have hnext : ∀ r' : Rotation α, r'.indexed = r.indexed ++ [(l : Int)] →
          (i ∈ r.indexed → i ∈ (r'.shift ibasename l).indexed) ∧
            (i ∈ (r'.shift ibasename l).indexed → i ∈ r.indexed ∨ 0 ≤ i ∧ i < (l + 1 : Nat)) := by
        intro r' hr'
        constructor
        · intro hi
          exact (ih (r := r')).1 (by rw [hr']; exact List.mem_append_left _ hi)
        · intro hi
          rcases (ih (r := r')).2 hi with hi | hi
          · rw [hr', List.mem_append, List.mem_singleton] at hi
            rcases hi with hi | rfl
            · exact .inl hi
            · exact .inr (by omega)
          · exact .inr (by omega)
      rw [Rotation.shift]
      by_cases hl : ibasename (l : Int) = true
      · rw [if_pos hl]
        obtain ⟨hmove, -⟩ | ⟨r', hmove, -, hidx, -⟩ :=
          move_cases { r with indexed := r.indexed ++ [(l : Int)] } l
        · simp only [hmove, uvEnoent, ne_eq, reduceCtorEq, not_false_eq_true, if_true,
            List.mem_append, List.mem_singleton]
          constructor
          · exact .inl
          · rintro (hi | rfl)
            · exact .inl hi
            · exact .inr (by omega)
        · simp only [hmove, ne_eq, not_true_eq_false, if_false]
          exact hnext r' hidx
      · rw [if_neg hl]
        exact hnext _ rfl

end Rotation

namespace LogDir

variable {α : Type}

/-- A log file that is there is listed under its own number. -/
theorem Listed.of_file {d : LogDir α} {k : Nat} (hk : k < maxLoggerFilesLen)
    (h : (d.files (logName k)).isSome) : Listed d.names (k : Int) := by
  refine ⟨logName k, (d.mem_names _).mpr h, logNumber_logName ?_, by exact_mod_cast hk⟩
  have : maxLoggerFilesLen < 2 ^ 31 := by decide
  omega

/-- An empty directory has nothing to move. -/
theorem rotated_nil {d : LogDir α} (h : d.names = []) :
    d.Rotated { files := d.files, result := 0, indexed := [], replaced := [] } := by
  have hnone : ∀ n, d.files n = none := by
    intro n
    rw [← Option.not_isSome_iff_eq_none, ← d.mem_names, h]
    exact List.not_mem_nil
  exact ⟨rfl, fun k _ => by simp only [hnone], hnone _, fun _ _ => rfl, rfl, by simp⟩

/-- **The rotation shifts exactly the log files** just when every name with the
suffix in it is taken for the number of a log file that is there, or for one
beyond the array. -/
theorem rotated_iff (d : LogDir α) (h : ∀ n ∈ d.names, n.length < maxPath) :
    ∃ r, d.renameOldLogs = some r ∧ (d.Rotated r ↔ d.Numbered) := by
  rw [renameOldLogs]
  by_cases hnil : d.names = []
  · refine ⟨_, by simp [hnil], fun _ n hn => ?_, fun _ => rotated_nil hnil⟩
    rw [hnil] at hn
    cases hn
  -- the scan marks the numbers below the array's end that a name is taken for
  · obtain ⟨m, hm, hbase, hidx⟩ := scan_spec h { ibasename := fun _ => false, indexed := [] }
    rw [if_pos (List.length_pos_iff.mpr hnil), hm]
    refine ⟨_, rfl, ?_, ?_⟩
    · intro hrot n hn l hl
      rcases Int.lt_or_le l maxLoggerFilesLen with hlen | hlen
      · have hlisted : Listed d.names l := ⟨n, hn, hl, hlen⟩
        have hnonneg := (hrot.indexed l
          ((Rotation.shift_indexed _ l).1 ((hidx l).mpr (.inr hlisted)))).1
        refine ⟨hnonneg, fun _ => ?_⟩
        -- a number that is marked with no file stops the shift
        by_contra hnone
        refine Rotation.shift_fails (d := d.files) (fun _ _ => rfl) ⟨l.toNat, by omega, ?_, ?_⟩
          hrot.result
        · rw [Int.toNat_of_nonneg hnonneg, hbase]
          exact .inr hlisted
        · exact Option.not_isSome_iff_eq_none.mp hnone
      · exact ⟨by omega, fun hlt => absurd hlt (by omega)⟩
    · intro hnum
      have hmark : ∀ l < maxLoggerFilesLen,
          m.ibasename (l : Int) = (d.files (logName l)).isSome := by
        intro l hl
        rw [Bool.eq_iff_iff, hbase]
        constructor
        · rintro (hfalse | ⟨n, hn, hnl, hlt⟩)
          · cases hfalse
          · have := (hnum n hn l hnl).2 hlt
            rwa [Int.toNat_natCast] at this
        · exact fun hsome => .inr (.of_file hl hsome)
      have hstart : Rotation.Shifted d.files maxLoggerFilesLen
          { files := d.files, result := 0, indexed := m.indexed, replaced := [] } :=
        ⟨rfl, fun k hk hlt => absurd hlt (by omega), fun hlt => absurd hlt (Nat.lt_irrefl _),
          fun _ _ => rfl, fun _ _ => rfl, rfl⟩
      have hend := hstart.shift le_rfl hmark
      refine ⟨hend.result, fun k hk => hend.moved k (Nat.zero_le k) hk, hend.gap (by decide),
        hend.others, hend.replaced, fun i hi => ?_⟩
      rcases (Rotation.shift_indexed _ i).2 hi with hi | hi
      · obtain hnot | ⟨n, hn, hni, hlt⟩ := (hidx i).mp hi
        · cases hnot
        · exact ⟨(hnum n hn i hni).1, hlt⟩
      · exact hi

/-- A directory with these files, each with its contents. -/
def ofFiles (files : List (Str × α)) : LogDir α where
  files := fun n => files.lookup n
  names := files.map Prod.fst
  mem_names := by
    intro n
    rw [List.lookup_isSome_iff, List.mem_map]
    exact exists_congr fun x => and_congr_right' (by rw [beq_iff_eq, eq_comm])

/-- Log files with and without a gap, one beyond the array, and another file. -/
def fiveFiles : LogDir Nat :=
  ofFiles [(logName 0, 10), (logName 1, 11), (logName 19, 12), (logName 25, 13),
    ([97, 112, 112, 46, 116, 120, 116], 14)]

theorem rotated_fiveFiles :
    ∃ r, fiveFiles.renameOldLogs = some r ∧ fiveFiles.Rotated r ∧
      r.files (logName 1) = some 10 ∧ r.files (logName 2) = some 11 ∧
      r.files (logName 19) = none ∧ r.files (logName 25) = some 13 := by
  have hlen : ∀ n ∈ fiveFiles.names, n.length < maxPath := by decide +kernel
  have hnum : ∀ n ∈ fiveFiles.names, (logNumber n).all fun l : Int =>
      decide (0 ≤ l ∧ (l < maxLoggerFilesLen → (fiveFiles.files (logName l.toNat)).isSome)) := by
    decide +kernel
  obtain ⟨r, hr, hiff⟩ := rotated_iff fiveFiles hlen
  have hrot := hiff.mpr fun n hn l hl => by
    have hall := hnum n hn
    rw [hl, Option.all_some] at hall
    exact of_decide_eq_true hall
  have hval : fiveFiles.renameOldLogs.map (fun r =>
      (r.files (logName 1), r.files (logName 2), r.files (logName 19), r.files (logName 25)))
      = some (some 10, some 11, none, some 13) := by
    decide +kernel
  rw [hr, Option.map_some, Option.some.injEq] at hval
  obtain ⟨h₁, hval⟩ := Prod.mk.inj hval
  obtain ⟨h₂, hval⟩ := Prod.mk.inj hval
  obtain ⟨h₁₉, h₂₅⟩ := Prod.mk.inj hval
  exact ⟨r, hr, hrot, h₁, h₂, h₁₉, h₂₅⟩

/-- `app.log` is taken for number 0, and there is no `0.log`. -/
theorem not_rotated_app :
    ¬ ∀ d : LogDir Unit, (∀ n ∈ d.names, n.length < maxPath) →
      ∃ r, d.renameOldLogs = some r ∧ d.Rotated r := by
  intro hall
  obtain ⟨r, hr, hrot⟩ := hall (ofFiles [([97, 112, 112, 46, 108, 111, 103], ())])
    (fun n hn => by rw [List.mem_singleton.mp hn]; decide)
  have hres : (ofFiles [([97, 112, 112, 46, 108, 111, 103], ())]).renameOldLogs.map Rotation.result
      = some uvEnoent := by decide
  rw [hr, Option.map_some, Option.some.injEq, hrot.result] at hres
  cases hres

end LogDir

end Smts
