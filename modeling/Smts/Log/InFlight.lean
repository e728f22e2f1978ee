import Smts.Log.Lines

/-!
# Log — writes in flight

A buffer that was handed to `uv_fs_write` is the base of its write until that
completes. Nothing records which buffers these are: the next one is taken when a
dump comes, written or not, and a line that did not fit is retried in the buffer
that has just been handed on.
-/

namespace Smts

open Memory Transition

/-- A store misses the bases of the writes under way, and a write puts on disk
what it was submitted with. -/
def LogObs.Undisturbed : LogObs → Prop
  | .stored _ a n busy => ∀ base ∈ busy, a + n ≤ base ∨ base + defaultLogBufSize ≤ a
  | .cleared a busy => ∀ base ∈ busy, a + 1 ≤ base ∨ base + defaultLogBufSize ≤ a
  | .wrote bytes now => now = bytes
  | _ => True

/-- Log calls, dumps whose writes are accepted, and completions. -/
def LogEvent.Writes : LogEvent → Prop
  | .log _ fs | .dump fs => 0 ≤ fs.write
  | .writeDone .. => True
  | _ => False

theorem LogObs.undisturbed_of_ofFile {o : LogObs} (h : o.ofFile = true) : o.Undisturbed := by
  cases o with
  | stored => cases h
  | cleared => cases h
  | wrote => cases h
  | _ => trivial

namespace Logger

variable {w w' : Logger} {fs : FsAnswers} {sc : Bool} {c : LogCall} {e : LogEvent} {b : Nat}
variable {m : List LogObs}

/-- No write is under way from the buffer that the next dump goes on to. -/
def NextFree (w : Logger) : Prop := buffers w.nextIndex ∉ w.busy

/-- A buffer is given up only when the next one is not in flight; and a line that
does not fit comes to an empty buffer. -/
def ReuseFits (w : Logger) : LogEvent → Prop
  | .log c _ => w.ToFile c →
      if (w.line c).length < w.room then
        dumpToFileSize < w.offset + (cString (w.line c)).length → w.NextFree
      else w.offset = 0
  | .dump _ => w.writer.isSome → w.offset ≠ 0 → w.NextFree
  | _ => True

theorem NextFree.congr (hi : w'.bindex = w.bindex) (hf : w'.inFlight = w.inFlight) :
    w'.NextFree ↔ w.NextFree := by
  unfold NextFree nextIndex busy
  rw [hi, hf]

/-- The buffer a dump gives up is in flight. -/
theorem dumpToFile_busy (hw : w.writer.isSome) (hb : w.buffer = some b) (hne : w.offset ≠ 0)
    (hwrite : 0 ≤ fs.write) (hdump : w.dumpToFile fs sc = some w') :
    w'.busy = w.busy ++ [b] := by
  obtain ⟨hnone, -⟩ | ⟨-, hzero, -⟩ | ⟨x, b', close, -, -, hb', hfile⟩ := dumpToFile_cases hdump
  · rw [hnone] at hw
    cases hw
  · exact absurd hzero hne
  · obtain rfl := Option.some.inj (hb.symm.trans hb')
    rw [uvFsWrite_frame, if_neg (Int.not_lt.mpr hwrite)] at hfile
    rw [busy, hfile.inFlight, List.map_append]
    rfl

/-- The buffers in flight are not the active one, and as they were submitted. -/
structure Clear (w : Logger) : Prop where
  active : ∀ req ∈ w.inFlight, w.buffer ≠ some req.base
  base : ∀ req ∈ w.inFlight, ∃ j, req.base = buffers j
  len : ∀ req ∈ w.inFlight, req.len ≤ defaultLogBufSize
  bytes : ∀ req ∈ w.inFlight, read w.mem req.base req.len = req.bytes

namespace Clear

theorem of_eq (h : Clear w) (hb : w'.buffer = w.buffer) (hf : w'.inFlight = w.inFlight)
    (hm : w'.mem = w.mem) : Clear w' := by
  constructor
  case active => rw [hf, hb]; exact h.active
  case base => rw [hf]; exact h.base
  case len => rw [hf]; exact h.len
  case bytes => rw [hf, hm]; exact h.bytes

theorem apart (h : Clear w) {i : Nat} (hb : w.buffer = some b) (hi : b = buffers i)
    {req : LogWriteReq} (hreq : req ∈ w.inFlight) :
    b + defaultLogBufSize ≤ req.base ∨ req.base + defaultLogBufSize ≤ b := by
  obtain ⟨j, hj⟩ := h.base req hreq
  have hne : i ≠ j := by
    rintro rfl
    exact h.active req hreq (by rw [hb, hi, hj])
  rw [hi, hj]
  exact buffers_apart hne

/-- A store inside the active buffer, from which no write is under way, leaves
every write's bytes as they were submitted. -/
theorem store (h : Clear w) {i a : Nat} {bs : List (BitVec 8)} (hb : w.buffer = some b)
    (hi : b = buffers i) (hlow : b ≤ a) (hhigh : a + bs.length ≤ b + defaultLogBufSize)
    (hb' : w'.buffer = w.buffer) (hf : w'.inFlight = w.inFlight)
    (hm : w'.mem = Memory.store w.mem a bs) : Clear w' := by
  constructor
  case active => rw [hf, hb']; exact h.active
  case base => rw [hf]; exact h.base
  case len => rw [hf]; exact h.len
  case bytes =>
    rw [hf, hm]
    intro req hreq
    have hlen := h.len req hreq
    rw [← h.bytes req hreq]
    refine read_store_of_disjoint ?_
    rcases h.apart hb hi hreq with hapart | hapart <;> omega

/-- A store into the active buffer disturbs no write in flight. -/
theorem stored (h : Clear w) {i a n : Nat} (hb : w.buffer = some b) (hi : b = buffers i)
    (hlow : b ≤ a) (hhigh : a + n ≤ b + defaultLogBufSize) :
    LogObs.Undisturbed (.stored b a n w.busy) := by
  intro base hbase
  obtain ⟨req, hreq, rfl⟩ := List.mem_map.mp hbase
  rcases h.apart hb hi hreq with hapart | hapart <;> omega

theorem cleared_iff (h : Clear w) :
    LogObs.Undisturbed (.cleared (buffers w.nextIndex) w.busy) ↔ w.NextFree := by
  have hsize : 0 < defaultLogBufSize := by decide
  constructor
  · intro hclear hmem
    rcases hclear _ hmem with hle | hle <;> omega
  · intro hfree base hbase
    obtain ⟨req, hreq, rfl⟩ := List.mem_map.mp hbase
    obtain ⟨j, hj⟩ := h.base req hreq
    have hne : w.nextIndex ≠ j := by
      rintro rfl
      exact hfree (hj ▸ hbase)
    rw [hj]
    rcases buffers_apart hne with hapart | hapart <;> omega

/-- The next buffer becomes the active one, and the active one goes into flight. -/
theorem switchBuffer (h : Clear w) {i : Nat} (hi : b = buffers i) (hidx : w.bindex = i + 1)
    (hoff : w.offset ≤ defaultLogBufSize) (hfree : w.NextFree)
    (fd : Option Nat) (close : Bool) (r : Int) :
    Clear (w.switchBuffer.uvFsWrite fd b w.offset close r) := by
  have hsize : 0 < defaultLogBufSize := by decide
  have hbuf : (w.switchBuffer.uvFsWrite fd b w.offset close r).buffer
      = some (buffers w.nextIndex) := by
    rw [uvFsWrite_frame]
    rfl
  have hmem : (w.switchBuffer.uvFsWrite fd b w.offset close r).mem = w.switchBuffer.mem := by
    rw [uvFsWrite_frame]
  constructor
  case active =>
    intro req hreq hactive
    have hbase : req.base = buffers w.nextIndex :=
      (Option.some.inj (hbuf.symm.trans hactive)).symm
    rcases mem_uvFsWrite hreq with hreq | rfl
    -- the active buffer is the next one now: it is free, and not the one just given up
    · exact hfree (List.mem_map.mpr ⟨req, hreq, hbase⟩)
    · exact nextIndex_ne hidx (buffers_injective (hbase.symm.trans hi))
  case base =>
    intro req hreq
    rcases mem_uvFsWrite hreq with hreq | rfl
    · exact h.base req hreq
    · exact ⟨i, hi⟩
  case len =>
    intro req hreq
    rcases mem_uvFsWrite hreq with hreq | rfl
    · exact h.len req hreq
    · exact hoff
  case bytes =>
    intro req hreq
    rw [hmem]
    rcases mem_uvFsWrite hreq with hreq | rfl
    · obtain ⟨j, hj⟩ := h.base req hreq
      have hlen := h.len req hreq
      have hne : w.nextIndex ≠ j := by
        rintro rfl
        exact hfree (List.mem_map.mpr ⟨req, hreq, hj⟩)
      -- the byte that is cleared lies outside of the buffers in flight
      rw [← h.bytes req hreq]
      refine read_store_of_disjoint ?_
      rw [hj, List.length_singleton]
      rcases buffers_apart hne with hapart | hapart <;> omega
    · rfl

/-- A dump disturbs no write if and only if it gives nothing up or the next buffer
is free. -/
theorem dumpToFile (h : Clear w)
    (hp : w.buffer = none ∧ w.status = .uninit ∨ ∃ i, w.buffer = some (buffers i) ∧ w.bindex = i + 1)
    (hoff : w.offset ≤ defaultLogBufSize) (hdump : w.dumpToFile fs sc = some w') :
    ∃ m, w'.trace = w.trace ++ m ∧
      ((∀ o ∈ m, o.Undisturbed) ↔ (w.writer.isSome → w.offset ≠ 0 → w.NextFree)) ∧
      ((w.writer.isSome → w.offset ≠ 0 → w.NextFree) → Clear w') := by
  obtain ⟨hnone, rfl⟩ | ⟨-, hzero, hfile⟩ | ⟨x, b, close, hx, hne, hb, hfile⟩ :=
    dumpToFile_cases hdump
  · have hfits : w.writer.isSome → w.offset ≠ 0 → w.NextFree := by
      rw [hnone]
      intro hsome
      cases hsome
    exact ⟨[], (List.append_nil _).symm, by simpa using hfits, fun _ => h.of_eq rfl rfl rfl⟩
  · obtain ⟨m, hm, ho⟩ := hfile.trace
    have hfits : w.writer.isSome → w.offset ≠ 0 → w.NextFree := fun _ hne => absurd hzero hne
    have hgood : ∀ o ∈ m, o.Undisturbed := fun o hmem => LogObs.undisturbed_of_ofFile (ho o hmem)
    exact ⟨m, hm, iff_of_true hgood hfits, fun _ => h.of_eq hfile.buffer hfile.inFlight hfile.mem⟩
  · obtain ⟨m, hm, ho⟩ := hfile.trace
    -- something was written, so there is an active buffer, and its write is what starts
    obtain ⟨i, hi, hidx⟩ := hp.resolve_left fun hnone => by
      rw [hnone.1] at hb
      cases hb
    have hbi : b = buffers i := Option.some.inj (hb.symm.trans hi)
    have hfits : (w.writer.isSome → w.offset ≠ 0 → w.NextFree) ↔ w.NextFree := by
      rw [hx]
      exact ⟨fun hall => hall rfl hne, fun hfree _ _ => hfree⟩
    rw [uvFsWrite_frame] at hm
    refine ⟨_, by rw [hm, Logger.switchBuffer, List.append_assoc, List.append_assoc], ?_, ?_⟩
    · rw [hfits, ← h.cleared_iff]
      constructor
      · intro hall
        exact hall _ (List.mem_append_left _ (List.mem_singleton_self _))
      · intro hclear o hmem
        rcases List.mem_append.mp hmem with hmem | hmem
        · obtain rfl := List.mem_singleton.mp hmem
          exact hclear
        · rcases List.mem_append.mp hmem with hmem | hmem
          · obtain rfl := List.mem_singleton.mp hmem
            trivial
          · exact LogObs.undisturbed_of_ofFile (ho o hmem)
    · intro hfree
      have hflown := h.switchBuffer hbi hidx hoff (hfits.mp hfree) x.fd close fs.write
      exact hflown.of_eq hfile.buffer hfile.inFlight hfile.mem

/-- A `vsnprintf` that stays in the active buffer. -/
theorem vsnprintf (h : Clear w) {i : Nat} (a size : Nat) (hb : w.buffer = some b)
    (hi : b = buffers i) (hlow : b ≤ a) (hhigh : a + size ≤ b + defaultLogBufSize)
    (text : List (BitVec 8)) :
    Clear (w.vsnprintf b a size text) ∧
      LogObs.Undisturbed (.stored b a (cut size text).length w.busy) := by
  have hcut := length_cut_le size text
  constructor
  · exact h.store hb hi hlow (by omega) rfl rfl rfl
  · exact h.stored hb hi hlow (by omega)

theorem printFile {used : Nat} (h : Clear w) (hr : Ready w) (hp : Placed w)
    (hwrite : 0 ≤ fs.write) (hprint : w.printFile c used fs = some w')
    {fits : Prop} (hfits : fits ↔
      if (c.render used).length < w.room then
        dumpToFileSize < w.offset + (cString (c.render used)).length → w.NextFree
      else w.offset = 0) :
    ∃ m, w'.trace = w.trace ++ m ∧ ((∀ o ∈ m, o.Undisturbed) ↔ fits) ∧ (fits → Clear w') := by
  have hroom : w.room = defaultLogBufSize - w.offset := rfl
  have hlt := hp.offset_lt
  obtain ⟨b, hb, hcases⟩ := printFile_cases hprint
  obtain ⟨i, hi, hidx⟩ := hp.active hr.status
  have hbi : b = buffers i := Option.some.inj (hb.symm.trans hi)
  obtain ⟨hformatted, hstored⟩ := h.vsnprintf (b + w.offset) w.room hb hbi
    (by omega) (by omega) (c.render used)
  rcases hcases with ⟨hlen, hcases⟩ | ⟨hlen, u, active, hdump, hactive, rfl⟩
  -- the line fits: what counts is the dump behind it, if the buffer is full enough
  · rw [if_pos hlen] at hfits
    have happ : Clear (w.appended b (c.render used)) := hformatted.of_eq rfl rfl rfl
    rcases hcases with ⟨hle, rfl⟩ | ⟨hfull, hdump⟩
    · have hyes : fits := hfits.mpr fun hgt => absurd hgt (Nat.not_lt.mpr hle)
      exact ⟨[_], rfl, iff_of_true (by simpa using hstored) hyes, fun _ => happ⟩
    · have hshort := length_cString_le (c.render used)
      have hoff : (w.appended b (c.render used)).offset ≤ defaultLogBufSize := by
        change w.offset + (cString (c.render used)).length ≤ _
        omega
      have hpos : (w.appended b (c.render used)).offset ≠ 0 := by omega
      have hfree : (w.appended b (c.render used)).NextFree ↔ w.NextFree :=
        NextFree.congr rfl rfl
      have hfits' : fits ↔ ((w.appended b (c.render used)).writer.isSome →
          (w.appended b (c.render used)).offset ≠ 0 →
          (w.appended b (c.render used)).NextFree) := by
        rw [hfits, hfree]
        exact ⟨fun hall _ _ => hall hfull, fun hall _ => hall hr.writer hpos⟩
      obtain ⟨m, hm, hgood, hclear⟩ := happ.dumpToFile (.inr ⟨i, hi, hidx⟩) hoff hdump
      rw [← hfits'] at hgood hclear
      refine ⟨_, by rw [hm, appended, formatted, Logger.vsnprintf, List.append_assoc], ?_, hclear⟩
      rw [← hgood]
      constructor
      · intro hall o hmem
        exact hall o (List.mem_append_right _ hmem)
      · intro hall o hmem
        rcases List.mem_append.mp hmem with hmem | hmem
        · obtain rfl := List.mem_singleton.mp hmem
          exact hstored
        · exact hall o hmem
  -- it does not: the buffer is dumped and the line printed again, by the `tbuffer` of the buffer
  -- that was given up
  · rw [if_neg (Nat.not_lt.mpr hlen)] at hfits
    have huoff := dumpToFile_offset hdump
    have huroom : u.room = defaultLogBufSize := by rw [room, huoff, Nat.sub_zero]
    have hnext := dumpToFile_active (w := w.formatted b (c.render used)) hr.writer hb hdump hactive
    obtain ⟨m, hm, hgood, hclear⟩ := Clear.dumpToFile (w := w.formatted b (c.render used))
      hformatted (.inr ⟨i, hi, hidx⟩) (Nat.le_of_lt hlt) hdump
    have hempty : w.offset = 0 → (∀ o ∈ m, o.Undisturbed) ∧
        Clear (u.vsnprintf active (b + w.offset) u.room (c.render (used + 1))) ∧
        LogObs.Undisturbed (.stored active (b + w.offset)
          (cut u.room (c.render (used + 1))).length u.busy) := by
      intro hzero
      have hkeep : (w.formatted b (c.render used)).writer.isSome →
          (w.formatted b (c.render used)).offset ≠ 0 →
          (w.formatted b (c.render used)).NextFree := fun _ hne => absurd hzero hne
      obtain ⟨-, rfl⟩ | ⟨hne, -⟩ := hnext
      · exact ⟨hgood.mpr hkeep, (hclear hkeep).vsnprintf _ _ hactive hbi (by omega) (by omega) _⟩
      · exact absurd hzero hne
    -- that buffer is in flight then, and the text is at least its last zero
    have hfull : w.offset ≠ 0 → ¬ LogObs.Undisturbed (.stored active (b + w.offset)
        (cut u.room (c.render (used + 1))).length u.busy) := by
      intro hne hmiss
      have hbusy := dumpToFile_busy (w := w.formatted b (c.render used)) hr.writer hb hne hwrite hdump
      have hpos : 0 < (cut u.room (c.render (used + 1))).length := by
        rw [cut, if_neg (by omega)]
        simp
      rcases hmiss b (by rw [hbusy]; simp) with hle | hle <;> omega
    refine ⟨_, by rw [Logger.vsnprintf, hm, formatted, Logger.vsnprintf, List.append_assoc,
      List.append_assoc], ?_, fun hyes => (hempty (hfits.mp hyes)).2.1⟩
    rw [hfits]
    constructor
    · intro hall
      by_contra hne
      exact hfull hne (hall _ (List.mem_append_right _
        (List.mem_append_right _ (List.mem_singleton_self _))))
    · intro hzero o hmem
      obtain ⟨hm', -, hretry⟩ := hempty hzero
      rcases List.mem_append.mp hmem with hmem | hmem
      · obtain rfl := List.mem_singleton.mp hmem
        exact hstored
      · rcases List.mem_append.mp hmem with hmem | hmem
        · exact hm' o hmem
        · obtain rfl := List.mem_singleton.mp hmem
          exact hretry

/-- A log call, a dump or a completion disturbs no write just when `ReuseFits`
holds, and then the buffers in flight stay clear of the active one. -/
theorem step (h : Clear w) (hp : Placed w) (hwrites : e.Writes) (hstep : Step w e w') :
    ∃ m, w'.trace = w.trace ++ m ∧ ((∀ o ∈ m, o.Undisturbed) ↔ w.ReuseFits e) ∧
      (w.ReuseFits e → Clear w') := by
  cases e with
  | log c fs =>
      have hlog : w.logInner c fs = some w' := hstep
      obtain ⟨m, hm, hcons⟩ := printConsole_eq w c
      have hquiet : ∀ o ∈ m, o.Undisturbed := by
        intro o ho
        obtain ⟨text, rfl⟩ := hcons o ho
        trivial
      have hv : Clear (w.printConsole c) ∧ Placed (w.printConsole c) := by
        rw [hm]
        exact ⟨h.of_eq rfl rfl rfl, ⟨hp.offset, hp.buffer⟩⟩
      have htrace : (w.printConsole c).trace = w.trace ++ m := by rw [hm]
      obtain ⟨hnot, hw'⟩ | ⟨hto, hprint⟩ := logInner_cases hlog
      · have hfits : w.ReuseFits (.log c fs) := fun hto => absurd hto hnot
        rcases hw' with rfl | rfl
        · exact ⟨[], (List.append_nil _).symm, by simpa using hfits, fun _ => h⟩
        · exact ⟨m, htrace, iff_of_true hquiet hfits, fun _ => hv.1⟩
      · have hr : Ready (w.printConsole c) := by
          rw [hm]
          exact ⟨hto.2.1, hto.2.2.1, hto.2.2.2⟩
        have hfits : w.ReuseFits (.log c fs) ↔ if (c.render w.consoleUses).length
            < (w.printConsole c).room then dumpToFileSize
              < (w.printConsole c).offset + (cString (c.render w.consoleUses)).length →
                (w.printConsole c).NextFree
            else (w.printConsole c).offset = 0 := by
          have hnext : (w.printConsole c).NextFree ↔ w.NextFree := by
            rw [hm]
            exact NextFree.congr rfl rfl
          rw [hnext, hm]
          exact forall_prop_of_true hto
        obtain ⟨m', hm', hgood, hclear⟩ := hv.1.printFile hr hv.2 hwrites hprint hfits
        refine ⟨m ++ m', by rw [hm', htrace, List.append_assoc], ?_, hclear⟩
        rw [← hgood]
        constructor
        · intro hall o hmem
          exact hall o (List.mem_append_right _ hmem)
        · intro hall o hmem
          exact (List.mem_append.mp hmem).elim (hquiet o) (hall o)
  | dump fs => exact h.dumpToFile hp.buffer (Nat.le_of_lt hp.offset_lt) hstep
  --  writeDone k r close =>|a completed write wrote what was handed to it; the others are as
  -- clear as before
  | writeDone k r close =>
      obtain ⟨req, m, hreq, rfl, rfl⟩ := afterWrite_eq hstep
      have hmem : req ∈ w.inFlight := List.mem_of_getElem? hreq
      have hsub : ∀ q ∈ w.inFlight.eraseIdx k, q ∈ w.inFlight := fun q => List.mem_of_mem_eraseIdx
      refine ⟨_, rfl, iff_of_true ?_ trivial, fun _ => ?_⟩
      · intro o ho
        rcases List.mem_append.mp ho with ho | ho
        · split at ho
          · cases ho
          · obtain rfl := List.mem_singleton.mp ho
            exact h.bytes req hmem
        · split at ho
          · obtain rfl := List.mem_singleton.mp ho
            trivial
          · cases ho
      · exact ⟨fun q hq => h.active q (hsub q hq), fun q hq => h.base q (hsub q hq),
          fun q hq => h.len q (hsub q hq), fun q hq => h.bytes q (hsub q hq)⟩
  | _ => cases hwrites

end Clear

/-! ## Runs -/

theorem logInner_trace (hlog : w.logInner c fs = some w') : ∃ m, w'.trace = w.trace ++ m := by
  obtain ⟨m, hm, -⟩ := printConsole_eq w c
  have htrace : (w.printConsole c).trace = w.trace ++ m := by rw [hm]
  obtain ⟨-, rfl | rfl⟩ | ⟨-, hprint⟩ := logInner_cases hlog
  · exact ⟨[], (List.append_nil _).symm⟩
  · exact ⟨m, htrace⟩
  · obtain ⟨m', hm', -⟩ := printFile_trace hprint
    exact ⟨m ++ m', by rw [hm', htrace, List.append_assoc]⟩

def WriteStep (w : Logger) (e : LogEvent) (w' : Logger) : Prop := Step w e w' ∧ e.Writes

theorem WriteStep.trace (h : WriteStep w e w') : ∃ m, w'.trace = w.trace ++ m := by
  obtain ⟨hstep, hwrites⟩ := h
  cases e with
  | log c fs => exact logInner_trace hstep
  | dump fs =>
      obtain ⟨m, hm, -⟩ := dumpToFile_trace hstep
      exact ⟨m, hm⟩
  | writeDone k r close =>
      obtain ⟨req, m, -, rfl, -⟩ := afterWrite_eq hstep
      exact ⟨m, rfl⟩
  | _ => cases hwrites

/-- Of all that happened since `w₀`, nothing disturbed a write. -/
def Undisturbed (w₀ w : Logger) : Prop :=
  ∃ m, w.trace = w₀.trace ++ m ∧ ∀ o ∈ m, o.Undisturbed

theorem trace_of_run {w₀ : Logger} {es : List LogEvent} (h : Run WriteStep w₀ es w) :
    ∃ m, w.trace = w₀.trace ++ m := by
  induction h with
  | refl => exact ⟨[], (List.append_nil _).symm⟩
  | snoc _ hstep ih =>
      obtain ⟨m, hm⟩ := ih
      obtain ⟨m', hm'⟩ := hstep.trace
      exact ⟨m ++ m', by rw [hm', hm, List.append_assoc]⟩

theorem Undisturbed.append_iff {w₀ : Logger} (ht : ∃ m, w.trace = w₀.trace ++ m)
    (hm : w'.trace = w.trace ++ m) :
    Undisturbed w₀ w' ↔ Undisturbed w₀ w ∧ ∀ o ∈ m, o.Undisturbed := by
  obtain ⟨m₀, hm₀⟩ := ht
  have hiff : ∀ {u : Logger} {k}, u.trace = w₀.trace ++ k →
      (Undisturbed w₀ u ↔ ∀ o ∈ k, o.Undisturbed) := by
    intro u k hk
    constructor
    · rintro ⟨k', hk', hall⟩
      rwa [List.append_cancel_left (hk.symm.trans hk')]
    · exact fun hall => ⟨k, hk, hall⟩
  rw [hiff hm₀, hiff (u := w') (by rw [hm, hm₀, List.append_assoc])]
  simp only [List.mem_append, or_imp, forall_and]

theorem clear_of_run {w₀ : Logger} {es : List LogEvent} (hp : Placed w₀) (hclear : Clear w₀)
    (h : Run (fun w e w' => WriteStep w e w' ∧ w.ReuseFits e) w₀ es w) : Clear w ∧ Placed w := by
  refine h.invariant (I := fun w => Clear w ∧ Placed w) ?_ ⟨hclear, hp⟩
  rintro t e u ⟨ht, hp⟩ ⟨hstep, hfits⟩
  obtain ⟨-, -, -, hu⟩ := ht.step hp hstep.2 hstep.1
  exact ⟨hu hfits, hp.step hstep.1⟩

/-- **No buffer is touched while its write is in flight**, in any interleaving of
log calls, dumps and completions, just when each buffer is given up for a free
one, and no line comes that does not fit. -/
theorem undisturbed_iff {mem : Mem} {es₀ es : List LogEvent} {w₀ : Logger}
    (h₀ : Run Step (init mem) es₀ w₀) (hidle : w₀.inFlight = []) (hrun : Run WriteStep w₀ es w) :
    Undisturbed w₀ w ↔
      Run (fun w e w' => WriteStep w e w' ∧ w.ReuseFits e) w₀ es w := by
  have hp := placed_of_run h₀
  have hclear : Clear w₀ := by
    constructor <;> rw [hidle] <;> simp
  induction hrun with
  | refl => exact iff_of_true ⟨[], (List.append_nil _).symm, by simp⟩ .refl
  | @snoc es e t u hrun hstep ih =>
      have hsplit : Undisturbed w₀ u → Undisturbed w₀ t := by
        obtain ⟨m, hm⟩ := hstep.trace
        exact fun hu => ((Undisturbed.append_iff (trace_of_run hrun) hm).mp hu).1
      constructor
      · intro hu
        have hbefore := ih.mp (hsplit hu)
        obtain ⟨ht, hpt⟩ := clear_of_run hp hclear hbefore
        obtain ⟨m, hm, hiff, -⟩ := ht.step hpt hstep.2 hstep.1
        have hgood := ((Undisturbed.append_iff (trace_of_run hrun) hm).mp hu).2
        exact .snoc hbefore ⟨hstep, hiff.mp hgood⟩
      · intro hfit
        obtain ⟨t', hbefore, hstep', hfits⟩ := Run.snoc_iff.mp hfit
        have hrun' : Run WriteStep w₀ es t' := hbefore.mono fun _ _ _ h => h.1
        obtain rfl := Run.unique (fun t e u u' h h' => Option.some.inj (h'.1.symm.trans h.1))
          hrun hrun'
        obtain ⟨ht, hpt⟩ := clear_of_run hp hclear hbefore
        obtain ⟨m, hm, hiff, -⟩ := ht.step hpt hstep.2 hstep.1
        exact (Undisturbed.append_iff (trace_of_run hrun) hm).mpr
          ⟨ih.mpr hbefore, hiff.mpr hfits⟩

instance : (e : LogEvent) → Decidable e.Writes
  | .log _ fs | .dump fs => inferInstanceAs (Decidable (0 ≤ fs.write))
  | .writeDone .. => isTrue trivial
  | .init | .setLevel _ | .showConsole _ | .writeFile _ | .start _ | .close | .flush _ | .closeFile =>
      isFalse id

instance (w : Logger) : Decidable w.NextFree := inferInstanceAs (Decidable (_ ∉ _))

instance (w : Logger) (c : LogCall) : Decidable (w.ToFile c) :=
  inferInstanceAs (Decidable (_ ∧ _ ∧ _ ∧ _))

instance (w : Logger) : (e : LogEvent) → Decidable (w.ReuseFits e)
  | .log c _ => inferInstanceAs (Decidable (w.ToFile c →
      if (w.line c).length < w.room then
        dumpToFileSize < w.offset + (cString (w.line c)).length → w.NextFree
      else w.offset = 0))
  | .dump _ => inferInstanceAs (Decidable (_ → _ → w.NextFree))
  | .init | .setLevel _ | .showConsole _ | .writeFile _ | .start _ | .close | .flush _ | .closeFile
  | .writeDone .. => isTrue trivial

/-- Three lines, each with a dump behind it. The first write completes before the
third dump takes its buffer. -/
def threeDumps : List LogEvent :=
  [.log (lineOf 1) created, .dump created, .log (lineOf 2) created, .dump created,
    .writeDone 0 1 0, .log (lineOf 3) created, .dump created]

theorem undisturbed_iff_inTime :
    ∃ w, Run WriteStep (started fun _ => 0) threeDumps w ∧ w.busy = [buffers 1, buffers 2] ∧
      w.buffer = some (buffers 0) ∧ Undisturbed (started fun _ => 0) w := by
  have hval : ((started fun _ => 0).follow (fun w e => e.Writes ∧ w.ReuseFits e) threeDumps).map
      (fun w => (w.busy, w.buffer)) = some ([buffers 1, buffers 2], some (buffers 0)) := by
    decide +kernel
  obtain ⟨w, hw, hval⟩ := Option.map_eq_some_iff.mp hval
  obtain ⟨hbusy, hbuffer⟩ := Prod.mk.inj hval
  have hfits : Run (fun w e w' => WriteStep w e w' ∧ w.ReuseFits e) (started fun _ => 0) threeDumps w :=
    (run_of_follow hw).mono fun _ _ _ h => ⟨⟨h.1, h.2.1⟩, h.2.2⟩
  have hrun : Run WriteStep (started fun _ => 0) threeDumps w := hfits.mono fun _ _ _ h => h.1
  have hgood := (undisturbed_iff (started_run _) rfl hrun).mpr hfits
  exact ⟨w, hrun, hbusy, hbuffer, hgood⟩

/-- What a dump does that gives up a buffer. -/
theorem dumpToFile_switch (hw : w.writer.isSome) (hne : w.offset ≠ 0)
    (hdump : w.dumpToFile fs sc = some w') :
    w'.offset = 0 ∧ w'.buffer = some (buffers w.nextIndex) ∧ w'.bindex = w.nextIndex + 1 ∧
      .cleared (buffers w.nextIndex) w.busy ∈ w'.trace := by
  obtain ⟨hnone, -⟩ | ⟨-, hzero, -⟩ | ⟨x, b, close, -, -, -, hfile⟩ := dumpToFile_cases hdump
  · rw [hnone] at hw
    cases hw
  · exact absurd hzero hne
  · obtain ⟨m, hm, -⟩ := hfile.trace
    rw [uvFsWrite_frame] at hfile hm
    refine ⟨hfile.offset, hfile.buffer, hfile.bindex, ?_⟩
    rw [hm, switchBuffer]
    simp

/-- One line and a dump: one more buffer is in flight. -/
theorem round (hr : Ready w) (hp : Placed w) (hprio : w.levelPriority ≤ llDebug)
    (hoff : w.offset = 0) (hb : w.buffer = some b) :
    ∃ w', Run WriteStep w [.log (lineOf 1) created, .dump created] w' ∧ Ready w' ∧ Placed w' ∧
      w'.levelPriority ≤ llDebug ∧ w'.offset = 0 ∧ w'.buffer = some (buffers w.nextIndex) ∧
      w'.bindex = w.nextIndex + 1 ∧ w'.busy = w.busy ++ [b] ∧
      .cleared (buffers w.nextIndex) w.busy ∈ w'.trace := by
  have hfs : created.Succeed := ⟨by decide, by decide, by decide⟩
  have hlogs : (LogEvent.log (lineOf 1) created).Logs := ⟨hfs, by decide⟩
  obtain ⟨u, hu⟩ := hr.exists_step hp hlogs
  obtain ⟨hru, hsame, -⟩ := hr.step hp hlogs hu
  have hpu := hp.step hu
  have hline : w.line (lineOf 1) = [0x61] := rfl
  obtain ⟨huoff, hubuf, huidx, hubusy⟩ :=
    logInner_short ⟨hprio, hr.status, hr.noFile, hr.writer⟩ (by rw [hline, room, hoff]; decide)
      (by rw [hline, hoff]; decide) hu
  have hone : u.offset = 1 := by
    rw [huoff, hline, hoff]
    rfl
  have hnext : u.nextIndex = w.nextIndex := by rw [nextIndex, huidx, nextIndex]
  obtain ⟨w', hw'⟩ := hru.exists_step (e := .dump created) hpu hfs
  obtain ⟨hrw, hsame', -⟩ := hru.step (e := .dump created) hpu hfs hw'
  have hne : u.offset ≠ 0 := by omega
  obtain ⟨hoff', hbuf', hidx', hcleared⟩ := dumpToFile_switch hru.writer hne hw'
  have hbusy' := dumpToFile_busy hru.writer (hubuf.trans hb) hne hfs.write hw'
  rw [hnext] at hbuf' hidx' hcleared
  rw [hubusy] at hbusy' hcleared
  have hrun : Run WriteStep w ([] ++ [.log (lineOf 1) created] ++ [.dump created]) w' :=
    .snoc (.snoc .refl ⟨hu, Int.le_refl 0⟩) ⟨hw', Int.le_refl 0⟩
  refine ⟨w', hrun, hrw, hpu.step hw', ?_, hoff', hbuf', hidx', hbusy', hcleared⟩
  rwa [hsame'.levelPriority, hsame.levelPriority]

/-- Three dumps before the first write has completed. -/
theorem not_undisturbed_threeDumps :
    ¬ ∀ mem es₀ w₀ es w, Run Step (init mem) es₀ w₀ → w₀.inFlight = [] →
      Run WriteStep w₀ es w → Undisturbed w₀ w := by
  intro hall
  have h₀ := started_run fun _ => 0
  obtain ⟨w₁, hrun₁, hr₁, hp₁, hprio₁, hoff₁, hbuf₁, hidx₁, hbusy₁, -⟩ :=
    round (b := buffers 0) (started_ready fun _ => 0) (placed_of_run h₀) (by decide) rfl rfl
  have hnext₀ : (started fun _ => 0).nextIndex = 1 := rfl
  obtain ⟨w₂, hrun₂, hr₂, hp₂, hprio₂, hoff₂, hbuf₂, hidx₂, hbusy₂, -⟩ :=
    round hr₁ hp₁ hprio₁ hoff₁ hbuf₁
  have hnext₁ : w₁.nextIndex = 2 := by rw [nextIndex, hidx₁, hnext₀]; rfl
  obtain ⟨w₃, hrun₃, -, -, -, -, -, -, -, hcleared⟩ := round hr₂ hp₂ hprio₂ hoff₂ hbuf₂
  have hnext₂ : w₂.nextIndex = 0 := by rw [nextIndex, hidx₂, hnext₁]; rfl
  obtain ⟨m, hm, hgood⟩ := hall _ _ _ _ _ h₀ rfl ((hrun₁.trans hrun₂).trans hrun₃)
  rw [hnext₂, hbusy₂, hbusy₁, hm] at hcleared
  rcases List.mem_append.mp hcleared with hmem | hmem
  · exact absurd hmem (by decide)
  · have hmiss := hgood _ hmem (buffers 0) (by simp [busy])
    have hsize : 0 < defaultLogBufSize := by decide
    omega

end Logger

end Smts
