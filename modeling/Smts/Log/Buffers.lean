import Smts.Log.State

/-!
# Log — the three buffers

What opening a file, a dump and a log call leave of the buffers, and where the
buffer in use can be: `bindex` counts the buffers up in two places and is put
back in one.
-/

namespace Smts

open Memory Transition

/-- Observations of the log file itself: it is opened, cannot be opened, or is
closed. -/
def LogObs.ofFile : LogObs → Bool
  | .opened _ | .openFailed _ | .close .. => true
  | _ => false

namespace Logger

variable {w w' : Logger} {fs : FsAnswers} {sc : Bool} {c : LogCall}

/-! ## What the functions leave -/

/-- No buffer is touched and no write submitted. -/
structure FileOnly (w w' : Logger) : Prop where
  status : w'.status = w.status
  noConsole : w'.noConsole = w.noConsole
  noFile : w'.noFile = w.noFile
  levelPriority : w'.levelPriority = w.levelPriority
  bindex : w'.bindex = w.bindex
  buffer : w'.buffer = w.buffer
  offset : w'.offset = w.offset
  mem : w'.mem = w.mem
  inFlight : w'.inFlight = w.inFlight
  trace : ∃ m, w'.trace = w.trace ++ m ∧ ∀ o ∈ m, o.ofFile = true

namespace FileOnly

theorem of_trace_eq (hs : w'.status = w.status) (hc : w'.noConsole = w.noConsole)
    (hf : w'.noFile = w.noFile) (hl : w'.levelPriority = w.levelPriority)
    (hi : w'.bindex = w.bindex) (hb : w'.buffer = w.buffer) (ho : w'.offset = w.offset)
    (hm : w'.mem = w.mem) (hw : w'.inFlight = w.inFlight) (ht : w'.trace = w.trace) :
    FileOnly w w' :=
  ⟨hs, hc, hf, hl, hi, hb, ho, hm, hw, [], by rw [ht, List.append_nil], by simp⟩

theorem refl (w : Logger) : FileOnly w w := .of_trace_eq rfl rfl rfl rfl rfl rfl rfl rfl rfl rfl

theorem trans {u : Logger} (h : FileOnly w u) (h' : FileOnly u w') : FileOnly w w' := by
  obtain ⟨m, hm, hmo⟩ := h.trace
  obtain ⟨m', hm', hmo'⟩ := h'.trace
  refine ⟨h'.status.trans h.status, h'.noConsole.trans h.noConsole, h'.noFile.trans h.noFile,
    h'.levelPriority.trans h.levelPriority, h'.bindex.trans h.bindex, h'.buffer.trans h.buffer,
    h'.offset.trans h.offset, h'.mem.trans h.mem, h'.inFlight.trans h.inFlight, m ++ m', ?_, ?_⟩
  · rw [hm', hm, List.append_assoc]
  · intro o ho
    exact (List.mem_append.mp ho).elim (hmo o) (hmo' o)

theorem emit (w : Logger) {o : LogObs} (ho : o.ofFile = true) : FileOnly w (w.emit o) :=
  ⟨rfl, rfl, rfl, rfl, rfl, rfl, rfl, rfl, rfl, [o], rfl, by simpa using ho⟩

theorem setWriter (w : Logger) (x : Option LogWriter) (n : Nat) :
    FileOnly w { w with writer := x, writerOffset := n } :=
  .of_trace_eq rfl rfl rfl rfl rfl rfl rfl rfl rfl rfl

theorem newFile (w : Logger) (fs : FsAnswers) : FileOnly w (w.newFile fs).1 := by
  unfold Logger.newFile
  split
  · exact .refl w
  · have h := FileOnly.setWriter w (some { fd := none }) 0
    dsimp only
    split
    · exact h.trans (.emit _ rfl)
    · exact (h.trans (.emit _ rfl)).trans
        (.of_trace_eq rfl rfl rfl rfl rfl rfl rfl rfl rfl rfl)

theorem reopenFile (w : Logger) (filenames : List CString.Str) (fs : FsAnswers) :
    FileOnly w (w.reopenFile filenames fs).1 := by
  unfold Logger.reopenFile
  split
  · have h := FileOnly.setWriter w (some { fd := none }) w.writerOffset
    dsimp only
    split
    · exact h.trans (.emit _ rfl)
    · have h' := h.trans (.emit _ (o := .opened w.opens) rfl)
      split <;> exact h'.trans (.of_trace_eq rfl rfl rfl rfl rfl rfl rfl rfl rfl rfl)
  · exact .newFile w fs

theorem startTimerIf {r : Logger × Int} (h : FileOnly w r.1) : FileOnly w (startTimerIf r).1 := by
  unfold Logger.startTimerIf
  split
  · exact h.trans (.of_trace_eq rfl rfl rfl rfl rfl rfl rfl rfl rfl rfl)
  · exact h

theorem openLoggerFile (w : Logger) (fs : FsAnswers) : FileOnly w (w.openLoggerFile fs).1 := by
  unfold Logger.openLoggerFile
  cases fs.scandir with
  | error r => exact .refl w
  | ok filenames =>
      dsimp only
      split
      · exact .startTimerIf (.newFile w fs)
      · exact .startTimerIf (.reopenFile w filenames fs)

theorem leaveWriter (w : Logger) (x : LogWriter) (roll : Bool) (fs : FsAnswers) :
    FileOnly w (w.leaveWriter x roll fs) := by
  have h : FileOnly w (if fs.write < 0 then w.emit (.close x.fd fs.close) else w) := by
    split
    · exact .emit w rfl
    · exact .refl w
  have h' := h.trans (.setWriter _ none 0)
  unfold Logger.leaveWriter
  dsimp only
  split
  · exact h'.trans (.newFile ..)
  · exact h'

end FileOnly

/-- A dump without a writer, one with nothing to dump, and one that submits a
write. -/
theorem dumpToFile_cases (h : w.dumpToFile fs sc = some w') :
    w.writer = none ∧ w' = { w with offset := 0 } ∨
      w.writer.isSome ∧ w.offset = 0 ∧ FileOnly w w' ∨
      ∃ x b close, w.writer = some x ∧ w.offset ≠ 0 ∧ w.buffer = some b ∧
        FileOnly (w.switchBuffer.uvFsWrite x.fd b w.offset close fs.write) w' := by
  unfold dumpToFile at h
  cases hwriter : w.writer with
  | none =>
      rw [hwriter] at h
      exact .inl ⟨rfl, (Option.some.inj h).symm⟩
  | some x =>
      rw [hwriter] at h
      dsimp only at h
      refine .inr ?_
      by_cases hoff : w.offset = 0
      · rw [if_pos hoff] at h
        refine .inl ⟨rfl, hoff, ?_⟩
        have hclose := FileOnly.emit w (o := .close x.fd fs.close) rfl
        split at h
        · split at h
          · obtain rfl := Option.some.inj h
            exact hclose.trans (.setWriter _ none _)
          · obtain rfl := Option.some.inj h
            exact hclose
        · obtain rfl := Option.some.inj h
          exact .refl w
      · rw [if_neg hoff] at h
        obtain ⟨b, hb, h⟩ := Option.bind_eq_some_iff.mp h
        obtain rfl := Option.some.inj h
        refine .inr ⟨x, b, sc || decide (cssLoggerMaxFileSize < w.switchBuffer.writerOffset), rfl,
          hoff, hb, ?_⟩
        split
        · exact .leaveWriter ..
        · exact .refl _

/-- The text that the file gets of a call. -/
def line (w : Logger) (c : LogCall) : List (BitVec 8) := c.render w.consoleUses

/-- The call is for the file, too: its level is high enough, the logger runs
with file output on, and there is a writer. -/
def ToFile (w : Logger) (c : LogCall) : Prop :=
  w.levelPriority ≤ c.level ∧ w.status = .init ∧ w.noFile = false ∧ w.writer.isSome

/-- The state when a text that fits was appended. -/
def appended (w : Logger) (b : Nat) (text : List (BitVec 8)) : Logger :=
  { w.formatted b text with offset := w.offset + (cString text).length }

theorem printConsole_eq (w : Logger) (c : LogCall) :
    ∃ m, w.printConsole c = { w with trace := w.trace ++ m } ∧
      ∀ o ∈ m, ∃ text, o = .console text := by
  unfold printConsole
  split
  · exact ⟨[], by rw [List.append_nil], by simp⟩
  · exact ⟨[.console (c.render 0)], rfl, by simp⟩

/-- A line that fits, and one that does not. -/
theorem printFile_cases {used : Nat} (h : w.printFile c used fs = some w') :
    ∃ b, w.buffer = some b ∧
      ((c.render used).length < w.room ∧
        ((w.appended b (c.render used)).offset ≤ dumpToFileSize ∧
            w' = w.appended b (c.render used) ∨
          dumpToFileSize < (w.appended b (c.render used)).offset ∧
            (w.appended b (c.render used)).dumpToFile fs false = some w') ∨
      w.room ≤ (c.render used).length ∧
        ∃ u active, (w.formatted b (c.render used)).dumpToFile fs false = some u ∧
          u.buffer = some active ∧
          w' = u.vsnprintf active (b + w.offset) u.room (c.render (used + 1))) := by
  obtain ⟨b, hb, h⟩ := Option.bind_eq_some_iff.mp h
  dsimp only at h
  refine ⟨b, hb, ?_⟩
  split at h
  next hlen =>
    obtain ⟨u, hu, h⟩ := Option.bind_eq_some_iff.mp h
    obtain ⟨active, hactive, h⟩ := Option.bind_eq_some_iff.mp h
    exact .inr ⟨hlen, u, active, hu, hactive, (Option.some.inj h).symm⟩
  next hlen =>
    have hfits : (c.render used).length < w.room := by omega
    have hstrlen : strlen (w.formatted b (c.render used)).mem (b + w.offset) w.room
        = (cString (c.render used)).length :=
      (read_store_cut _ _ hfits).2
    simp only [hstrlen] at h
    refine .inl ⟨hfits, ?_⟩
    split at h
    next hfull => exact .inr ⟨hfull, h⟩
    next hfull => exact .inl ⟨Nat.le_of_not_lt hfull, (Option.some.inj h).symm⟩

theorem logInner_cases (h : w.logInner c fs = some w') :
    ¬ w.ToFile c ∧ (w' = w ∨ w' = w.printConsole c) ∨
      w.ToFile c ∧ (w.printConsole c).printFile c w.consoleUses fs = some w' := by
  unfold logInner at h
  split at h
  next hoff =>
    refine .inl ⟨?_, .inl (Option.some.inj h).symm⟩
    rintro ⟨hlevel, -, hfile, -⟩
    rcases hoff with ⟨-, hno⟩ | hlt
    · rw [hno] at hfile
      cases hfile
    · omega
  next hon =>
    have hlevel : w.levelPriority ≤ c.level := by omega
    split at h
    next hfile => exact .inr ⟨⟨hlevel, hfile⟩, h⟩
    next hfile => exact .inl ⟨fun hto => hfile hto.2, .inr (Option.some.inj h).symm⟩

theorem logInner_of_toFile (h : w.ToFile c) (fs : FsAnswers) :
    w.logInner c fs = (w.printConsole c).printFile c w.consoleUses fs := by
  obtain ⟨hlevel, hfile⟩ := h
  unfold logInner
  rw [if_neg, if_pos hfile]
  rintro (⟨-, hno⟩ | hlt)
  · rw [hfile.2.1] at hno
    cases hno
  · omega

theorem flushToFile_cases (h : w.flushToFile fs = some w') :
    0 < w.queued ∧ { w with
      queued := w.queued - 1, flushed := w.flushed + 1 }.dumpToFile fs true = some w' := by
  unfold Logger.flushToFile at h
  split at h
  next hpos => exact ⟨hpos, h⟩
  next => cases h

theorem closeFile_cases (h : w.closeFile = some w') :
    0 < w.flushed ∧ w' = { w with flushed := w.flushed - 1, offset := 0 } := by
  unfold Logger.closeFile at h
  split at h
  next hpos => exact ⟨hpos, (Option.some.inj h).symm⟩
  next => cases h

theorem afterWrite_eq {k : Nat} {r close : Int} (h : w.afterWrite k r close = some w') :
    ∃ req m, w.inFlight[k]? = some req ∧
      w' = { w with inFlight := w.inFlight.eraseIdx k, trace := w.trace ++ m } ∧
      m = (if r < 0 then [] else [.wrote req.bytes (read w.mem req.base req.len)]) ++
        (if req.close then [.close req.fd close] else []) := by
  obtain ⟨req, hreq, h⟩ := Option.bind_eq_some_iff.mp h
  obtain rfl := Option.some.inj h
  refine ⟨req, _, hreq, ?_, rfl⟩
  by_cases hr : r < 0 <;> cases hc : req.close <;> simp [hr, emit]

/-! ## Which buffer is active -/

/-- The buffer in use is the one before `bindex`, which is not wrapped yet. -/
def Indexed (w : Logger) : Prop :=
  w.buffer = none ∧ w.bindex = 0 ∨
    ∃ i < maxLoggerBufferLen, w.buffer = some (buffers i) ∧ w.bindex = i + 1

/-- `buffer`, if it is set, is one of the buffers. -/
def BufferValid (w : Logger) : Prop :=
  ∀ b, w.buffer = some b → ∃ i < maxLoggerBufferLen, b = buffers i

/-- A start does not come when `bindex` is past the last buffer. -/
def StartFits (w : Logger) : LogEvent → Prop
  | .start _ => w.loop = true → w.status = .uninit → w.bindex < maxLoggerBufferLen
  | _ => True

theorem Indexed.bufferValid (h : Indexed w) : BufferValid w := by
  intro b hb
  rcases h with ⟨hnone, -⟩ | ⟨i, hi, hbuf, -⟩
  · rw [hnone] at hb
    cases hb
  · rw [hbuf] at hb
    exact ⟨i, hi, (Option.some.inj hb).symm⟩

theorem Indexed.of_eq (h : Indexed w) (hb : w'.buffer = w.buffer) (hi : w'.bindex = w.bindex) :
    Indexed w' := by
  unfold Indexed
  rwa [hb, hi]

theorem nextIndex_lt (w : Logger) : w.nextIndex < maxLoggerBufferLen := by
  have hlen : maxLoggerBufferLen = 3 := rfl
  unfold nextIndex
  split <;> omega

theorem switchBuffer_indexed (w : Logger) : Indexed w.switchBuffer :=
  .inr ⟨w.nextIndex, w.nextIndex_lt, rfl, rfl⟩

theorem uvFsWrite_frame (w : Logger) (fd : Option Nat) (base len : Nat) (close : Bool) (r : Int) :
    w.uvFsWrite fd base len close r
      = { w with
          trace := w.trace ++ [.write fd (read w.mem base len)]
          inFlight := w.inFlight ++ if r < 0 then [] else
            [{ fd := fd, base := base, len := len, bytes := read w.mem base len, close := close }] } := by
  unfold uvFsWrite
  split <;> simp [emit]

/-- The writes under way after one more was submitted. -/
theorem mem_uvFsWrite {fd : Option Nat} {base len : Nat} {close : Bool} {r : Int} {req : LogWriteReq}
    (hreq : req ∈ (w.uvFsWrite fd base len close r).inFlight) :
    req ∈ w.inFlight ∨ req = ⟨fd, base, len, read w.mem base len, close⟩ := by
  rw [uvFsWrite_frame] at hreq
  rcases List.mem_append.mp hreq with hreq | hreq
  · exact .inl hreq
  · split at hreq
    · cases hreq
    · exact .inr (List.mem_singleton.mp hreq)

theorem Indexed.dumpToFile (h : Indexed w) (hdump : w.dumpToFile fs sc = some w') :
    Indexed w' := by
  obtain ⟨-, rfl⟩ | ⟨-, -, hfile⟩ | ⟨x, b, close, -, -, -, hfile⟩ := dumpToFile_cases hdump
  · exact h
  · exact h.of_eq hfile.buffer hfile.bindex
  · rw [uvFsWrite_frame] at hfile
    exact w.switchBuffer_indexed.of_eq hfile.buffer hfile.bindex

theorem Indexed.logInner (h : Indexed w) (hlog : w.logInner c fs = some w') : Indexed w' := by
  obtain ⟨m, hm, -⟩ := printConsole_eq w c
  have hv : Indexed (w.printConsole c) := by
    rw [hm]
    exact h
  obtain ⟨-, rfl | rfl⟩ | ⟨-, hprint⟩ := logInner_cases hlog
  · exact h
  · exact hv
  · obtain ⟨b, -, ⟨-, ⟨-, rfl⟩ | ⟨-, hdump⟩⟩ | ⟨-, u, active, hdump, -, rfl⟩⟩ :=
      printFile_cases hprint
    · exact hv
    · exact Indexed.dumpToFile (w := (w.printConsole c).appended b _) hv hdump
    · have hu : Indexed u :=
        Indexed.dumpToFile (w := (w.printConsole c).formatted b _) hv hdump
      exact hu

/-- Whatever the start comes to, the buffer is moved on. -/
theorem start_eq (hloop : w.loop = true) (hstatus : w.status = .uninit) (fs : FsAnswers) :
    (w.start fs).buffer = some (buffers w.bindex) ∧ (w.start fs).bindex = w.bindex + 1 := by
  have hfile := FileOnly.openLoggerFile { w with noFile := false, levelPriority := llDebug } fs
  unfold Logger.start
  rw [if_pos hloop, if_pos hstatus]
  dsimp only
  rw [hfile.bindex]
  split <;> exact ⟨rfl, rfl⟩

theorem start_of_idle (h : w.loop = true → w.status ≠ .uninit) : w.start fs = w := by
  unfold Logger.start
  split
  next hloop => exact if_neg (h hloop)
  next => rfl

theorem Indexed.start (h : Indexed w) (hfits : w.StartFits (.start fs)) :
    Indexed (w.start fs) := by
  by_cases hidle : w.loop = true → w.status ≠ .uninit
  · rwa [start_of_idle hidle]
  · push Not at hidle
    obtain ⟨hloop, hstatus⟩ := hidle
    obtain ⟨hbuf, hidx⟩ := start_eq hloop hstatus fs
    exact .inr ⟨w.bindex, hfits hloop hstatus, hbuf, hidx⟩

theorem buffers_injective : Function.Injective buffers := by
  intro i j h
  exact Nat.eq_of_mul_eq_mul_right (by decide : 0 < defaultLogBufSize) h

/-- Two different buffers of the three do not overlap. -/
theorem buffers_apart {i j : Nat} (h : i ≠ j) :
    buffers i + defaultLogBufSize ≤ buffers j ∨ buffers j + defaultLogBufSize ≤ buffers i := by
  have hsucc : ∀ k, buffers k + defaultLogBufSize = buffers (k + 1) := fun k =>
    (Nat.succ_mul k defaultLogBufSize).symm
  rw [hsucc, hsucc]
  rcases Nat.lt_or_gt_of_ne h with hlt | hlt
  · exact .inl (Nat.mul_le_mul_right _ hlt)
  · exact .inr (Nat.mul_le_mul_right _ hlt)

/-- The buffer that a dump goes on to is another one than the active buffer. -/
theorem nextIndex_ne {i : Nat} (h : w.bindex = i + 1) : w.nextIndex ≠ i := by
  have hlen : maxLoggerBufferLen = 3 := rfl
  unfold nextIndex
  split <;> omega

/-- A start past the last buffer makes the buffer invalid at once. -/
theorem start_fits_of_valid (hvalid : BufferValid (w.start fs)) : w.StartFits (.start fs) := by
  intro hloop hstatus
  obtain ⟨hbuf, -⟩ := start_eq hloop hstatus fs
  obtain ⟨i, hi, heq⟩ := hvalid _ hbuf
  rwa [buffers_injective heq]

theorem close_frame (w : Logger) : w.close.buffer = w.buffer ∧ w.close.bindex = w.bindex := by
  unfold Logger.close
  split
  · exact ⟨rfl, rfl⟩
  · dsimp only
    split <;> exact ⟨rfl, rfl⟩

theorem Indexed.step {e : LogEvent} (h : Indexed w) (hstep : Step w e w') (hfits : w.StartFits e) :
    Indexed w' := by
  cases e with
  | init => cases hstep; exact h
  | setLevel level => cases hstep; exact h
  | showConsole console => cases hstep; exact h
  | writeFile file => cases hstep; exact h
  | start fs =>
      obtain rfl := Option.some.inj hstep
      exact h.start hfits
  | log c fs => exact h.logInner hstep
  | dump fs => exact h.dumpToFile hstep
  | close =>
      obtain rfl := Option.some.inj hstep
      exact h.of_eq w.close_frame.1 w.close_frame.2
  | flush fs =>
      have hdump := (flushToFile_cases hstep).2
      exact Indexed.dumpToFile (w := { w with
        queued := w.queued - 1, flushed := w.flushed + 1 }) h hdump
  | closeFile =>
      obtain ⟨-, rfl⟩ := closeFile_cases hstep
      exact h
  | writeDone k r close =>
      obtain ⟨req, m, -, rfl, -⟩ := afterWrite_eq hstep
      exact h

/-- **The active buffer is one of the buffers** in every state of just the runs
in which no start comes when `bindex` is past the last of them. -/
theorem bufferValid_iff (mem : Mem) (es : List LogEvent) (w : Logger) :
    Run (fun w e w' => Step w e w' ∧ BufferValid w') (init mem) es w ↔
      Run (fun w e w' => Step w e w' ∧ w.StartFits e) (init mem) es w := by
  refine Run.and_iff (I := Indexed) (.inl ⟨rfl, rfl⟩) ?_ ?_
  · intro w e w' hw hstep
    constructor
    · intro hvalid
      cases e with
      | start fs =>
          obtain rfl := Option.some.inj hstep
          exact start_fits_of_valid hvalid
      | _ => trivial
    · exact fun hfits => (hw.step hstep hfits).bufferValid
  · exact fun w e w' hw hstep hfits => hw.step hstep hfits

/-- The answers of a start that does not find its directory. -/
def noDirectory : FsAnswers where
  scandir := .error uvEnoent
  oldLogs := 0
  openFile := 0
  stat := .ok 0
  write := 0
  close := 0

/-- Four failed starts count `bindex` past the buffers. -/
theorem not_bufferValid_noDirectory : ¬ ∀ mem es w, Run Step (init mem) es w → BufferValid w := by
  intro hall
  have hrun : ∃ w, Run Step (init fun _ => 0) ([] ++ [.init] ++ [.start noDirectory] ++
      [.start noDirectory] ++ [.start noDirectory] ++ [.start noDirectory]) w ∧
      w.buffer = some (buffers 3) :=
    ⟨_, .snoc (.snoc (.snoc (.snoc (.snoc .refl rfl) rfl) rfl) rfl) rfl, rfl⟩
  obtain ⟨w, hrun, hbuf⟩ := hrun
  obtain ⟨i, hi, heq⟩ := hall _ _ _ hrun _ hbuf
  rw [← buffers_injective heq] at hi
  exact absurd hi (by decide)

end Logger

end Smts
