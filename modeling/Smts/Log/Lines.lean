import Smts.Log.Buffers

/-!
# Log — the lines in the log file

What was handed to `uv_fs_write`, followed by what waits in the active buffer, is
the lines that were logged: for a line that fits in what is left of the buffer,
and for no other. The `va_list` of a call is used up by the console, so that
even a line that fits need not be the one that was formatted.
-/

namespace Smts

open Memory Transition

/-! ## What is in the log -/

/-- The bytes that an observation submitted to the file: those of a
`uv_fs_write`. -/
def LogObs.written : LogObs → List (BitVec 8)
  | .write _ bytes => bytes
  | _ => []

/-- If the observation is a `vsnprintf`, it stores inside the active buffer. -/
def LogObs.InActive : LogObs → Prop
  | .stored active a n _ => active ≤ a ∧ a + n ≤ active + defaultLogBufSize
  | _ => True

/-- All the bytes that were handed to `uv_fs_write`, in their order. -/
def submitted (trace : List LogObs) : List (BitVec 8) := trace.flatMap LogObs.written

/-- The line of a log call that is not filtered out. -/
def LogEvent.logged (priority : Int) : LogEvent → List (BitVec 8)
  | .log c _ => if priority ≤ c.level then c.render 0 else []
  | _ => []

/-- The lines of the log calls, in order. -/
def logged (priority : Int) (es : List LogEvent) : List (BitVec 8) :=
  es.flatMap (LogEvent.logged priority)

/-- The log file can be written, and rolled. -/
structure FsAnswers.Succeed (fs : FsAnswers) : Prop where
  write : 0 ≤ fs.write
  oldLogs : 0 ≤ fs.oldLogs
  openFile : 0 ≤ fs.openFile

/-- Log calls of lines shorter than a buffer, and dumps. -/
def LogEvent.Logs : LogEvent → Prop
  | .log c fs => fs.Succeed ∧ (c.render 0).length < defaultLogBufSize
  | .dump fs => fs.Succeed
  | _ => False

@[simp] theorem submitted_append (t m : List LogObs) :
    submitted (t ++ m) = submitted t ++ submitted m := List.flatMap_append

@[simp] theorem logged_append (priority : Int) (es es' : List LogEvent) :
    logged priority (es ++ es') = logged priority es ++ logged priority es' :=
  List.flatMap_append

theorem submitted_eq_nil {m : List LogObs} (h : ∀ o ∈ m, o.written = []) : submitted m = [] :=
  List.flatMap_eq_nil_iff.mpr h

theorem LogObs.written_of_ofFile {o : LogObs} (h : o.ofFile = true) : o.written = [] := by
  cases o with
  | write => cases h
  | _ => rfl

/-- The observations that a dump may make: neither console texts nor stores nor
completed writes are among them. -/
def LogObs.dumped : LogObs → Bool
  | .console _ | .stored .. | .wrote .. => false
  | _ => true

/-- The text that an observation shows on the console. -/
def LogObs.shown : LogObs → Option (List (BitVec 8))
  | .console text => some text
  | _ => none

theorem LogObs.dumped_of_ofFile {o : LogObs} (h : o.ofFile = true) : o.dumped = true := by
  cases o with
  | console => cases h
  | stored => cases h
  | wrote => cases h
  | _ => rfl

theorem LogObs.inActive_of_dumped {o : LogObs} (h : o.dumped = true) : o.InActive := by
  cases o with
  | stored => cases h
  | _ => trivial

theorem LogObs.shown_of_dumped {o : LogObs} (h : o.dumped = true) : o.shown = none := by
  cases o with
  | console => cases h
  | _ => rfl

namespace Logger

variable {w w' : Logger} {fs : FsAnswers} {sc : Bool} {c : LogCall} {e : LogEvent} {b : Nat}

/-- The bytes that wait in the active buffer. -/
def pending (w : Logger) : List (BitVec 8) :=
  match w.buffer with
  | some b => read w.mem b w.offset
  | none => []

/-- The bytes that were written, or wait for it. -/
def recorded (w : Logger) : List (BitVec 8) := submitted w.trace ++ w.pending

theorem pending_eq (hb : w.buffer = some b) : w.pending = read w.mem b w.offset := by
  unfold pending
  rw [hb]

theorem pending_of_offset (h : w.offset = 0) : w.pending = [] := by
  unfold pending
  split
  · rw [h, read_zero]
  · rfl

/-! ## The states that log to the file -/

/-- File output is on, and there is a writer. -/
structure Ready (w : Logger) : Prop where
  status : w.status = .init
  noFile : w.noFile = false
  writer : w.writer.isSome

/-- Where the active buffer is, and that it is not full. -/
structure Placed (w : Logger) : Prop where
  offset : w.offset ≤ dumpToFileSize
  buffer : w.buffer = none ∧ w.status = .uninit ∨
    ∃ i, w.buffer = some (buffers i) ∧ w.bindex = i + 1

theorem Placed.active (h : Placed w) (hs : w.status = .init) :
    ∃ i, w.buffer = some (buffers i) ∧ w.bindex = i + 1 := by
  rcases h.buffer with ⟨-, huninit⟩ | hactive
  · rw [huninit] at hs
    cases hs
  · exact hactive

theorem Placed.offset_lt (h : Placed w) : w.offset < defaultLogBufSize :=
  h.offset.trans_lt (by decide)

theorem switchBuffer_placed (w : Logger) : Placed w.switchBuffer :=
  ⟨Nat.zero_le _, .inr ⟨w.nextIndex, rfl, rfl⟩⟩

/-- A dump leaves the offset at 0, so that the active buffer is empty, in each
of its cases. -/
theorem dumpToFile_offset (hdump : w.dumpToFile fs sc = some w') : w'.offset = 0 := by
  obtain ⟨-, rfl⟩ | ⟨-, hoff, hfile⟩ | ⟨x, b, close, -, -, -, hfile⟩ := dumpToFile_cases hdump
  · rfl
  · rw [hfile.offset, hoff]
  · rw [uvFsWrite_frame] at hfile
    exact hfile.offset

/-- Nothing else is asked of the state before a dump: it may have filled up. -/
theorem dumpToFile_placed
    (h : w.buffer = none ∧ w.status = .uninit ∨ ∃ i, w.buffer = some (buffers i) ∧ w.bindex = i + 1)
    (hdump : w.dumpToFile fs sc = some w') : Placed w' := by
  have hoff := dumpToFile_offset hdump
  refine ⟨by omega, ?_⟩
  obtain ⟨-, rfl⟩ | ⟨-, -, hfile⟩ | ⟨x, b, close, -, -, -, hfile⟩ := dumpToFile_cases hdump
  · exact h
  · rw [hfile.buffer, hfile.status, hfile.bindex]
    exact h
  · rw [uvFsWrite_frame] at hfile
    rw [hfile.buffer, hfile.status, hfile.bindex]
    exact w.switchBuffer_placed.buffer

theorem Placed.logInner (h : Placed w) (hlog : w.logInner c fs = some w') : Placed w' := by
  obtain ⟨m, hm, -⟩ := printConsole_eq w c
  have hv : Placed (w.printConsole c) := by
    rw [hm]
    exact ⟨h.offset, h.buffer⟩
  obtain ⟨-, rfl | rfl⟩ | ⟨-, hprint⟩ := logInner_cases hlog
  · exact h
  · exact hv
  · obtain ⟨b, -, ⟨-, ⟨hoff, rfl⟩ | ⟨-, hdump⟩⟩ | ⟨-, u, active, hdump, -, rfl⟩⟩ :=
      printFile_cases hprint
    · exact ⟨hoff, hv.buffer⟩
    · exact dumpToFile_placed (w := (w.printConsole c).appended b _) hv.buffer hdump
    · have hu : Placed u :=
        dumpToFile_placed (w := (w.printConsole c).formatted b _) hv.buffer hdump
      exact ⟨hu.offset, hu.buffer⟩

theorem start_offset (w : Logger) (fs : FsAnswers) : (w.start fs).offset = w.offset := by
  have hfile := FileOnly.openLoggerFile { w with noFile := false, levelPriority := llDebug } fs
  unfold Logger.start
  split
  · split
    · dsimp only
      split <;> exact hfile.offset
    · rfl
  · rfl

theorem Placed.start (h : Placed w) (fs : FsAnswers) : Placed (w.start fs) := by
  by_cases hidle : w.loop = true → w.status ≠ .uninit
  · rwa [start_of_idle hidle]
  · push Not at hidle
    obtain ⟨hloop, hstatus⟩ := hidle
    obtain ⟨hbuf, hidx⟩ := start_eq hloop hstatus fs
    exact ⟨by rw [start_offset]; exact h.offset, .inr ⟨w.bindex, hbuf, hidx⟩⟩

theorem Placed.close (h : Placed w) : Placed w.close := by
  have hstatus : w.close.status = .uninit := by
    unfold Logger.close
    split
    next hs => exact hs
    next => rfl
  have hoff : w.close.offset = w.offset := by
    unfold Logger.close
    split
    · rfl
    · dsimp only
      split <;> rfl
  refine ⟨by rw [hoff]; exact h.offset, ?_⟩
  rw [w.close_frame.1, w.close_frame.2, hstatus]
  exact h.buffer.imp (fun hnone => ⟨hnone.1, rfl⟩) id

theorem Placed.step (h : Placed w) (hstep : Step w e w') : Placed w' := by
  cases e with
  | init => cases hstep; exact ⟨h.offset, h.buffer⟩
  | setLevel level => cases hstep; exact ⟨h.offset, h.buffer⟩
  | showConsole console => cases hstep; exact ⟨h.offset, h.buffer⟩
  | writeFile file => cases hstep; exact ⟨h.offset, h.buffer⟩
  | start fs =>
      obtain rfl := Option.some.inj hstep
      exact h.start fs
  | log c fs => exact h.logInner hstep
  | dump fs => exact dumpToFile_placed h.buffer hstep
  | close =>
      obtain rfl := Option.some.inj hstep
      exact h.close
  | flush fs =>
      exact dumpToFile_placed (w := { w with
        queued := w.queued - 1, flushed := w.flushed + 1 }) h.buffer (flushToFile_cases hstep).2
  | closeFile =>
      obtain ⟨-, rfl⟩ := closeFile_cases hstep
      exact ⟨Nat.zero_le _, h.buffer⟩
  | writeDone k r close =>
      obtain ⟨req, m, -, rfl, -⟩ := afterWrite_eq hstep
      exact ⟨h.offset, h.buffer⟩

theorem init_placed (mem : Mem) : Placed (init mem) := ⟨Nat.zero_le _, .inl ⟨rfl, rfl⟩⟩

theorem placed_of_run {mem : Mem} {es : List LogEvent} (h : Run Step (init mem) es w) :
    Placed w :=
  h.invariant (fun _ _ _ hw hstep => hw.step hstep) (init_placed mem)

/-! ## What one call leaves of the record -/

theorem recorded_of_eq {m : List LogObs} (hb : w'.buffer = w.buffer) (ho : w'.offset = w.offset)
    (hm : w'.mem = w.mem) (ht : w'.trace = w.trace ++ m) (hw : ∀ o ∈ m, o.written = []) :
    w'.recorded = w.recorded := by
  have hpending : w'.pending = w.pending := by
    unfold pending
    rw [hb, ho, hm]
  rw [recorded, hpending, ht, submitted_append, submitted_eq_nil hw, List.append_nil, recorded]

theorem FileOnly.recorded (h : FileOnly w w') : w'.recorded = w.recorded := by
  obtain ⟨m, hm, hfile⟩ := h.trace
  exact recorded_of_eq h.buffer h.offset h.mem hm fun o ho => LogObs.written_of_ofFile (hfile o ho)

/-- A store behind what waits in the buffer. -/
theorem vsnprintf_recorded (hb : w.buffer = some b) {a : Nat} (ha : b + w.offset ≤ a)
    (active size : Nat) (text : List (BitVec 8)) :
    (w.vsnprintf active a size text).recorded = w.recorded := by
  have hpending : (w.vsnprintf active a size text).pending = w.pending := by
    rw [pending_eq hb, pending_eq (w := w.vsnprintf active a size text) hb]
    exact read_store_of_disjoint (.inl ha)
  rw [recorded, hpending, recorded]
  exact congrArg (· ++ w.pending)
    (by simp [vsnprintf, submitted, LogObs.written])

/-- A text that fits is recorded up to its first NUL. -/
theorem appended_recorded (hb : w.buffer = some b) {text : List (BitVec 8)}
    (hfits : text.length < w.room) :
    (w.appended b text).recorded = w.recorded ++ cString text := by
  have hpending : (w.appended b text).pending = w.pending ++ cString text := by
    rw [pending_eq hb, pending_eq (w := w.appended b text) hb]
    calc read (w.formatted b text).mem b (w.offset + (cString text).length)
        = read (w.formatted b text).mem b w.offset
            ++ read (w.formatted b text).mem (b + w.offset) (cString text).length := read_add ..
      _ = read w.mem b w.offset ++ cString text := by
          congr 1
          · exact read_store_of_disjoint (.inl (Nat.le_refl _))
          · exact (read_store_cut w.mem (b + w.offset) hfits).1
  rw [recorded, hpending, recorded, ← List.append_assoc]
  exact congrArg (· ++ w.pending ++ cString text)
    (by simp [appended, formatted, vsnprintf, submitted, LogObs.written])

theorem switchBuffer_read (hp : ∃ i, w.buffer = some (buffers i) ∧ w.bindex = i + 1)
    (hoff : w.offset ≤ defaultLogBufSize) (hb : w.buffer = some b) :
    read w.switchBuffer.mem b w.offset = read w.mem b w.offset := by
  obtain ⟨i, hi, hidx⟩ := hp
  obtain rfl := Option.some.inj (hi.symm.trans hb)
  have hsize : 0 < defaultLogBufSize := by decide
  refine read_store_of_disjoint ?_
  rw [List.length_singleton]
  rcases buffers_apart (nextIndex_ne hidx) with hapart | hapart
  · exact .inr (by omega)
  · exact .inl (by omega)

/-- A dump hands on what waits in the buffer, or leaves it there. -/
theorem dumpToFile_recorded (hw : w.writer.isSome)
    (hp : ∃ i, w.buffer = some (buffers i) ∧ w.bindex = i + 1)
    (hoff : w.offset ≤ defaultLogBufSize) (hdump : w.dumpToFile fs sc = some w') :
    w'.recorded = w.recorded := by
  obtain ⟨hnone, -⟩ | ⟨-, -, hfile⟩ | ⟨x, b, close, -, -, hb, hfile⟩ := dumpToFile_cases hdump
  · rw [hnone] at hw
    cases hw
  · exact hfile.recorded
  · rw [hfile.recorded, recorded, pending_of_offset (by rw [uvFsWrite_frame]; rfl), uvFsWrite_frame]
    dsimp only
    rw [switchBuffer_read hp hoff hb, recorded, pending_eq hb]
    simp [submitted, switchBuffer, LogObs.written]

/-! ## Runs of log calls and dumps -/

/-- The line fits in what is left of the buffer, and `vsnprintf` makes of the
`va_list` what it was to make, without a NUL in it. A text too long for an empty
buffer does no harm if there was nothing to write. -/
def LineFits (w : Logger) : LogEvent → Prop
  | .log c _ => w.levelPriority ≤ c.level →
      if (w.line c).length < w.room then cString (w.line c) = c.render 0
      else w.offset = 0 ∧ c.render 0 = []
  | _ => True

/-- What does not change while lines are logged. -/
structure SameConfig (w w' : Logger) : Prop where
  status : w'.status = w.status
  noConsole : w'.noConsole = w.noConsole
  noFile : w'.noFile = w.noFile
  levelPriority : w'.levelPriority = w.levelPriority

theorem SameConfig.refl (w : Logger) : SameConfig w w := ⟨rfl, rfl, rfl, rfl⟩

theorem SameConfig.trans {u : Logger} (h : SameConfig w u) (h' : SameConfig u w') :
    SameConfig w w' :=
  ⟨h'.status.trans h.status, h'.noConsole.trans h.noConsole, h'.noFile.trans h.noFile,
    h'.levelPriority.trans h.levelPriority⟩

theorem FileOnly.sameConfig (h : FileOnly w w') : SameConfig w w' :=
  ⟨h.status, h.noConsole, h.noFile, h.levelPriority⟩

theorem dumpToFile_sameConfig (hdump : w.dumpToFile fs sc = some w') : SameConfig w w' := by
  obtain ⟨-, rfl⟩ | ⟨-, -, hfile⟩ | ⟨x, b, close, -, -, -, hfile⟩ := dumpToFile_cases hdump
  · exact ⟨rfl, rfl, rfl, rfl⟩
  · exact hfile.sameConfig
  · rw [uvFsWrite_frame] at hfile
    exact ⟨hfile.status, hfile.noConsole, hfile.noFile, hfile.levelPriority⟩

/-- A roll that succeeds leaves a writer, too. -/
theorem dumpToFile_writer (hfs : fs.Succeed) (hw : w.writer.isSome)
    (hdump : w.dumpToFile fs false = some w') : w'.writer.isSome := by
  obtain ⟨x, hx⟩ := Option.isSome_iff_exists.mp hw
  unfold Logger.dumpToFile at hdump
  rw [hx] at hdump
  dsimp only at hdump
  split at hdump
  · obtain rfl := Option.some.inj hdump
    exact hw
  · obtain ⟨b, -, hdump⟩ := Option.bind_eq_some_iff.mp hdump
    obtain rfl := Option.some.inj hdump
    rw [Bool.false_or]
    split
    next hroll =>
      unfold Logger.leaveWriter Logger.newFile
      rw [if_pos hroll, if_neg (Int.not_lt.mpr hfs.oldLogs)]
      dsimp only
      rw [if_neg (Int.not_lt.mpr hfs.openFile)]
      rfl
    next =>
      rw [uvFsWrite_frame]
      exact hw

/-- A dump of the logger while it is ready. -/
theorem Ready.dumpToFile (h : Ready w) (hfs : fs.Succeed)
    (hdump : w.dumpToFile fs false = some w') : Ready w' := by
  have hsame := dumpToFile_sameConfig hdump
  exact ⟨hsame.status.trans h.status, hsame.noFile.trans h.noFile,
    dumpToFile_writer hfs h.writer hdump⟩

theorem dumpToFile_trace (hdump : w.dumpToFile fs sc = some w') :
    ∃ m, w'.trace = w.trace ++ m ∧ ∀ o ∈ m, o.dumped = true := by
  obtain ⟨-, rfl⟩ | ⟨-, -, hfile⟩ | ⟨x, b, close, -, -, -, hfile⟩ := dumpToFile_cases hdump
  · exact ⟨[], (List.append_nil _).symm, by simp⟩
  · obtain ⟨m, hm, ho⟩ := hfile.trace
    exact ⟨m, hm, fun o h => LogObs.dumped_of_ofFile (ho o h)⟩
  · obtain ⟨m, hm, ho⟩ := hfile.trace
    rw [uvFsWrite_frame] at hm
    refine ⟨_, by rw [hm, List.append_assoc, switchBuffer, List.append_assoc], ?_⟩
    intro o hmem
    rcases List.mem_append.mp hmem with hmem | hmem
    · obtain rfl := List.mem_singleton.mp hmem
      rfl
    · rcases List.mem_append.mp hmem with hmem | hmem
      · obtain rfl := List.mem_singleton.mp hmem
        rfl
      · exact LogObs.dumped_of_ofFile (ho o hmem)

/-- The part for the file has nothing to do with the console. -/
theorem printFile_trace {used : Nat} (hprint : w.printFile c used fs = some w') :
    ∃ m, w'.trace = w.trace ++ m ∧ ∀ o ∈ m, o.shown = none := by
  obtain ⟨b, -, ⟨-, ⟨-, rfl⟩ | ⟨-, hdump⟩⟩ | ⟨-, u, active, hdump, -, rfl⟩⟩ :=
    printFile_cases hprint
  · exact ⟨[_], rfl, by simp [LogObs.shown]⟩
  · obtain ⟨m, hm, ho⟩ := dumpToFile_trace hdump
    refine ⟨_, by rw [hm, appended, formatted, vsnprintf, List.append_assoc], fun o hmem => ?_⟩
    rcases List.mem_append.mp hmem with hmem | hmem
    · obtain rfl := List.mem_singleton.mp hmem
      rfl
    · exact LogObs.shown_of_dumped (ho o hmem)
  · obtain ⟨m, hm, ho⟩ := dumpToFile_trace hdump
    refine ⟨_, by rw [vsnprintf, hm, formatted, vsnprintf, List.append_assoc, List.append_assoc],
      fun o hmem => ?_⟩
    rcases List.mem_append.mp hmem with hmem | hmem
    · obtain rfl := List.mem_singleton.mp hmem
      rfl
    · rcases List.mem_append.mp hmem with hmem | hmem
      · exact LogObs.shown_of_dumped (ho o hmem)
      · obtain rfl := List.mem_singleton.mp hmem
        rfl

theorem formatted_inActive (hp : Placed w) (text : List (BitVec 8)) (busy : List Nat) :
    LogObs.InActive (.stored b (b + w.offset) (cut w.room text).length busy) := by
  have hlt := hp.offset_lt
  have hroom : w.room = defaultLogBufSize - w.offset := rfl
  have hcut := length_cut_le w.room text
  exact ⟨by omega, by omega⟩

/-- A line that fits is recorded up to its first NUL. -/
theorem printFile_fits {used : Nat} (hr : Ready w) (hp : Placed w)
    (hlen : (c.render used).length < w.room) (hprint : w.printFile c used fs = some w') :
    w'.recorded = w.recorded ++ cString (c.render used) ∧
      ∃ m, w'.trace = w.trace ++ m ∧ ∀ o ∈ m, o.InActive := by
  obtain ⟨b, hb, ⟨-, hcases⟩ | ⟨hge, -⟩⟩ := printFile_cases hprint
  · have happ := appended_recorded hb hlen
    have hstored := formatted_inActive hp (b := b) (c.render used) w.busy
    rcases hcases with ⟨-, rfl⟩ | ⟨-, hdump⟩
    · exact ⟨happ, [_], rfl, by simpa using hstored⟩
    · have hroom := length_cString_le (c.render used)
      have hfull : (w.appended b (c.render used)).offset ≤ defaultLogBufSize := by
        unfold room at hlen
        change w.offset + (cString (c.render used)).length ≤ _
        omega
      have hrec := dumpToFile_recorded (w := w.appended b (c.render used)) hr.writer
        (hp.active hr.status) hfull hdump
      obtain ⟨m, hm, ho⟩ := dumpToFile_trace hdump
      refine ⟨hrec.trans happ, _, by rw [hm, appended, formatted, vsnprintf, List.append_assoc], ?_⟩
      intro o hmem
      rcases List.mem_append.mp hmem with hmem | hmem
      · obtain rfl := List.mem_singleton.mp hmem
        exact hstored
      · exact LogObs.inActive_of_dumped (ho o hmem)
  · omega

/-- Which buffer a dump of a ready logger leaves active. -/
theorem dumpToFile_active (hw : w.writer.isSome) (hb : w.buffer = some b) {active : Nat}
    (hdump : w.dumpToFile fs sc = some w') (hactive : w'.buffer = some active) :
    w.offset = 0 ∧ active = b ∨ w.offset ≠ 0 ∧ active = buffers w.nextIndex := by
  obtain ⟨hnone, -⟩ | ⟨-, hoff, hfile⟩ | ⟨x, b, close, -, hoff, -, hfile⟩ := dumpToFile_cases hdump
  · rw [hnone] at hw
    cases hw
  · exact .inl ⟨hoff, Option.some.inj (hactive.symm.trans (hfile.buffer.trans hb))⟩
  · rw [uvFsWrite_frame] at hfile
    exact .inr ⟨hoff, Option.some.inj (hactive.symm.trans hfile.buffer)⟩

/-- Where the retry of a line stores, when the dump has moved on. -/
theorem retry_not_inActive (hp : Placed w) {i : Nat} (hidx : w.bindex = i + 1) (text : List (BitVec 8)) (busy : List Nat) :
    ¬ LogObs.InActive (.stored (buffers w.nextIndex) (buffers i + w.offset)
      (cut defaultLogBufSize text).length busy) := by
  rintro ⟨hlow, hhigh⟩
  have hlt := hp.offset_lt
  have hpos : 0 < (cut defaultLogBufSize text).length := by
    rw [cut, if_neg (by decide)]
    simp
  rcases buffers_apart (nextIndex_ne hidx) with hapart | hapart <;> omega

/-- Nothing is recorded of a line that does not fit; unless the buffer is empty,
what is left of it is stored outside the buffer. -/
theorem printFile_unfit {used : Nat} (hr : Ready w) (hp : Placed w)
    (hlen : ¬ (c.render used).length < w.room) (hprint : w.printFile c used fs = some w') :
    w'.recorded = w.recorded ∧
      ∃ m, w'.trace = w.trace ++ m ∧ ((∀ o ∈ m, o.InActive) ↔ w.offset = 0) := by
  obtain ⟨b, hb, ⟨hlt, -⟩ | ⟨-, u, active, hdump, hactive, rfl⟩⟩ := printFile_cases hprint
  · exact absurd hlt hlen
  · have hrec : u.recorded = w.recorded := by
      rw [dumpToFile_recorded (w := w.formatted b (c.render used)) hr.writer (hp.active hr.status)
        (Nat.le_of_lt hp.offset_lt) hdump]
      exact vsnprintf_recorded hb (Nat.le_refl _) ..
    have hoff := dumpToFile_offset hdump
    have hroom : u.room = defaultLogBufSize := by rw [room, hoff, Nat.sub_zero]
    obtain ⟨m, hm, ho⟩ := dumpToFile_trace hdump
    refine ⟨?_, _, by rw [vsnprintf, hm, formatted, vsnprintf, List.append_assoc,
      List.append_assoc], ?_⟩
    -- what is printed again does not count, since `offset` stays 0
    · refine Eq.trans ?_ hrec
      rw [recorded, pending_of_offset (w := u.vsnprintf active _ _ _) hoff, recorded,
        pending_of_offset hoff]
      simp [vsnprintf, submitted, LogObs.written]
    · have hnext := dumpToFile_active (w := w.formatted b (c.render used)) hr.writer hb hdump hactive
      rw [show (w.formatted b (c.render used)).nextIndex = w.nextIndex from rfl] at hnext
      have hfirst := formatted_inActive hp (b := b) (c.render used) w.busy
      have hcut := length_cut_le defaultLogBufSize (c.render (used + 1))
      obtain ⟨i, hi, hidx⟩ := hp.active hr.status
      have hbi : b = buffers i := Option.some.inj (hb.symm.trans hi)
      rw [hroom]
      constructor
      -- the second print is inside the active buffer just when the dump changed no buffer
      · intro hall
        obtain ⟨hzero, -⟩ | ⟨-, rfl⟩ := hnext
        · exact hzero
        · have hretry := hall _ (List.mem_append_right _
            (List.mem_append_right _ (List.mem_singleton_self _)))
          rw [hbi] at hretry
          exact absurd hretry (retry_not_inActive hp hidx _ _)
      · intro hzero o hmem
        obtain ⟨-, rfl⟩ | ⟨hne, -⟩ := hnext
        · rcases List.mem_append.mp hmem with hmem | hmem
          · obtain rfl := List.mem_singleton.mp hmem
            exact hfirst
          · rcases List.mem_append.mp hmem with hmem | hmem
            · exact LogObs.inActive_of_dumped (ho o hmem)
            · obtain rfl := List.mem_singleton.mp hmem
              exact ⟨by omega, by omega⟩
        · exact absurd hzero hne

theorem printFile_ready {used : Nat} (hr : Ready w) (hfs : fs.Succeed)
    (hprint : w.printFile c used fs = some w') : Ready w' ∧ SameConfig w w' := by
  obtain ⟨b, -, ⟨-, ⟨-, rfl⟩ | ⟨-, hdump⟩⟩ | ⟨-, u, active, hdump, -, rfl⟩⟩ :=
    printFile_cases hprint
  · exact ⟨⟨hr.status, hr.noFile, hr.writer⟩, ⟨rfl, rfl, rfl, rfl⟩⟩
  · have happ : Ready (w.appended b (c.render used)) := ⟨hr.status, hr.noFile, hr.writer⟩
    have hsame := dumpToFile_sameConfig hdump
    exact ⟨happ.dumpToFile hfs hdump, ⟨hsame.1, hsame.2, hsame.3, hsame.4⟩⟩
  · have hu : Ready (w.formatted b (c.render used)) := ⟨hr.status, hr.noFile, hr.writer⟩
    have hr' := hu.dumpToFile hfs hdump
    have hsame := dumpToFile_sameConfig hdump
    exact ⟨⟨hr'.status, hr'.noFile, hr'.writer⟩, ⟨hsame.1, hsame.2, hsame.3, hsame.4⟩⟩

/-- One log call or dump: the logger stays ready, and the record grows by the line
if and only if it fits. -/
theorem Ready.step (hr : Ready w) (hp : Placed w) (hlogs : e.Logs) (hstep : Step w e w') :
    Ready w' ∧ SameConfig w w' ∧ ∃ m, w'.trace = w.trace ++ m ∧
      ((∀ o ∈ m, o.InActive) ∧ w'.recorded = w.recorded ++ e.logged w.levelPriority ↔
        w.LineFits e) := by
  cases e with
  | log c fs =>
      have hlog : w.logInner c fs = some w' := hstep
      obtain ⟨m, hm, hcons⟩ := printConsole_eq w c
      have hwritten : ∀ o ∈ m, o.written = [] ∧ o.InActive := by
        intro o ho
        obtain ⟨text, rfl⟩ := hcons o ho
        exact ⟨rfl, trivial⟩
      have hrec : (w.printConsole c).recorded = w.recorded := by
        rw [hm]
        exact recorded_of_eq rfl rfl rfl rfl fun o ho => (hwritten o ho).1
      obtain ⟨hnot, hw'⟩ | ⟨hto, hprint⟩ := logInner_cases hlog
      · have hlow : ¬ w.levelPriority ≤ c.level := fun hle =>
          hnot ⟨hle, hr.status, hr.noFile, hr.writer⟩
        have hlogged : (LogEvent.log c fs).logged w.levelPriority = [] := if_neg hlow
        have hfits : w.LineFits (.log c fs) := fun hle => absurd hle hlow
        rw [hlogged, List.append_nil]
        rcases hw' with rfl | rfl
        · exact ⟨hr, .refl _, [], (List.append_nil _).symm, by simpa using hfits⟩
        · rw [hrec, hm]
          exact ⟨⟨hr.status, hr.noFile, hr.writer⟩, ⟨rfl, rfl, rfl, rfl⟩, m, rfl,
            by simpa [hfits] using fun o ho => (hwritten o ho).2⟩
      · have hlogged : (LogEvent.log c fs).logged w.levelPriority = c.render 0 := if_pos hto.1
        have hv : Ready (w.printConsole c) ∧ Placed (w.printConsole c) := by
          rw [hm]
          exact ⟨⟨hr.status, hr.noFile, hr.writer⟩, ⟨hp.offset, hp.buffer⟩⟩
        have hroom : (w.printConsole c).room = w.room := by rw [hm]; rfl
        have hoffset : (w.printConsole c).offset = w.offset := by rw [hm]
        have htrace : (w.printConsole c).trace = w.trace ++ m := by rw [hm]
        have hsame : SameConfig w (w.printConsole c) := by rw [hm]; exact ⟨rfl, rfl, rfl, rfl⟩
        obtain ⟨hr', hsame'⟩ := printFile_ready hv.1 hlogs.1 hprint
        refine ⟨hr', hsame.trans hsame', ?_⟩
        rw [hlogged]
        -- a line longer than the room is lost, so that only an empty one is recorded
        by_cases hlen : (w.line c).length < w.room
        · have hfits : w.LineFits (.log c fs) ↔ cString (w.line c) = c.render 0 := by
            simp only [LineFits, if_pos hlen, hto.1, forall_const]
          obtain ⟨hrec', m', hm', ho⟩ := printFile_fits hv.1 hv.2 (hroom ▸ hlen) hprint
          refine ⟨m ++ m', by rw [hm', htrace, List.append_assoc], ?_⟩
          rw [hrec', hrec, hfits, List.append_cancel_left_eq]
          have hall : ∀ o ∈ m ++ m', o.InActive := fun o hmem =>
            (List.mem_append.mp hmem).elim (fun h => (hwritten o h).2) (ho o)
          exact and_iff_right hall
        · have hfits : w.LineFits (.log c fs) ↔ w.offset = 0 ∧ c.render 0 = [] := by
            simp only [LineFits, if_neg hlen, hto.1, forall_const]
          obtain ⟨hrec', m', hm', ho⟩ := printFile_unfit hv.1 hv.2 (hroom ▸ hlen) hprint
          refine ⟨m ++ m', by rw [hm', htrace, List.append_assoc], ?_⟩
          rw [hrec', hrec, hfits, List.self_eq_append_right, ← hoffset, ← ho]
          have hall : (∀ o ∈ m ++ m', o.InActive) ↔ ∀ o ∈ m', o.InActive :=
            ⟨fun h o hmem => h o (List.mem_append_right _ hmem), fun h o hmem =>
              (List.mem_append.mp hmem).elim (fun h => (hwritten o h).2) (h o)⟩
          rw [hall]
  | dump fs =>
      have hdump : w.dumpToFile fs false = some w' := hstep
      obtain ⟨m, hm, ho⟩ := dumpToFile_trace hdump
      have hrec := dumpToFile_recorded hr.writer (hp.active hr.status)
        (Nat.le_of_lt hp.offset_lt) hdump
      refine ⟨hr.dumpToFile hlogs hdump, dumpToFile_sameConfig hdump, m, hm, ?_⟩
      exact ⟨fun _ => trivial, fun _ => ⟨fun o h => LogObs.inActive_of_dumped (ho o h), by
        rw [hrec]
        exact (List.append_nil _).symm⟩⟩
  | _ => cases hlogs

/-! ## The calls return -/

theorem dumpToFile_isSome (hb : w.buffer = some b) (fs : FsAnswers) (sc : Bool) :
    ∃ w', w.dumpToFile fs sc = some w' := by
  unfold Logger.dumpToFile
  split
  · exact ⟨_, rfl⟩
  · split
    · split
      · dsimp only
        split <;> exact ⟨_, rfl⟩
      · exact ⟨_, rfl⟩
    · rw [hb]
      exact ⟨_, rfl⟩

theorem Placed.exists_buffer (hp : Placed w) (hs : w.status = .init) : ∃ b, w.buffer = some b := by
  obtain ⟨i, hb, -⟩ := hp.active hs
  exact ⟨_, hb⟩

theorem printFile_isSome (hp : Placed w) (hs : w.status = .init) (c : LogCall) (used : Nat)
    (fs : FsAnswers) : ∃ w', w.printFile c used fs = some w' := by
  obtain ⟨b, hb⟩ := hp.exists_buffer hs
  unfold Logger.printFile
  rw [hb]
  dsimp only [Option.bind_eq_bind, Option.bind_some]
  split
  · obtain ⟨u, hu⟩ := dumpToFile_isSome (w := w.formatted b (c.render used)) hb fs false
    have hplaced : Placed u :=
      dumpToFile_placed (w := w.formatted b (c.render used)) hp.buffer hu
    obtain ⟨active, hactive⟩ :=
      hplaced.exists_buffer ((dumpToFile_sameConfig hu).status.trans hs)
    rw [hu]
    dsimp only [Option.bind_some]
    rw [hactive]
    exact ⟨_, rfl⟩
  · split
    · apply dumpToFile_isSome
      exact hb
    · exact ⟨_, rfl⟩

theorem Ready.exists_log (hr : Ready w) (hp : Placed w) (c : LogCall) (fs : FsAnswers) :
    ∃ w', w.logInner c fs = some w' := by
  unfold Logger.logInner
  split
  · exact ⟨_, rfl⟩
  · split
    · obtain ⟨m, hm, -⟩ := printConsole_eq w c
      rw [hm]
      exact printFile_isSome (w := { w with trace := w.trace ++ m }) ⟨hp.offset, hp.buffer⟩
        hr.status c _ fs
    · exact ⟨_, rfl⟩

/-- From a ready logger no log call and no dump gets stuck: there is a state
that it leads to. -/
theorem Ready.exists_step (hr : Ready w) (hp : Placed w) (hlogs : e.Logs) :
    ∃ w', Step w e w' := by
  cases e with
  | log c fs => exact hr.exists_log hp c fs
  | dump fs =>
      obtain ⟨b, hb⟩ := hp.exists_buffer hr.status
      exact dumpToFile_isSome hb fs false
  | _ => cases hlogs

/-! ## The lines -/

def LogStep (w : Logger) (e : LogEvent) (w' : Logger) : Prop := Step w e w' ∧ e.Logs

/-- Since `w₀`, the record has grown by the lines of `es`, and nothing was stored
outside the active buffer. -/
structure Kept (w₀ : Logger) (es : List LogEvent) (w : Logger) : Prop where
  recorded : w.recorded = w₀.recorded ++ logged w₀.levelPriority es
  inActive : ∃ m, w.trace = w₀.trace ++ m ∧ ∀ o ∈ m, o.InActive

theorem ready_of_run {w₀ : Logger} {es : List LogEvent} (hr : Ready w₀) (hp : Placed w₀)
    (h : Run LogStep w₀ es w) : Ready w ∧ Placed w ∧ SameConfig w₀ w := by
  refine h.invariant (I := fun w => Ready w ∧ Placed w ∧ SameConfig w₀ w) ?_ ⟨hr, hp, .refl w₀⟩
  rintro t e u ⟨hr, hp, hsame⟩ ⟨hstep, hlogs⟩
  obtain ⟨hr', hsame', -⟩ := hr.step hp hlogs hstep
  exact ⟨hr', hp.step hstep, hsame.trans hsame'⟩

theorem Kept.snoc_iff {w₀ : Logger} {es : List LogEvent} (h : Kept w₀ es w) (hr : Ready w)
    (hp : Placed w) (hsame : SameConfig w₀ w) (hstep : LogStep w e w') :
    Kept w₀ (es ++ [e]) w' ↔ w.LineFits e := by
  obtain ⟨-, -, m', hm', hiff⟩ := hr.step hp hstep.2 hstep.1
  obtain ⟨m, hm, ho⟩ := h.inActive
  have hlogged : logged w₀.levelPriority (es ++ [e])
      = logged w₀.levelPriority es ++ e.logged w.levelPriority := by
    rw [logged_append, hsame.levelPriority]
    exact congrArg (_ ++ ·) (List.append_nil _)
  rw [← hiff]
  constructor
  · rintro ⟨hrec, m'', hm'', ho'⟩
    rw [hlogged, ← List.append_assoc, ← h.recorded] at hrec
    rw [hm', hm, List.append_assoc, List.append_cancel_left_eq] at hm''
    subst hm''
    exact ⟨fun o hmem => ho' o (List.mem_append_right _ hmem), hrec⟩
  · rintro ⟨ho', hrec⟩
    constructor
    · rw [hlogged, ← List.append_assoc, ← h.recorded, hrec]
    · refine ⟨m ++ m', by rw [hm', hm, List.append_assoc], fun o hmem => ?_⟩
      exact (List.mem_append.mp hmem).elim (ho o) (ho' o)

/-- **The log keeps all lines, in order and in their place**, in every state of a
run of log calls and dumps, just when each line fits. -/
theorem kept_iff {mem : Mem} {es₀ es : List LogEvent} {w₀ : Logger}
    (h₀ : Run Step (init mem) es₀ w₀) (hr : Ready w₀) (hrun : Run LogStep w₀ es w) :
    (∀ es' w', es' <+: es → Run LogStep w₀ es' w' → Kept w₀ es' w') ↔
      Run (fun w e w' => LogStep w e w' ∧ w.LineFits e) w₀ es w := by
  refine Run.forall_prefix_iff ?_ ?_ ?_ hrun
  · intro t e u u' h h'
    exact Option.some.inj (h'.1.symm.trans h.1)
  · exact ⟨(List.append_nil _).symm, [], (List.append_nil _).symm, by simp⟩
  · intro es t e u hrun hkept hstep
    obtain ⟨hr', hp', hsame⟩ := ready_of_run hr (placed_of_run h₀) hrun
    exact hkept.snoc_iff hr' hp' hsame hstep

/-- The answers of a system with nothing in the way. -/
def created : FsAnswers where
  scandir := .ok []
  oldLogs := 0
  openFile := 0
  stat := .ok 0
  write := 0
  close := 0

/-- The logger after `css_logger_init` and its first `css_logger_start`. -/
def started (mem : Mem) : Logger := { init mem with loop := true }.start created

/-- A call that logs `n` bytes, however often it is formatted. -/
def lineOf (n : Nat) : LogCall := ⟨llDebug, fun _ => List.replicate n 0x61⟩

theorem started_run (mem : Mem) :
    Run Step (init mem) ([] ++ [.init] ++ [.start created]) (started mem) :=
  .snoc (.snoc .refl rfl) rfl

theorem started_ready (mem : Mem) : Ready (started mem) := ⟨rfl, rfl, rfl⟩

/-! ## Runs that can be computed -/

instance (fs : FsAnswers) : Decidable fs.Succeed :=
  decidable_of_iff (0 ≤ fs.write ∧ 0 ≤ fs.oldLogs ∧ 0 ≤ fs.openFile)
    ⟨fun h => ⟨h.1, h.2.1, h.2.2⟩, fun h => ⟨h.write, h.oldLogs, h.openFile⟩⟩

instance : (e : LogEvent) → Decidable e.Logs
  | .log .. => inferInstanceAs (Decidable (_ ∧ _))
  | .dump fs => inferInstanceAs (Decidable fs.Succeed)
  | .init | .setLevel _ | .showConsole _ | .writeFile _ | .start _ | .close | .flush _ | .closeFile
  | .writeDone .. => isFalse id

instance (w : Logger) : (e : LogEvent) → Decidable (w.LineFits e)
  | .log c _ => inferInstanceAs (Decidable (w.levelPriority ≤ c.level →
      if (w.line c).length < w.room then cString (w.line c) = c.render 0
      else w.offset = 0 ∧ c.render 0 = []))
  | .dump _ | .init | .setLevel _ | .showConsole _ | .writeFile _ | .start _ | .close | .flush _
  | .closeFile | .writeDone .. => isTrue trivial

/-- The events in turn, if `ok` has nothing against them. -/
def follow (ok : Logger → LogEvent → Prop) [∀ w e, Decidable (ok w e)] (w : Logger)
    (es : List LogEvent) : Option Logger :=
  es.foldlM (fun w e => if ok w e then w.handle e else none) w

theorem run_of_follow {ok : Logger → LogEvent → Prop} [∀ w e, Decidable (ok w e)]
    {es : List LogEvent} (h : w.follow ok es = some w') :
    Run (fun w e w' => Step w e w' ∧ ok w e) w es w' := by
  rw [← List.map_id es]
  refine Run.of_foldlM ?_ h
  intro w e w' hstep
  split at hstep
  next hok => exact ⟨hstep, hok⟩
  next => cases hstep

/-- Two lines and a dump, and one more line while its write is in flight. -/
def threeLines : List LogEvent :=
  [.log (lineOf 1) created, .log (lineOf 2) created, .dump created, .log (lineOf 3) created]

theorem kept_iff_threeLines :
    ∃ w, Run LogStep (started fun _ => 0) threeLines w ∧ w.busy = [buffers 0] ∧ w.offset = 3 ∧
      ∀ es' w', es' <+: threeLines → Run LogStep (started fun _ => 0) es' w' →
        Kept (started fun _ => 0) es' w' := by
  have hval : ((started fun _ => 0).follow (fun w e => e.Logs ∧ w.LineFits e) threeLines).map
      (fun w => (w.busy, w.offset)) = some ([buffers 0], 3) := by
    decide +kernel
  obtain ⟨w, hw, hval⟩ := Option.map_eq_some_iff.mp hval
  obtain ⟨hbusy, hoffset⟩ := Prod.mk.inj hval
  have hfits : Run (fun w e w' => LogStep w e w' ∧ w.LineFits e) (started fun _ => 0) threeLines w :=
    (run_of_follow hw).mono fun _ _ _ h => ⟨⟨h.1, h.2.1⟩, h.2.2⟩
  have hrun : Run LogStep (started fun _ => 0) threeLines w := hfits.mono fun _ _ _ h => h.1
  have hkept := (kept_iff (started_run _) (started_ready _) hrun).mpr hfits
  exact ⟨w, hrun, hbusy, hoffset, hkept⟩

/-- A line that fits and does not fill the buffer up to the dump size moves the
offset on by its length, and does nothing else to the buffer. -/
theorem logInner_short (hto : w.ToFile c) (hlen : (w.line c).length < w.room)
    (hsmall : w.offset + (cString (w.line c)).length ≤ dumpToFileSize)
    (hlog : w.logInner c fs = some w') :
    w'.offset = w.offset + (cString (w.line c)).length ∧ w'.buffer = w.buffer ∧
      w'.bindex = w.bindex ∧ w'.busy = w.busy := by
  rw [logInner_of_toFile hto] at hlog
  obtain ⟨m, hm, -⟩ := printConsole_eq w c
  rw [hm] at hlog
  obtain ⟨b, -, ⟨-, ⟨-, rfl⟩ | ⟨hlt, -⟩⟩ | ⟨hge, -⟩⟩ := printFile_cases hlog
  · exact ⟨rfl, rfl, rfl, rfl⟩
  · exact absurd hsmall (Nat.not_le.mpr hlt)
  · exact absurd hlen (Nat.not_lt.mpr hge)

/-- A line as long as a buffer allows, behind one byte: it is lost. -/
theorem not_kept_secondLine :
    ¬ ∀ mem es₀ w₀ es w, Run Step (init mem) es₀ w₀ → Ready w₀ → Run LogStep w₀ es w →
      Kept w₀ es w := by
  intro hall
  have hr := started_ready fun _ => 0
  have hp := placed_of_run (started_run fun _ => 0)
  have hlogs : ∀ n < defaultLogBufSize, (LogEvent.log (lineOf n) created).Logs := fun n hn =>
    ⟨⟨by decide, by decide, by decide⟩, by simpa [lineOf] using hn⟩
  have hlogs₁ := hlogs 1 (by decide)
  have hlogs₂ := hlogs (defaultLogBufSize - 1) (by decide)
  obtain ⟨w₁, hw₁⟩ := hr.exists_step hp hlogs₁
  have hrun₁ : Run LogStep (started fun _ => 0) [.log (lineOf 1) created] w₁ :=
    Run.single ⟨hw₁, hlogs₁⟩
  obtain ⟨hr₁, hp₁, hsame⟩ := ready_of_run hr hp hrun₁
  obtain ⟨w₂, hw₂⟩ := hr₁.exists_step hp₁ hlogs₂
  have hrun₂ : Run LogStep (started fun _ => 0) _ w₂ := .snoc hrun₁ ⟨hw₂, hlogs₂⟩
  have hkept := hall _ _ _ _ _ (started_run _) hr hrun₁
  have hoffset : w₁.offset = 1 :=
    (logInner_short ⟨by decide, hr.status, hr.noFile, hr.writer⟩ (by decide) (by decide) hw₁).1
  have hfits := (hkept.snoc_iff hr₁ hp₁ hsame ⟨hw₂, hlogs₂⟩).mp
    (hall _ _ _ _ _ (started_run _) hr hrun₂) (by rw [hsame.levelPriority]; decide)
  rw [if_neg] at hfits
  · exact absurd (hoffset.symm.trans hfits.1) (by decide)
  · rw [room, hoffset]
    simp [line, lineOf]

end Logger

end Smts
