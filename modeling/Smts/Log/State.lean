import Smts.Lib.CString
import Smts.Lib.Memory
import Smts.Lib.Transition
import Smts.Log.Rotation

/-!
# Log — the logger

The globals of `css_logger.c` and the functions that work on them: lines are
formatted into one of three buffers, and a buffer is handed to libuv to be
written to the log file while the next one fills. What libuv's file system
calls answer comes with the call that makes them.
-/

namespace Smts

open CString Memory

/-! ## Constants -/

/-- `DEFAULT_LOG_BUF_SIZE`. -/
def defaultLogBufSize : Nat := 3 * 1024 * 1024

/-- `MAX_LOGGER_BUFFER_LEN`. -/
def maxLoggerBufferLen : Nat := 3

/-- `CSS_LOGGER_MAX_FILE_SIZE`. -/
def cssLoggerMaxFileSize : Nat := 15 * 1024 * 1024

/-- `dump_to_file_size`. -/
def dumpToFileSize : Nat := defaultLogBufSize * 80 / 100

/-- `LL_DEBUG`. -/
def llDebug : Int := 0

/-- `buffers[i]`, as an address in `buffers`. -/
def buffers (i : Nat) : Nat := i * defaultLogBufSize

/-! ## State -/

inductive LoggerStatus where
  | uninit
  | init
deriving DecidableEq, Repr

/-- `css_logger_writer_t`. A descriptor is named by the number of opens before
it, so that a number the system hands out again is another one; `malloc` leaves
none. -/
structure LogWriter where
  fd : Option Nat
deriving DecidableEq, Repr

/-- `css_logger_write_req_t` of a write that has not completed, with the bytes
it was submitted with. `close`: its callback is
`after_write_logger_and_close_cb`. -/
structure LogWriteReq where
  fd : Option Nat
  base : Nat
  len : Nat
  bytes : List (BitVec 8)
  close : Bool
deriving DecidableEq, Repr

/-- What the logger did: one observation of the console, the buffers or the file
system. -/
inductive LogObs where
  /-- `vprintf` -/
  | console (text : List (BitVec 8))
  /-- `vsnprintf` stored `n` bytes from `a` on while `active` was the buffer and
  writes from `busy` were under way -/
  | stored (active a n : Nat) (busy : List Nat)
  /-- `*buffer = '\0'` -/
  | cleared (a : Nat) (busy : List Nat)
  /-- `uv_fs_write` of these bytes -/
  | write (fd : Option Nat) (bytes : List (BitVec 8))
  /-- a write put `now` in the file; `bytes` it was submitted with -/
  | wrote (bytes now : List (BitVec 8))
  | opened (fd : Nat)
  | openFailed (r : Int)
  /-- `uv_fs_close` -/
  | close (fd : Option Nat) (r : Int)
deriving DecidableEq, Repr

/-- `css_logger`, the static variables, and libuv's side of them. -/
structure Logger where
  status : LoggerStatus
  noConsole : Bool
  noFile : Bool
  levelPriority : Int
  /-- `loop` is set -/
  loop : Bool
  writer : Option LogWriter
  writerOffset : Nat
  /-- `timer` is set -/
  timer : Bool
  bindex : Nat
  buffer : Option Nat
  offset : Nat
  /-- `buffers`, and what lies behind -/
  mem : Mem
  /-- the opens that have succeeded -/
  opens : Nat
  inFlight : List LogWriteReq
  /-- the flushes that wait for a thread -/
  queued : Nat
  /-- the flushes whose second callback is still to come -/
  flushed : Nat
  trace : List LogObs

/-- What libuv answers to the calls one function makes. -/
structure FsAnswers where
  /-- As many strings as the directory has entries: those that
  `css_logger_reopen_file` finds at `readdir_req.ptr`. `uv_fs_scandir` leaves
  pointers to `uv__dirent_t` there, so they need not be the entries' names. -/
  scandir : Except Int (List Str)
  /-- `css_logger_rename_old_logs` -/
  oldLogs : Int
  openFile : Int
  stat : Except Int Nat
  write : Int
  close : Int

/-- A call of `css_logger_log_inner`: its level, and what the `n`-th v*printf
that is given the call's `va_list` makes of it. -/
structure LogCall where
  level : Int
  render : Nat → List (BitVec 8)

namespace Logger

/-- The static `css_logger` as its initialisers leave it, with `mem` in the
buffers. -/
def init (mem : Mem) : Logger where
  status := .uninit
  noConsole := false
  noFile := true
  levelPriority := 0
  loop := false
  writer := none
  writerOffset := 0
  timer := false
  bindex := 0
  buffer := none
  offset := 0
  mem := mem
  opens := 0
  inFlight := []
  queued := 0
  flushed := 0
  trace := []

def emit (w : Logger) (o : LogObs) : Logger := { w with trace := w.trace ++ [o] }

/-- The buffers from which writes are under way. -/
def busy (w : Logger) : List Nat := w.inFlight.map LogWriteReq.base

/-- `vsnprintf(tbuffer, size, real_fmt, args)` while `active` is the buffer. -/
def vsnprintf (w : Logger) (active tbuffer size : Nat) (text : List (BitVec 8)) : Logger :=
  { w with
    mem := store w.mem tbuffer (cut size text)
    trace := w.trace ++ [.stored active tbuffer (cut size text).length w.busy] }

/-- `uv_fs_write` of the `len` bytes at `base`; libuv reads them when the write
is done, not now. -/
def uvFsWrite (w : Logger) (fd : Option Nat) (base len : Nat) (close : Bool) (r : Int) : Logger :=
  let bytes := read w.mem base len
  let w := w.emit (.write fd bytes)
  if r < 0 then w
  else { w with
    inFlight := w.inFlight ++ [{ fd := fd, base := base, len := len, bytes := bytes, close := close }] }

/-! ## Opening the log file -/

/-- `css_logger_new_file`. -/
def newFile (w : Logger) (fs : FsAnswers) : Logger × Int :=
  if fs.oldLogs < 0 then (w, fs.oldLogs)
  else
    -- the writer is there before the file is, and stays when `open` fails
    let w := { w with writer := some { fd := none }, writerOffset := 0 }
    if fs.openFile < 0 then (w.emit (.openFailed fs.openFile), fs.openFile)
    else
      ({ w.emit (.opened w.opens) with
          writer := some { fd := some w.opens }, opens := w.opens + 1 }, 0)

/-- `css_logger_reopen_file`, with the strings it takes for the names of the files.
Which of the log files is opened does not show. -/
def reopenFile (w : Logger) (filenames : List Str) (fs : FsAnswers) : Logger × Int :=
  if filenames.any fun n => (strstr defaultLogFileFix n).isSome then
    let w := { w with writer := some { fd := none } }
    if fs.openFile < 0 then (w.emit (.openFailed fs.openFile), fs.openFile)
    else
      let w := { w.emit (.opened w.opens) with
        writer := some { fd := some w.opens }, opens := w.opens + 1 }
      match fs.stat with
      | .ok size => ({ w with writerOffset := size }, 0)
      | .error r => (w, r)
  else w.newFile fs

/-- `css_logger_start_timer`, when the file was opened. -/
def startTimerIf (opened : Logger × Int) : Logger × Int :=
  if opened.2 = 0 then ({ opened.1 with timer := true }, opened.2) else opened

/-- `open_logger_file`. -/
def openLoggerFile (w : Logger) (fs : FsAnswers) : Logger × Int :=
  match fs.scandir with
  | .error r => (w, r)
  | .ok filenames =>
      if filenames = [] then startTimerIf (w.newFile fs)
      else startTimerIf (w.reopenFile filenames fs)

/-- `css_logger_start`. -/
def start (w : Logger) (fs : FsAnswers) : Logger :=
  if w.loop then
    if w.status = .uninit then
      let w := { w with noFile := false, levelPriority := llDebug }
      let (w, r) := w.openLoggerFile fs
      -- also when the file could not be opened
      let w := { w with buffer := some (buffers w.bindex), bindex := w.bindex + 1 }
      if r = 0 then { w with status := .init } else w
    else w
  else w

/-! ## Logging -/

/-- The next of the buffers: `bindex` is put back to 0 when it is used, not when
it is counted up. -/
def nextIndex (w : Logger) : Nat :=
  if maxLoggerBufferLen - 1 < w.bindex then 0 else w.bindex

/-- The part of `css_logger_dump_to_file` that makes the next buffer the active
one. -/
def switchBuffer (w : Logger) : Logger :=
  { w with
    buffer := some (buffers w.nextIndex)
    bindex := w.nextIndex + 1
    offset := 0
    mem := store w.mem (buffers w.nextIndex) [0]
    writerOffset := w.writerOffset + w.offset
    trace := w.trace ++ [.cleared (buffers w.nextIndex) w.busy] }

/-- The part that gives up the writer, after its last write. -/
def leaveWriter (w : Logger) (writer : LogWriter) (shouldRollLog : Bool) (fs : FsAnswers) :
    Logger :=
  let w := if fs.write < 0 then w.emit (.close writer.fd fs.close) else w
  let w := { w with writer := none, writerOffset := 0 }
  if shouldRollLog then (w.newFile fs).1 else w

/-- `css_logger_dump_to_file`. -/
def dumpToFile (w : Logger) (fs : FsAnswers) (shouldClose : Bool) : Option Logger :=
  match w.writer with
  | none => some { w with offset := 0 }
  | some writer =>
      if w.offset = 0 then
        if shouldClose then
          let w := w.emit (.close writer.fd fs.close)
          -- a writer whose descriptor was closed stays in place
          if fs.close < 0 then some { w with writer := none } else some w
        else some w
      else do
        let tbuffer ← w.buffer
        let len := w.offset
        let w := w.switchBuffer
        let shouldRollLog := decide (cssLoggerMaxFileSize < w.writerOffset)
        let shouldClose := shouldClose || shouldRollLog
        let w := w.uvFsWrite writer.fd tbuffer len shouldClose fs.write
        some (if shouldClose then w.leaveWriter writer shouldRollLog fs else w)

/-- How often the call's `va_list` is used for the console. -/
def consoleUses (w : Logger) : Nat := if w.noConsole then 0 else 1

/-- The part of `css_logger_log_inner` for the console: a `vprintf` of the fresh
`va_list`. -/
def printConsole (w : Logger) (c : LogCall) : Logger :=
  if w.noConsole then w else w.emit (.console (c.render 0))

/-- `DEFAULT_LOG_BUF_SIZE - offset`. -/
def room (w : Logger) : Nat := defaultLogBufSize - w.offset

/-- The first `vsnprintf` of a call, which is given the room left in the active
buffer. -/
def formatted (w : Logger) (b : Nat) (text : List (BitVec 8)) : Logger :=
  w.vsnprintf b (b + w.offset) w.room text

/-- The part of `css_logger_log_inner` for the file; the call's `va_list` was
given to `used` v*printf before. -/
def printFile (w : Logger) (c : LogCall) (used : Nat) (fs : FsAnswers) : Option Logger := do
  let b ← w.buffer
  let text := c.render used
  let u := w.formatted b text
  if w.room ≤ text.length then
    -- too long for what is left of the buffer: dump, and retry
    let u ← u.dumpToFile fs false
    let active ← u.buffer
    some (u.vsnprintf active (b + w.offset) u.room (c.render (used + 1)))
  else
    let offset := w.offset + strlen u.mem (b + w.offset) w.room
    let u := { u with offset := offset }
    if dumpToFileSize < offset then u.dumpToFile fs false else some u

/-- `css_logger_log_inner`. -/
def logInner (w : Logger) (c : LogCall) (fs : FsAnswers) : Option Logger :=
  if w.noConsole = true ∧ w.noFile = true ∨ c.level < w.levelPriority then some w
  else
    let v := w.printConsole c
    if w.status = .init ∧ w.noFile = false ∧ w.writer.isSome then
      v.printFile c w.consoleUses fs
    else some v

/-! ## Closing -/

/-- `css_logger_close`. -/
def close (w : Logger) : Logger :=
  if w.status = .uninit then w
  else
    -- the rest is written by a thread, later
    let w := if w.loop && w.timer then { w with timer := false, queued := w.queued + 1 } else w
    { w with levelPriority := 0, noConsole := false, noFile := false, status := .uninit }

/-- `css_logger_flush_to_file`, on its thread. -/
def flushToFile (w : Logger) (fs : FsAnswers) : Option Logger :=
  if 0 < w.queued then
    { w with queued := w.queued - 1, flushed := w.flushed + 1 }.dumpToFile fs true
  else none

/-- `css_logger_close_file`, when the flush has ended. -/
def closeFile (w : Logger) : Option Logger :=
  if 0 < w.flushed then some { w with flushed := w.flushed - 1, offset := 0 } else none

/-- `after_write_logger_cb` and `after_write_logger_and_close_cb` of the `k`-th
write under way; `r` and `close` are the results of the write and of
`uv_fs_close`. -/
def afterWrite (w : Logger) (k : Nat) (r close : Int) : Option Logger := do
  let req ← w.inFlight[k]?
  let w := if r < 0 then w else w.emit (.wrote req.bytes (read w.mem req.base req.len))
  let w := { w with inFlight := w.inFlight.eraseIdx k }
  some (if req.close then w.emit (.close req.fd close) else w)

end Logger

/-! ## Events -/

inductive LogEvent where
  /-- `css_logger_init` with a loop -/
  | init
  | setLevel (level : Int)
  | showConsole (console : Bool)
  | writeFile (file : Bool)
  | start (fs : FsAnswers)
  | log (c : LogCall) (fs : FsAnswers)
  /-- `css_logger_dump_to_file_cb` -/
  | dump (fs : FsAnswers)
  | close
  | flush (fs : FsAnswers)
  | closeFile
  | writeDone (k : Nat) (r close : Int)

namespace Logger

def handle (w : Logger) : LogEvent → Option Logger
  | .init => some { w with loop := true }
  | .setLevel level => some { w with levelPriority := level }
  | .showConsole console => some { w with noConsole := console }
  | .writeFile file => some { w with noFile := file }
  | .start fs => some (w.start fs)
  | .log c fs => w.logInner c fs
  | .dump fs => w.dumpToFile fs false
  | .close => some w.close
  | .flush fs => w.flushToFile fs
  | .closeFile => w.closeFile
  | .writeDone k r close => w.afterWrite k r close

/-- One call, or one callback of libuv's; they exclude each other. -/
def Step (w : Logger) (e : LogEvent) (w' : Logger) : Prop := w.handle e = some w'

end Logger

end Smts
