import Smts.Log.Buffers

/-!
# Log — the writer of the log file

`css_logger.writer` is set before the open is known to have succeeded, and not
cleared by every close. This is when it is the writer of an open file all the
same, and nothing is written through a descriptor that is not open.
-/

namespace Smts

open Memory Transition

/-- Observations that have to do with neither descriptors nor writes. -/
def LogObs.plain : LogObs → Bool
  | .console _ | .stored .. | .cleared .. | .wrote .. => true
  | _ => false

/-- The descriptor was opened, and `uv_fs_close` was not called on it. -/
def Alive (trace : List LogObs) (fd : Option Nat) : Prop :=
  ∃ f, fd = some f ∧ .opened f ∈ trace ∧ ∀ r, .close (some f) r ∉ trace

/-- Each write was submitted while its descriptor was open. -/
def WritesOpen (trace : List LogObs) : Prop :=
  ∀ before fd bytes after, trace = before ++ .write fd bytes :: after → Alive before fd

/-- No open of a log file has failed. -/
def OpensSucceed (trace : List LogObs) : Prop := ∀ r, .openFailed r ∉ trace

variable {t m : List LogObs} {fd : Option Nat}

theorem Alive.append (h : Alive t fd) (hm : ∀ f r, fd = some f → .close (some f) r ∉ m) :
    Alive (t ++ m) fd := by
  obtain ⟨f, rfl, hopen, hclose⟩ := h
  refine ⟨f, rfl, List.mem_append_left _ hopen, fun r hr => ?_⟩
  rcases List.mem_append.mp hr with hr | hr
  · exact hclose r hr
  · exact hm f r rfl hr

theorem alive_append_plain (hm : ∀ o ∈ m, o.plain = true) : Alive (t ++ m) fd ↔ Alive t fd := by
  constructor
  · rintro ⟨f, rfl, hopen, hclose⟩
    refine ⟨f, rfl, ?_, fun r hr => hclose r (List.mem_append_left _ hr)⟩
    rcases List.mem_append.mp hopen with hopen | hopen
    · exact hopen
    · cases hm _ hopen
  · intro h
    refine h.append fun f r _ hr => ?_
    cases hm _ hr

theorem WritesOpen.append (h : WritesOpen t) (hm : ∀ fd bytes, .write fd bytes ∉ m) :
    WritesOpen (t ++ m) := by
  intro before fd bytes after heq
  rcases List.append_eq_append_iff.mp heq with ⟨mid, rfl, hmid⟩ | ⟨mid, rfl, hmid⟩
  · exact absurd (by simp [hmid]) (hm fd bytes)
  · cases mid with
    | nil =>
        rw [List.nil_append] at hmid
        exact absurd (by simp [← hmid]) (hm fd bytes)
    | cons o mid =>
        obtain ⟨rfl, -⟩ := List.cons.inj hmid
        exact h before fd bytes mid rfl

theorem WritesOpen.snoc (h : WritesOpen t) (hfd : Alive t fd) (bytes : List (BitVec 8)) :
    WritesOpen (t ++ [.write fd bytes]) := by
  intro before fd' bytes' after heq
  rcases List.append_eq_append_iff.mp heq with ⟨mid, rfl, hmid⟩ | ⟨mid, rfl, hmid⟩
  · cases mid with
    | nil =>
        obtain ⟨hobs, -⟩ := List.cons.inj hmid
        obtain ⟨rfl, -⟩ := LogObs.write.inj hobs
        simpa using hfd
    | cons o mid =>
        obtain ⟨-, hrest⟩ := List.cons.inj hmid
        simp at hrest
  · cases mid with
    | nil =>
        obtain ⟨hobs, -⟩ := List.cons.inj hmid
        obtain ⟨rfl, -⟩ := LogObs.write.inj hobs
        simpa using hfd
    | cons o mid =>
        obtain ⟨rfl, -⟩ := List.cons.inj hmid
        exact h before fd' bytes' mid rfl

namespace Logger

variable {w w' : Logger} {fs : FsAnswers} {sc : Bool} {c : LogCall} {x : LogWriter}

/-- `css_logger.writer` is `NULL` or really open. -/
def WriterOpen (w : Logger) : Prop := ∀ x, w.writer = some x → Alive w.trace x.fd

/-- A flush does not come when there is a writer and nothing to write: it closes
the file and keeps the writer. -/
def FlushFits (w : Logger) : LogEvent → Prop
  | .flush fs => w.writer.isSome → w.offset = 0 → fs.close < 0
  | _ => True

/-- What holds of the writer, the closes and the writes under way. -/
structure FileInv (w : Logger) : Prop where
  writer : ∀ x, w.writer = some x → ∃ fd, x.fd = some fd ∧ fd < w.opens ∧
    .opened fd ∈ w.trace ∧ (∀ r, .close (some fd) r ∉ w.trace) ∧
      ∀ req ∈ w.inFlight, req.close = true → req.fd ≠ some fd
  closes : ∀ fd r, .close (some fd) r ∈ w.trace → fd < w.opens
  reqs : ∀ req ∈ w.inFlight, ∀ fd, req.fd = some fd → fd < w.opens
  writes : WritesOpen w.trace
  opens : OpensSucceed w.trace

/-- What a function may do when it finds the writer in order: as long as no open
fails, leave it in order, and when one does, leave a writer that is not open. -/
structure Minds (w' : Logger) : Prop where
  inv : OpensSucceed w'.trace → FileInv w'
  opens : WriterOpen w' → OpensSucceed w'.trace

theorem init_fileInv (mem : Mem) : FileInv (init mem) where
  writer := by simp [init]
  closes := by simp [init]
  reqs := by simp [init]
  writes := by simp [init, WritesOpen]
  opens := by simp [init, OpensSucceed]

namespace FileInv

theorem writerOpen (h : FileInv w) : WriterOpen w := by
  intro x hx
  obtain ⟨fd, hfd, -, hopen, hclose, -⟩ := h.writer x hx
  exact ⟨fd, hfd, hopen, hclose⟩

theorem minds (h : FileInv w) : Minds w := ⟨fun _ => h, fun _ => h.opens⟩

/-- Steps that touch neither the writer nor a file keep the invariant. -/
theorem quiet (h : FileInv w) (hw : w'.writer = w.writer) (ho : w'.opens = w.opens)
    (hf : w'.inFlight = w.inFlight) (ht : w'.trace = w.trace ++ m)
    (hm : ∀ o ∈ m, o.plain = true) : FileInv w' := by
  have hclose : ∀ fd r, .close fd r ∈ w'.trace → .close fd r ∈ w.trace := by
    intro fd r hr
    rw [ht] at hr
    rcases List.mem_append.mp hr with hr | hr
    · exact hr
    · cases hm _ hr
  constructor
  case writer =>
    intro x hx
    rw [hw] at hx
    obtain ⟨fd, hfd, hlt, hopen, hnot, hreq⟩ := h.writer x hx
    refine ⟨fd, hfd, ho ▸ hlt, ?_, fun r hr => hnot r (hclose _ r hr), hf ▸ hreq⟩
    rw [ht]
    exact List.mem_append_left _ hopen
  case closes =>
    intro fd r hr
    rw [ho]
    exact h.closes fd r (hclose _ r hr)
  case reqs =>
    rw [hf, ho]
    exact h.reqs
  case writes =>
    rw [ht]
    refine h.writes.append fun fd bytes hmem => ?_
    cases hm _ hmem
  case opens =>
    intro r hr
    rw [ht] at hr
    rcases List.mem_append.mp hr with hr | hr
    · exact h.opens r hr
    · cases hm _ hr

theorem config (h : FileInv w) (hw : w'.writer = w.writer) (ho : w'.opens = w.opens)
    (hf : w'.inFlight = w.inFlight) (ht : w'.trace = w.trace) : FileInv w' :=
  h.quiet (m := []) hw ho hf (by rw [ht, List.append_nil]) (by simp)

/-- The invariant allows that there is no writer. -/
theorem clear (h : FileInv w) (n : Nat) : FileInv { w with writer := none, writerOffset := n } :=
  ⟨by simp, h.closes, h.reqs, h.writes, h.opens⟩

theorem close (h : FileInv w) (hw : w.writer = none) (hfd : ∀ f, fd = some f → f < w.opens)
    (r : Int) : FileInv (w.emit (.close fd r)) := by
  constructor
  case writer =>
    intro x hx
    rw [show (w.emit (.close fd r)).writer = w.writer from rfl, hw] at hx
    cases hx
  case closes =>
    intro f r' hr
    rcases List.mem_append.mp hr with hr | hr
    · exact h.closes f r' hr
    · obtain ⟨heq, -⟩ := LogObs.close.inj (List.mem_singleton.mp hr)
      exact hfd f heq.symm
  case reqs => exact h.reqs
  case writes => exact h.writes.append (by simp)
  case opens =>
    intro r' hr
    rcases List.mem_append.mp hr with hr | hr
    · exact h.opens r' hr
    · simp at hr

/-- A write through the writer, which stays if it does not close. -/
theorem write (h : FileInv w) (hx : w.writer = some x) (base len : Nat) (close : Bool) (r : Int) :
    FileInv { w.uvFsWrite x.fd base len close r with
      writer := if close then none else w.writer } := by
  obtain ⟨f, hf, hlt, hopen, hnot, hreq⟩ := h.writer x hx
  -- a request of the file is an old one or this one, which closes it only if `close` is set
  have hmem : ∀ req ∈ (w.uvFsWrite x.fd base len close r).inFlight,
      req ∈ w.inFlight ∨ req.fd = some f ∧ req.close = close := by
    intro req hreq
    rcases mem_uvFsWrite hreq with hreq | rfl
    · exact .inl hreq
    · exact .inr ⟨hf, rfl⟩
  have htrace : (w.uvFsWrite x.fd base len close r).trace
      = w.trace ++ [.write x.fd (read w.mem base len)] := by
    rw [uvFsWrite_frame]
  have hopens : (w.uvFsWrite x.fd base len close r).opens = w.opens := by
    rw [uvFsWrite_frame]
  have hclose : ∀ fd r', .close fd r' ∈ (w.uvFsWrite x.fd base len close r).trace →
      .close fd r' ∈ w.trace := by
    intro fd r' hr
    rw [htrace] at hr
    simpa using hr
  constructor
  case writer =>
    cases close with
    | true => simp
    | false =>
        intro y hy
        obtain rfl := Option.some.inj (hx.symm.trans hy)
        refine ⟨f, hf, hopens ▸ hlt, ?_, fun r' hr => hnot r' (hclose _ r' hr), ?_⟩
        · rw [htrace]
          exact List.mem_append_left _ hopen
        · intro req hr hc
          rcases hmem req hr with hr | ⟨-, hfalse⟩
          · exact hreq req hr hc
          · rw [hfalse] at hc
            cases hc
  case closes =>
    intro fd r' hr
    rw [hopens]
    exact h.closes fd r' (hclose _ r' hr)
  case reqs =>
    intro req hr fd hfd
    rw [hopens]
    rcases hmem req hr with hr | ⟨heq, -⟩
    · exact h.reqs req hr fd hfd
    · obtain rfl := Option.some.inj (heq.symm.trans hfd)
      exact hlt
  case writes =>
    rw [htrace]
    exact h.writes.snoc ⟨f, hf, hopen, hnot⟩ _
  case opens =>
    intro r' hr
    rw [htrace] at hr
    exact h.opens r' (by simpa using hr)

end FileInv

/-! ## Opening -/

/-- How the attempt to open a log file ended: it was not made, it failed, or it
succeeded and the writer has the new descriptor. -/
def OpenTried (w w' : Logger) : Prop :=
  w'.inFlight = w.inFlight ∧
    (w'.writer = w.writer ∧ w'.opens = w.opens ∧ w'.trace = w.trace ∨
      (∃ r, w'.writer = some { fd := none } ∧ w'.opens = w.opens ∧
        w'.trace = w.trace ++ [.openFailed r]) ∨
      w'.writer = some { fd := some w.opens } ∧ w'.opens = w.opens + 1 ∧
        w'.trace = w.trace ++ [.opened w.opens])

theorem OpenTried.refl (w : Logger) : OpenTried w w := ⟨rfl, .inl ⟨rfl, rfl, rfl⟩⟩

theorem newFile_tried (w : Logger) (fs : FsAnswers) : OpenTried w (w.newFile fs).1 := by
  unfold Logger.newFile
  split
  · exact .refl w
  · dsimp only
    split
    · exact ⟨rfl, .inr (.inl ⟨_, rfl, rfl, rfl⟩)⟩
    · exact ⟨rfl, .inr (.inr ⟨rfl, rfl, rfl⟩)⟩

theorem reopenFile_tried (w : Logger) (filenames : List CString.Str) (fs : FsAnswers) :
    OpenTried w (w.reopenFile filenames fs).1 := by
  unfold Logger.reopenFile
  split
  · dsimp only
    split
    · exact ⟨rfl, .inr (.inl ⟨_, rfl, rfl, rfl⟩)⟩
    · split <;> exact ⟨rfl, .inr (.inr ⟨rfl, rfl, rfl⟩)⟩
  · exact w.newFile_tried fs

theorem startTimerIf_tried {r : Logger × Int} (h : OpenTried w r.1) :
    OpenTried w (startTimerIf r).1 := by
  unfold Logger.startTimerIf
  split <;> exact h

theorem openLoggerFile_tried (w : Logger) (fs : FsAnswers) :
    OpenTried w (w.openLoggerFile fs).1 := by
  unfold Logger.openLoggerFile
  split
  · exact .refl w
  · split
    · exact startTimerIf_tried (w.newFile_tried fs)
    · exact startTimerIf_tried (w.reopenFile_tried _ fs)

theorem start_tried (w : Logger) (fs : FsAnswers) : OpenTried w (w.start fs) := by
  unfold Logger.start
  split
  · split
    · have h := openLoggerFile_tried { w with noFile := false, levelPriority := llDebug } fs
      dsimp only
      split <;> exact h
    · exact .refl w
  · exact .refl w

theorem FileInv.tried (h : FileInv w) (ht : OpenTried w w') : Minds w' := by
  obtain ⟨hflight, ⟨hw, ho, ht⟩ | ⟨r, hw, ho, ht⟩ | ⟨hw, ho, ht⟩⟩ := ht
  -- no file was opened, or `open` failed, or it gave the next descriptor
  · exact FileInv.minds (h.config hw ho hflight ht)
  · constructor
    · intro hopens
      exact absurd (by rw [ht]; simp) (hopens r)
    · intro hopen
      obtain ⟨f, hf, -⟩ := hopen _ hw
      cases hf
  · refine FileInv.minds ?_
    have hclose : ∀ fd r, .close fd r ∈ w'.trace → .close fd r ∈ w.trace := by
      intro fd r hr
      rw [ht] at hr
      simpa using hr
    constructor
    case writer =>
      intro x hx
      obtain rfl := Option.some.inj (hw.symm.trans hx)
      refine ⟨w.opens, rfl, by omega, by simp [ht], fun r hr => ?_, ?_⟩
      -- a new descriptor occurs in no `close` and in no request before
      · exact Nat.lt_irrefl _ (h.closes _ r (hclose _ r hr))
      · intro req hreq _ hfd
        rw [hflight] at hreq
        exact Nat.lt_irrefl _ (h.reqs req hreq _ hfd)
    case closes =>
      intro fd r hr
      have := h.closes fd r (hclose _ r hr)
      omega
    case reqs =>
      intro req hreq fd hfd
      rw [hflight] at hreq
      have := h.reqs req hreq fd hfd
      omega
    case writes =>
      rw [ht]
      exact h.writes.append (by simp)
    case opens =>
      intro r hr
      rw [ht] at hr
      exact h.opens r (by simpa using hr)

/-! ## Dumping -/

theorem FileInv.switchBuffer (h : FileInv w) : FileInv w.switchBuffer :=
  h.quiet (m := [.cleared (buffers w.nextIndex) w.busy]) rfl rfl rfl rfl (by simp [LogObs.plain])

/-- The last write of a writer, and perhaps a new one. -/
theorem FileInv.leaveWriter (h : FileInv w) (hx : w.writer = some x) (base len : Nat)
    (roll : Bool) (fs : FsAnswers) :
    Minds ((w.uvFsWrite x.fd base len true fs.write).leaveWriter x roll fs) := by
  obtain ⟨f, hf, hlt, -⟩ := h.writer x hx
  have hwritten := (h.write hx base len true fs.write).clear 0
  have hleft : FileInv { (if fs.write < 0 then
      (w.uvFsWrite x.fd base len true fs.write).emit (.close x.fd fs.close)
      else w.uvFsWrite x.fd base len true fs.write) with writer := none, writerOffset := 0 } := by
    split
    · refine hwritten.close rfl (fun g hg => ?_) fs.close
      obtain rfl := Option.some.inj (hf.symm.trans hg)
      rw [uvFsWrite_frame]
      exact hlt
    · exact hwritten
  unfold Logger.leaveWriter
  dsimp only
  split
  · exact hleft.tried (newFile_tried _ fs)
  · exact hleft.minds

theorem FileInv.dumpToFile (h : FileInv w)
    (hfits : sc = true → w.writer.isSome → w.offset = 0 → fs.close < 0)
    (hdump : w.dumpToFile fs sc = some w') : Minds w' := by
  unfold Logger.dumpToFile at hdump
  cases hx : w.writer with
  | none =>
      rw [hx] at hdump
      obtain rfl := Option.some.inj hdump
      exact FileInv.minds (h.config hx.symm rfl rfl rfl)
  | some x =>
      obtain ⟨f, hf, hlt, -⟩ := h.writer x hx
      rw [hx] at hdump
      dsimp only at hdump
      -- nothing is written; a flush closes the writer, and lets go of it only if that failed
      by_cases hoff : w.offset = 0
      · rw [if_pos hoff] at hdump
        cases sc with
        | false =>
            obtain rfl := Option.some.inj hdump
            exact h.minds
        | true =>
            rw [if_pos rfl, if_pos (hfits rfl (by rw [hx]; rfl) hoff)] at hdump
            obtain rfl := Option.some.inj hdump
            refine ((h.clear w.writerOffset).close rfl (fun g hg => ?_) fs.close).minds
            obtain rfl := Option.some.inj (hf.symm.trans hg)
            exact hlt
      · rw [if_neg hoff] at hdump
        obtain ⟨b, -, hdump⟩ := Option.bind_eq_some_iff.mp hdump
        obtain rfl := Option.some.inj hdump
        have hs : FileInv w.switchBuffer := h.switchBuffer
        have hxs : w.switchBuffer.writer = some x := hx
        split
        next hclose =>
          rw [hclose]
          exact hs.leaveWriter hxs b w.offset _ fs
        next hclose =>
          rw [Bool.not_eq_true] at hclose
          have hwritten := hs.write hxs b w.offset false fs.write
          rw [hclose]
          refine FileInv.minds (hwritten.config ?_ rfl rfl rfl)
          rw [uvFsWrite_frame]
          rfl

/-- A flush that has nothing to write leaves a writer that is not open. -/
theorem flushFits_of_open (hopen : WriterOpen w')
    (hdump : w.dumpToFile fs true = some w') : w.writer.isSome → w.offset = 0 → fs.close < 0 := by
  intro hsome hoff
  obtain ⟨x, hx⟩ := Option.isSome_iff_exists.mp hsome
  by_contra hge
  unfold Logger.dumpToFile at hdump
  rw [hx] at hdump
  dsimp only at hdump
  rw [if_pos hoff, if_pos rfl, if_neg hge] at hdump
  obtain rfl := Option.some.inj hdump
  obtain ⟨f, hf, -, hclose⟩ := hopen x hx
  exact hclose fs.close (by simp [emit, hf])

/-! ## Logging -/

theorem Minds.quiet (h : Minds w) (hw : w'.writer = w.writer) (ho : w'.opens = w.opens)
    (hf : w'.inFlight = w.inFlight) (ht : w'.trace = w.trace ++ m)
    (hm : ∀ o ∈ m, o.plain = true) : Minds w' := by
  have hopens : OpensSucceed w'.trace ↔ OpensSucceed w.trace := by
    constructor
    · intro h' r hr
      exact h' r (by rw [ht]; exact List.mem_append_left _ hr)
    · intro h' r hr
      rw [ht] at hr
      rcases List.mem_append.mp hr with hr | hr
      · exact h' r hr
      · cases hm _ hr
  constructor
  · intro h'
    exact (h.inv (hopens.mp h')).quiet hw ho hf ht hm
  · intro hopen
    refine hopens.mpr (h.opens fun x hx => ?_)
    have := hopen x (by rw [hw, hx])
    rwa [ht, alive_append_plain hm] at this

theorem FileInv.printConsole (h : FileInv w) (c : LogCall) : FileInv (w.printConsole c) := by
  obtain ⟨m, hm, hcons⟩ := printConsole_eq w c
  rw [hm]
  refine h.quiet (m := m) rfl rfl rfl rfl fun o ho => ?_
  obtain ⟨text, rfl⟩ := hcons o ho
  rfl

theorem FileInv.logInner (h : FileInv w) (hlog : w.logInner c fs = some w') : Minds w' := by
  have hv := h.printConsole c
  obtain ⟨-, rfl | rfl⟩ | ⟨-, hprint⟩ := logInner_cases hlog
  · exact h.minds
  · exact hv.minds
  · obtain ⟨b, -, hcases⟩ := printFile_cases hprint
    have hu : FileInv ((w.printConsole c).formatted b (c.render w.consoleUses)) :=
      hv.quiet rfl rfl rfl rfl (by simp [LogObs.plain])
    have happ : FileInv ((w.printConsole c).appended b (c.render w.consoleUses)) :=
      hu.quiet (m := []) rfl rfl rfl (List.append_nil _).symm (by simp)
    obtain ⟨-, ⟨-, rfl⟩ | ⟨-, hdump⟩⟩ | ⟨-, u, active, hdump, -, rfl⟩ := hcases
    · exact happ.minds
    · exact happ.dumpToFile (by simp) hdump
    · exact (hu.dumpToFile (by simp) hdump).quiet rfl rfl rfl rfl (by simp [LogObs.plain])

theorem FileInv.afterWrite (h : FileInv w) {k : Nat} {r close : Int}
    (hdone : w.afterWrite k r close = some w') : FileInv w' := by
  obtain ⟨req, m, hreq, rfl, rfl⟩ := afterWrite_eq hdone
  have hmem : req ∈ w.inFlight := List.mem_of_getElem? hreq
  have hsub : ∀ q ∈ w.inFlight.eraseIdx k, q ∈ w.inFlight := fun q => List.mem_of_mem_eraseIdx
  have hclose : ∀ fd r', .close fd r' ∈
      (if r < 0 then [] else [LogObs.wrote req.bytes (read w.mem req.base req.len)]) ++
        (if req.close then [.close req.fd close] else []) → req.close = true ∧ req.fd = fd := by
    intro fd r' hr
    rcases List.mem_append.mp hr with hr | hr
    · split at hr <;> simp at hr
    · split at hr
      next hc =>
        obtain ⟨heq, -⟩ := LogObs.close.inj (List.mem_singleton.mp hr)
        exact ⟨hc, heq.symm⟩
      next => cases hr
  have hother : ∀ fd bytes r', LogObs.write fd bytes ∉
      (if r < 0 then [] else [LogObs.wrote req.bytes (read w.mem req.base req.len)]) ++
        (if req.close then [.close req.fd close] else []) ∧ LogObs.openFailed r' ∉
      (if r < 0 then [] else [LogObs.wrote req.bytes (read w.mem req.base req.len)]) ++
        (if req.close then [.close req.fd close] else []) := by
    intro fd bytes r'
    by_cases hr : r < 0 <;> cases req.close <;> simp [hr]
  constructor
  case writer =>
    intro x hx
    obtain ⟨fd, hfd, hlt, hopen, hnot, hreqs⟩ := h.writer x hx
    refine ⟨fd, hfd, hlt, List.mem_append_left _ hopen, fun r' hr => ?_,
      fun q hq => hreqs q (hsub q hq)⟩
    rcases List.mem_append.mp hr with hr | hr
    · exact hnot r' hr
    · obtain ⟨hc, heq⟩ := hclose _ r' hr
      exact hreqs req hmem hc heq
  case closes =>
    intro fd r' hr
    rcases List.mem_append.mp hr with hr | hr
    · exact h.closes fd r' hr
    · exact h.reqs req hmem fd (hclose _ r' hr).2
  case reqs => exact fun q hq => h.reqs q (hsub q hq)
  case writes => exact h.writes.append fun fd bytes => (hother fd bytes 0).1
  case opens =>
    intro r' hr
    rcases List.mem_append.mp hr with hr | hr
    · exact h.opens r' hr
    · exact (hother none [] r').2 hr

/-! ## Runs -/

theorem FileInv.closed (h : FileInv w) : FileInv w.close := by
  unfold Logger.close
  split
  · exact h
  · dsimp only
    split <;> exact h.config rfl rfl rfl rfl

theorem FileInv.step {e : LogEvent} (h : FileInv w) (hstep : Step w e w') :
    (w.FlushFits e → Minds w') ∧ (WriterOpen w' → w.FlushFits e) := by
  have hany : Minds w' → (∀ w, FlushFits w e) →
      (w.FlushFits e → Minds w') ∧ (WriterOpen w' → w.FlushFits e) :=
    fun hminds hfits => ⟨fun _ => hminds, fun _ => hfits w⟩
  cases e with
  | init => cases hstep; exact hany (FileInv.minds (h.config rfl rfl rfl rfl)) fun _ => trivial
  | setLevel level => cases hstep; exact hany (FileInv.minds (h.config rfl rfl rfl rfl)) fun _ => trivial
  | showConsole console =>
      cases hstep; exact hany (FileInv.minds (h.config rfl rfl rfl rfl)) fun _ => trivial
  | writeFile file => cases hstep; exact hany (FileInv.minds (h.config rfl rfl rfl rfl)) fun _ => trivial
  | start fs =>
      obtain rfl := Option.some.inj hstep
      exact hany (h.tried (w.start_tried fs)) fun _ => trivial
  | log c fs => exact hany (h.logInner hstep) fun _ => trivial
  | dump fs => exact hany (h.dumpToFile (by simp) hstep) fun _ => trivial
  | close =>
      obtain rfl := Option.some.inj hstep
      exact hany (FileInv.minds h.closed) fun _ => trivial
  | flush fs =>
      have hdump := (flushToFile_cases hstep).2
      have h' : FileInv { w with queued := w.queued - 1, flushed := w.flushed + 1 } :=
        h.config rfl rfl rfl rfl
      constructor
      · intro hfits
        exact h'.dumpToFile (fun _ => hfits) hdump
      · intro hopen
        have hfits := flushFits_of_open hopen hdump
        exact hfits
  | closeFile =>
      obtain ⟨-, rfl⟩ := closeFile_cases hstep
      exact hany (FileInv.minds (h.config rfl rfl rfl rfl)) fun _ => trivial
  | writeDone k r close => exact hany (FileInv.minds (h.afterWrite hstep)) fun _ => trivial

/-- **The writer is `NULL` or really open, and all writes are to open files**, in
every state of just the runs in which no open of a log file fails and no flush
finds nothing to write. -/
theorem writerOpen_iff (mem : Mem) (es : List LogEvent) (w : Logger) :
    Run (fun w e w' => Step w e w' ∧ WriterOpen w' ∧ WritesOpen w'.trace) (init mem) es w ↔
      Run (fun w e w' => Step w e w' ∧ OpensSucceed w'.trace ∧ w.FlushFits e) (init mem) es w := by
  refine Run.and_iff (I := FileInv) (init_fileInv mem) ?_ ?_
  · intro w e w' hw hstep
    constructor
    · rintro ⟨hopen, -⟩
      have hfits := (hw.step hstep).2 hopen
      exact ⟨((hw.step hstep).1 hfits).opens hopen, hfits⟩
    · rintro ⟨hopens, hfits⟩
      have hinv := ((hw.step hstep).1 hfits).inv hopens
      exact ⟨hinv.writerOpen, hinv.writes⟩
  · intro w e w' hw hstep hcond
    exact ((hw.step hstep).1 hcond.2).inv hcond.1

/-- The answers of a start that may not create its file. -/
def noPermission : FsAnswers where
  scandir := .ok []
  oldLogs := 0
  openFile := -13
  stat := .ok 0
  write := 0
  close := 0

/-- A failed open leaves the writer behind, without a descriptor. -/
theorem not_writerOpen_noPermission :
    ¬ ∀ mem es w, Run Step (init mem) es w → WriterOpen w ∧ WritesOpen w.trace := by
  intro hall
  have hrun : ∃ w, Run Step (init fun _ => 0) ([] ++ [.init] ++ [.start noPermission]) w ∧
      w.writer = some { fd := none } :=
    ⟨_, .snoc (.snoc .refl rfl) rfl, rfl⟩
  obtain ⟨w, hrun, hwriter⟩ := hrun
  obtain ⟨f, hf, -⟩ := (hall _ _ _ hrun).1 _ hwriter
  cases hf

end Logger

end Smts
