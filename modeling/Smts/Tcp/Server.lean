import Smts.Lib.Transition

/-!
# Tcp — the listener

`tcp_server.c`: one field of three values says how far a server is. A stop does
not change it until the socket is closed, nor does a start that fails behind
`uv_tcp_init`, and the close callback goes on writing it after it has called
`stop_cb`.
-/

namespace Smts

open Transition

/-- `tcp_server_status`. -/
inductive TcpServerStatus where
  | uninit
  | init
  | running
deriving DecidableEq, Repr

/-- What a server does with its socket and its memory. -/
inductive TcpObs where
  /-- `uv_tcp_init`, and whether it was successful -/
  | uvTcpInit (ok : Bool)
  | uvClose
  /-- libuv has unregistered the socket and enters the close callback -/
  | uvClosed
  /-- a field of the struct is read or written -/
  | access
  | free
deriving DecidableEq, Repr

/-- What the calls inside of `start_tcp_server` return. -/
structure StartResults where
  ip4Addr : Int
  tcpInit : Int
  bind : Int
  listen : Int
deriving DecidableEq, Repr

/-- `smts_tcp_server_t`: the status, and whether there is a `stop_cb`. -/
structure SmtsTcpServer where
  status : TcpServerStatus
  stopCb : Bool
  /-- inside of `server_socket_close_cb`, and whether it calls a `stop_cb` -/
  closeCb : Option Bool
  log : List TcpObs

namespace SmtsTcpServer

def emit (w : SmtsTcpServer) (o : TcpObs) : SmtsTcpServer := { w with log := w.log ++ [o] }

/-! ## tcp_server.c -/

/-- `init_tcp_server`. -/
def initTcpServer (w : SmtsTcpServer) : SmtsTcpServer :=
  { w.emit .access with status := .init }

/-- `start_tcp_server`. Its `start_cb` is the last that it calls, so that what it
does is as if it were done next. -/
def startTcpServer (w : SmtsTcpServer) (r : StartResults) : SmtsTcpServer × Int :=
  let w := w.emit .access
  if w.status ≠ .init then (w, -1)
  else if r.ip4Addr ≠ 0 then (w, r.ip4Addr)
  else
    let w := w.emit (.uvTcpInit (r.tcpInit = 0))
    if r.tcpInit ≠ 0 then (w, r.tcpInit)
    else if r.bind ≠ 0 then (w, r.bind)
    else
      let w := w.emit .access
      if r.listen ≠ 0 then (w, r.listen)
      else ({ w.emit .access with status := .running }, 0)

/-- `stop_tcp_server`. -/
def stopTcpServer (w : SmtsTcpServer) (cb : Bool) : SmtsTcpServer × Int :=
  let w := w.emit .access
  if w.status ≠ .running then (w, -1)
  else ({ w.emit .uvClose with stopCb := cb }, 0)

/-- `server_socket_close_cb`, up to the call of `stop_cb`. -/
def serverSocketCloseCb (w : SmtsTcpServer) : SmtsTcpServer :=
  { (w.emit .uvClosed).emit .access with status := .init, closeCb := some w.stopCb }

/-- `server_socket_close_cb`, behind it. -/
def serverSocketClosed (w : SmtsTcpServer) : SmtsTcpServer :=
  { w.emit .access with status := .init, closeCb := none }

/-- `destroy_tcp_server`. -/
def destroyTcpServer (w : SmtsTcpServer) : SmtsTcpServer × Int :=
  let w := w.emit .access
  if w.status = .running then (w, -1) else (w.emit .free, 0)

end SmtsTcpServer

/-! ## What is to hold of the socket and the struct -/

/-- The last of two kinds of things that has happened was `on`. -/
def lastWas (on off : TcpObs) (log : List TcpObs) : Bool :=
  log.foldl (fun b o => if o = on then true else if o = off then false else b) false

/-- The socket is registered with the loop: initialised, and its close callback
has not come. -/
def registered (log : List TcpObs) : Bool := lastWas (.uvTcpInit true) .uvClosed log

/-- The socket has been initialised and not been passed to `uv_close` since. -/
def unclosed (log : List TcpObs) : Bool := lastWas (.uvTcpInit true) .uvClose log

/-- What libuv and the C library allow to follow on `log`. -/
def Allowed (log : List TcpObs) : TcpObs → Prop
  | .uvTcpInit _ => registered log = false
  | .uvClose => unclosed log = true
  | .uvClosed => True
  | .access => .free ∉ log
  | .free => registered log = false

/-- All of `l` may follow on `log`, in turn. -/
def AllAllowed : List TcpObs → List TcpObs → Prop
  | _, [] => True
  | log, o :: l => Allowed log o ∧ AllAllowed (log ++ [o]) l

namespace SmtsTcpServer

/-- One `uv_close` for each `uv_tcp_init`, no `uv_tcp_init` before the close
callback of the last, no `free` of a registered socket and no access after it. -/
def Sound (w : SmtsTcpServer) : Prop := AllAllowed [] w.log

/-! ## Runs -/

inductive Event where
  | init
  | start (r : StartResults)
  | stop (cb : Bool)
  | destroy
  /-- the loop calls `server_socket_close_cb` -/
  | close
  /-- `stop_cb` has returned -/
  | closed
deriving DecidableEq, Repr

/-- The caller has control: not inside of the close callback, but for `stop_cb`. -/
def HasControl (w : SmtsTcpServer) : Prop := w.closeCb ≠ some false

instance (w : SmtsTcpServer) : Decidable w.HasControl :=
  inferInstanceAs (Decidable (w.closeCb ≠ some false))

inductive Step : SmtsTcpServer → Event → SmtsTcpServer → Prop where
  | init {w : SmtsTcpServer} (hcontrol : w.HasControl) : Step w .init w.initTcpServer
  | start {w : SmtsTcpServer} (hcontrol : w.HasControl) (r : StartResults) :
      Step w (.start r) (w.startTcpServer r).1
  | stop {w : SmtsTcpServer} (hcontrol : w.HasControl) (cb : Bool) :
      Step w (.stop cb) (w.stopTcpServer cb).1
  | destroy {w : SmtsTcpServer} (hcontrol : w.HasControl) : Step w .destroy w.destroyTcpServer.1
  | close {w : SmtsTcpServer} (houtside : w.closeCb = none) (hregistered : registered w.log = true)
      (hclosing : unclosed w.log = false) : Step w .close w.serverSocketCloseCb
  | closed {w : SmtsTcpServer} (hinside : w.closeCb ≠ none) : Step w .closed w.serverSocketClosed

/-- A server that has been allocated: its fields are what they are. -/
def allocated (status : TcpServerStatus) (stopCb : Bool) : SmtsTcpServer where
  status := status
  stopCb := stopCb
  closeCb := none
  log := []

/-- The branch a call takes leaves no handle behind and uses no freed struct. -/
def Careful (w : SmtsTcpServer) : Event → Prop
  | .init => .free ∉ w.log
  | .start r =>
      .free ∉ w.log ∧ (w.status = .init → r.ip4Addr = 0 → registered w.log = false)
  | .stop _ => .free ∉ w.log ∧ (w.status = .running → unclosed w.log = true)
  | .destroy => .free ∉ w.log ∧ (w.status ≠ .running → registered w.log = false)
  | .close => .free ∉ w.log
  | .closed => .free ∉ w.log

instance (w : SmtsTcpServer) : (e : Event) → Decidable (Careful w e)
  | .init => inferInstanceAs (Decidable (_ ∉ _))
  | .start _ => inferInstanceAs (Decidable (_ ∧ (_ → _ → _)))
  | .stop _ => inferInstanceAs (Decidable (_ ∧ (_ → _)))
  | .destroy => inferInstanceAs (Decidable (_ ∧ (_ → _)))
  | .close => inferInstanceAs (Decidable (_ ∉ _))
  | .closed => inferInstanceAs (Decidable (_ ∉ _))

section Log

variable {on off o : TcpObs} {log l l' : List TcpObs}

theorem lastWas_snoc : lastWas on off (log ++ [o])
    = if o = on then true else if o = off then false else lastWas on off log := by
  rw [lastWas, List.foldl_append]
  rfl

@[simp]
theorem registered_snoc : registered (log ++ [o])
    = if o = .uvTcpInit true then true else if o = .uvClosed then false else registered log :=
  lastWas_snoc

@[simp]
theorem unclosed_snoc : unclosed (log ++ [o])
    = if o = .uvTcpInit true then true else if o = .uvClose then false else unclosed log :=
  lastWas_snoc

theorem free_notMem_snoc (h : o ≠ .free := by simp) : .free ∉ log ++ [o] ↔ .free ∉ log := by
  rw [List.mem_append, List.mem_singleton, or_iff_left h.symm]

theorem allAllowed_append :
    AllAllowed log (l ++ l') ↔ AllAllowed log l ∧ AllAllowed (log ++ l) l' := by
  induction l generalizing log with
  | nil => simp [AllAllowed]
  | cons o l ih =>
      rw [List.cons_append, AllAllowed, AllAllowed, ih, and_assoc, List.append_assoc]
      rfl

theorem allAllowed_singleton : AllAllowed log [o] ↔ Allowed log o := and_iff_left trivial

end Log

section Steps

variable {w u u' : SmtsTcpServer} {o : TcpObs} {e : Event}

theorem sound_emit_iff : (w.emit o).Sound ↔ w.Sound ∧ Allowed w.log o := by
  rw [Sound, emit, allAllowed_append, allAllowed_singleton]
  rfl

@[simp]
theorem emit_status (w : SmtsTcpServer) (o : TcpObs) : (w.emit o).status = w.status := rfl

@[simp]
theorem emit_log (w : SmtsTcpServer) (o : TcpObs) : (w.emit o).log = w.log ++ [o] := rfl

theorem sound_access_iff (h : w.Sound) : (w.emit .access).Sound ↔ .free ∉ w.log := by
  rw [sound_emit_iff, and_iff_right h]
  rfl

theorem sound_start_iff (h : w.Sound) (r : StartResults) :
    (w.startTcpServer r).1.Sound ↔ Careful w (.start r) := by
  -- up to the call of `uv_tcp_init`, and behind it
  have hbefore := sound_access_iff h
  have hinit : ∀ ok, ((w.emit .access).emit (.uvTcpInit ok)).Sound ↔
      .free ∉ w.log ∧ registered w.log = false := by
    intro ok
    rw [sound_emit_iff, hbefore, Allowed, emit_log, registered_snoc]
    rfl
  have hafter : ∀ ok, (((w.emit .access).emit (.uvTcpInit ok)).emit .access).Sound ↔
      .free ∉ w.log ∧ registered w.log = false := by
    intro ok
    rw [sound_emit_iff, hinit, Allowed, emit_log, emit_log, free_notMem_snoc, free_notMem_snoc]
    exact and_iff_left_of_imp And.left
  have hrunning : ∀ ok, ((((w.emit .access).emit (.uvTcpInit ok)).emit .access).emit .access).Sound ↔
      .free ∉ w.log ∧ registered w.log = false := by
    intro ok
    rw [sound_emit_iff, hafter, Allowed, emit_log, emit_log, emit_log, free_notMem_snoc,
      free_notMem_snoc, free_notMem_snoc]
    exact and_iff_left_of_imp And.left
  rw [startTcpServer, Careful]
  split
  next hstatus =>
    rw [emit_status] at hstatus
    rw [hbefore, and_iff_left fun hs => absurd hs hstatus]
  next hstatus =>
    rw [emit_status] at hstatus
    split
    next haddr => rw [hbefore, and_iff_left fun _ hr => absurd hr haddr]
    next haddr =>
      have hcalls : (w.status = .init → r.ip4Addr = 0 → registered w.log = false) ↔
          registered w.log = false :=
        ⟨fun hc => hc (Decidable.not_not.mp hstatus) (Decidable.not_not.mp haddr), fun hc _ _ => hc⟩
      rw [hcalls]
      split
      · exact hinit _
      split
      · exact hinit _
      split
      · exact hafter _
      · exact hrunning _

theorem sound_stop_iff (h : w.Sound) (cb : Bool) :
    (w.stopTcpServer cb).1.Sound ↔ Careful w (.stop cb) := by
  rw [stopTcpServer, Careful]
  split
  next hstatus =>
    rw [emit_status] at hstatus
    rw [sound_access_iff h, and_iff_left fun hs => absurd hs hstatus]
  next hstatus =>
    rw [emit_status] at hstatus
    have hcloses : (w.status = .running → unclosed w.log = true) ↔ unclosed w.log = true :=
      ⟨fun hc => hc (Decidable.not_not.mp hstatus), fun hc _ => hc⟩
    rw [hcloses, ← sound_access_iff h]
    refine sound_emit_iff.trans (and_congr_right fun _ => ?_)
    rw [Allowed, emit_log, unclosed_snoc]
    rfl

theorem sound_destroy_iff (h : w.Sound) : w.destroyTcpServer.1.Sound ↔ Careful w .destroy := by
  rw [destroyTcpServer, Careful]
  split
  next hstatus =>
    rw [emit_status] at hstatus
    rw [sound_access_iff h, and_iff_left fun hs => absurd hstatus hs]
  next hstatus =>
    rw [emit_status] at hstatus
    have hfrees : (w.status ≠ .running → registered w.log = false) ↔ registered w.log = false :=
      ⟨fun hc => hc hstatus, fun hc _ => hc⟩
    rw [hfrees, ← sound_access_iff h]
    refine sound_emit_iff.trans (and_congr_right fun _ => ?_)
    rw [Allowed, emit_log, registered_snoc]
    rfl

theorem sound_close_iff (h : w.Sound) : w.serverSocketCloseCb.Sound ↔ .free ∉ w.log := by
  have hclosed : (w.emit .uvClosed).Sound := sound_emit_iff.mpr ⟨h, trivial⟩
  refine (sound_access_iff hclosed).trans ?_
  simp

/-- A step goes well just when it is a careful one. -/
theorem sound_step_iff (h : w.Sound) (hs : Step w e u) : u.Sound ↔ Careful w e := by
  cases hs with
  | init _ => exact sound_access_iff h
  | start _ r => exact sound_start_iff h r
  | stop _ cb => exact sound_stop_iff h cb
  | destroy _ => exact sound_destroy_iff h
  | close _ _ _ => exact sound_close_iff h
  | closed _ => exact sound_access_iff h

theorem Step.unique (h : Step w e u) (h' : Step w e u') : u' = u := by
  cases h <;> cases h' <;> rfl

end Steps

/-- **The listener.** In every state of a run the socket and the struct have been
used as they are to be, just when all steps of the run were careful. -/
theorem forall_sound_iff {status : TcpServerStatus} {stopCb : Bool} {es : List Event}
    {w : SmtsTcpServer} (h : Run Step (allocated status stopCb) es w) :
    (∀ es' w', es' <+: es → Run Step (allocated status stopCb) es' w' → w'.Sound) ↔
      Run (fun w e w' => Step w e w' ∧ Careful w e) (allocated status stopCb) es w := by
  refine Run.forall_prefix_iff (P := fun _ w' => w'.Sound) ?_ trivial ?_ h
  · intro w e u u' hs hs'
    exact hs.unique hs'
  · intro es w e u _ hsound hs
    exact sound_step_iff hsound hs

/-! ## Callers -/

/-- What a caller can keep to: to make no call after it has destroyed the server,
to initialise it only while it is stopped, to stop it once, and neither to start
nor to destroy it from `stop_cb`; and no start may fail half-way. -/
def Orderly (w : SmtsTcpServer) : Event → Prop
  | .init => .free ∉ w.log ∧ registered w.log = false
  | .start r => .free ∉ w.log ∧ w.closeCb = none ∧ (r.tcpInit = 0 → r.bind = 0 ∧ r.listen = 0)
  | .stop _ => .free ∉ w.log ∧ unclosed w.log = true
  | .destroy => .free ∉ w.log ∧ w.closeCb = none
  | .close => True
  | .closed => True

/-- The status tells whether the socket is registered. -/
structure Tracked (w : SmtsTcpServer) : Prop where
  running : registered w.log = true → w.status = .running
  inside : w.closeCb ≠ none → registered w.log = false ∧ .free ∉ w.log
  freed : .free ∈ w.log → registered w.log = false

section Callers

variable {w u : SmtsTcpServer} {e : Event}

theorem Tracked.allocated (status : TcpServerStatus) (stopCb : Bool) :
    Tracked (allocated status stopCb) where
  running h := by cases h
  inside h := absurd rfl h
  freed _ := rfl

theorem Tracked.unregistered (h : Tracked w) (hstatus : w.status ≠ .running) :
    registered w.log = false :=
  Bool.eq_false_iff.mpr fun hr => hstatus (h.running hr)

theorem Tracked.careful (h : Tracked w) (hs : Step w e u) (ho : Orderly w e) : Careful w e := by
  cases hs with
  | init _ => exact ho.1
  | start _ r =>
      refine ⟨ho.1, fun hstatus _ => h.unregistered ?_⟩
      rw [hstatus]
      decide
  | stop _ cb => exact ⟨ho.1, fun _ => ho.2⟩
  | destroy _ => exact ⟨ho.1, h.unregistered⟩
  | close _ hregistered _ =>
      intro hfree
      rw [h.freed hfree] at hregistered
      cases hregistered
  | closed hinside => exact (h.inside hinside).2

theorem Tracked.of_unregistered (hregistered : registered w.log = false)
    (hfree : w.closeCb ≠ none → .free ∉ w.log) : Tracked w where
  running h := by
    rw [hregistered] at h
    cases h
  inside h := ⟨hregistered, hfree h⟩
  freed _ := hregistered

/-- Calls that do no more than look at the struct. -/
theorem Tracked.access (h : Tracked w) : Tracked (w.emit .access) where
  running hr := h.running (by simpa using hr)
  inside hc := by simpa using h.inside hc
  freed hf := by simpa using h.freed (by simpa using hf)

theorem Tracked.start (h : Tracked w) {r : StartResults} (ho : Orderly w (.start r)) :
    Tracked (w.startTcpServer r).1 := by
  obtain ⟨hfree, houtside, hresults⟩ := ho
  rw [startTcpServer]
  split
  next => exact h.access
  next hstatus =>
    rw [emit_status] at hstatus
    have hregistered : registered w.log = false := by
      refine h.unregistered ?_
      rw [Decidable.not_not.mp hstatus]
      decide
    split
    next => exact h.access
    next =>
      split
      next htcp => exact .of_unregistered (by simp [-List.append_assoc, htcp, hregistered]) (absurd houtside)
      next htcp =>
        obtain ⟨hbind, hlisten⟩ := hresults (Decidable.not_not.mp htcp)
        rw [if_neg (not_not_intro hbind), if_neg (not_not_intro hlisten)]
        exact ⟨fun _ => rfl, (absurd houtside ·), fun hf => absurd (by simpa using hf) hfree⟩

theorem Tracked.stop (h : Tracked w) (cb : Bool) : Tracked (w.stopTcpServer cb).1 := by
  rw [stopTcpServer]
  split
  next => exact h.access
  next hstatus =>
    rw [emit_status] at hstatus
    refine ⟨fun _ => Decidable.not_not.mp hstatus, fun hc => ?_, fun hf => ?_⟩
    · simpa [-List.append_assoc] using h.inside hc
    · simpa [-List.append_assoc] using h.freed (by simpa using hf)

theorem Tracked.destroy (h : Tracked w) (ho : Orderly w .destroy) :
    Tracked w.destroyTcpServer.1 := by
  rw [destroyTcpServer]
  split
  next => exact h.access
  next hstatus =>
    have hregistered := h.unregistered hstatus
    exact .of_unregistered (by simpa [-List.append_assoc] using hregistered) (absurd ho.2)

theorem Tracked.step (h : Tracked w) (hs : Step w e u) (ho : Orderly w e) : Tracked u := by
  cases hs with
  | init _ =>
      exact .of_unregistered (by simpa [initTcpServer] using ho.2) fun _ => by
        simpa [initTcpServer] using ho.1
  | start _ r => exact h.start ho
  | stop _ cb => exact h.stop cb
  | destroy _ => exact h.destroy ho
  | close _ hregistered _ =>
      have hfree : .free ∉ w.log := fun hf => by
        rw [h.freed hf] at hregistered
        cases hregistered
      exact .of_unregistered (by simp [serverSocketCloseCb, -List.append_assoc]) fun _ => by
        simpa [serverSocketCloseCb] using hfree
  | closed hinside =>
      have hregistered := (h.inside hinside).1
      exact .of_unregistered (by simpa [serverSocketClosed] using hregistered) (absurd rfl)

/-- Whatever an orderly caller does, every access is to a struct that is there. -/
theorem sound_of_orderly {status : TcpServerStatus} {stopCb : Bool} {es : List Event}
    (h : Run (fun w e w' => Step w e w' ∧ Orderly w e) (SmtsTcpServer.allocated status stopCb) es w) :
    w.Sound := by
  have hinv : Tracked w ∧ w.Sound := by
    refine h.invariant (I := fun w => Tracked w ∧ w.Sound) ?_ ⟨.allocated status stopCb, trivial⟩
    rintro w e u ⟨ht, hsound⟩ ⟨hs, ho⟩
    exact ⟨ht.step hs ho, (sound_step_iff hsound hs).mpr (ht.careful hs ho)⟩
  exact hinv.2

end Callers

/-- `uv_ip4_addr`, `uv_tcp_init`, `uv_tcp_bind` and `uv_listen` return 0. -/
def ok : StartResults := ⟨0, 0, 0, 0⟩

/-- A server that is started, stopped and destroyed. -/
theorem forall_sound_iff_lifecycle : ∃ w, Run Step (allocated .uninit false)
    [.init, .start ok, .stop false, .close, .closed, .destroy] w ∧ w.Sound := by
  have hempty : Run (fun w e w' => Step w e w' ∧ Careful w e) (allocated .uninit false) [] _ := .refl
  have hstarted := (hempty.snoc ⟨.init (by decide), by decide⟩).snoc
    ⟨.start (by decide) ok, by decide⟩
  have hclosed := ((hstarted.snoc ⟨.stop (by decide) false, by decide⟩).snoc
    ⟨.close rfl rfl rfl, by decide⟩).snoc ⟨.closed (by decide), by decide⟩
  have hcareful := hclosed.snoc ⟨.destroy (by decide), by decide⟩
  have h := hcareful.mono fun _ _ _ hs => hs.1
  exact ⟨_, h, (forall_sound_iff h).mpr hcareful _ _ (List.prefix_refl _) h⟩

/-- The port is in use, and the server is destroyed. -/
theorem not_sound_bindFails : ¬ ∀ status stopCb es w,
    Run Step (allocated status stopCb) es w → w.Sound := by
  intro hall
  have hinit : Run Step (allocated .uninit false) [.init] _ := .single (.init (by decide))
  have hstart := hinit.snoc (.start (by decide) ⟨0, 0, -98, 0⟩)
  have hsound := hall _ _ _ _ (hstart.snoc (.destroy (by decide)))
  obtain ⟨-, -, -, -, hfree, -⟩ := hsound
  cases hfree

end SmtsTcpServer

end Smts
