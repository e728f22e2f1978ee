import Smts.Server.Rings

/-!
# Server — the handles of a session

What happens to the two handles in a session's memory: the DVR's socket is
initialised once with the session and once more when it is connected, and no
way out of a session closes the timer. So nothing is right with the handles
of any session.
-/

namespace Smts

open Circular

/-! ## The life of a handle -/

/-- A handle is initialised at most once before it is closed, and closed at
most once. -/
structure HandleOk (log : List Obs) (h : Handle) : Prop where
  init : ∀ pre, pre <+: log → .uvClose h ∉ pre → pre.count (.uvInit h) ≤ 1
  close : log.count (.uvClose h) ≤ 1

/-- So are both of a session's, and its memory is given back when neither is
registered any more. -/
structure HandlesOk (log : List Obs) (s : Nat) : Prop where
  dvr : HandleOk log (.dvr s)
  timer : HandleOk log (.timer s)
  free : ∀ pre, pre ++ [.free (.session s)] <+: log → ∀ h ∈ [Handle.dvr s, .timer s],
    .uvInit h ∉ pre ∨ .uvClosed h ∈ pre

theorem HandlesOk.mono {log log' : List Obs} {s : Nat} (h : HandlesOk log' s)
    (hpre : log <+: log') : HandlesOk log s where
  dvr := ⟨fun pre hp => h.dvr.init pre (hp.trans hpre), (hpre.sublist.count_le _).trans h.dvr.close⟩
  timer :=
    ⟨fun pre hp => h.timer.init pre (hp.trans hpre), (hpre.sublist.count_le _).trans h.timer.close⟩
  free pre hp := h.free pre (hp.trans hpre)

/-- Nothing has happened to the handles of `s`. -/
def Unhandled (log : List Obs) (s : Nat) : Prop := ∀ o ∈ log, o.session? ≠ some s

section Unhandled

variable {log : List Obs} {s : Nat}

theorem Unhandled.notMem (h : Unhandled log s) {o : Obs} (ho : o.session? = some s) : o ∉ log :=
  fun hmem => h o hmem ho

theorem Unhandled.append (h : Unhandled log s) {m : List Obs} (hm : Unhandled m s) :
    Unhandled (log ++ m) s := fun o ho =>
  (List.mem_append.mp ho).elim (h o) (hm o)

theorem Unhandled.handleOk (h : Unhandled log s) {x : Handle}
    (hinit : (Obs.uvInit x).session? = some s) (hclose : (Obs.uvClose x).session? = some s) :
    HandleOk log x where
  init _ hpre _ := by
    rw [List.count_eq_zero.mpr fun hmem => h.notMem hinit (hpre.subset hmem)]
    exact Nat.zero_le _
  close := by
    rw [List.count_eq_zero.mpr (h.notMem hclose)]
    exact Nat.zero_le _

theorem Unhandled.handlesOk (h : Unhandled log s) : HandlesOk log s where
  dvr := h.handleOk rfl rfl
  timer := h.handleOk rfl rfl
  free _ hpre :=
    absurd (hpre.subset (List.mem_append_right _ (List.mem_singleton_self _))) (h.notMem rfl)

/-- What `media_client_start_preview` does first of all to a new session. -/
def startLog (c s : Nat) : List Obs := [.uvInit (.timer s), .attach c s, .uvInit (.dvr s)]

/-- The session is freed while its handles are registered. -/
theorem Unhandled.not_handlesOk_freed (h : Unhandled log s) (c : Nat) :
    ¬ HandlesOk (log ++ startLog c s ++ [.free (.session s)]) s := by
  intro hok
  have hclosed : Obs.uvClosed (.dvr s) ∉ log := h.notMem rfl
  rcases hok.free _ List.prefix_rfl (.dvr s) (by simp) with hinit | hdone
  · simp [startLog] at hinit
  · simp [startLog, hclosed] at hdone

/-- The start of a session in which the DVR's socket is initialised twice is not
in order. -/
theorem Unhandled.not_handlesOk_twice (h : Unhandled log s) (c : Nat) :
    ¬ HandlesOk (log ++ startLog c s ++ [.uvInit (.dvr s)]) s := by
  intro hok
  have hclose : Obs.uvClose (.dvr s) ∉ log := h.notMem rfl
  have hinit := hok.dvr.init _ List.prefix_rfl (by simp [startLog, hclose])
  simp [startLog, List.count_append] at hinit

end Unhandled

namespace Server

/-! ## What a callback does to the handles -/

/-- Of all sessions' handles only those of `t` are touched. -/
structure Handles (t : Option Nat) (w w' : Server) : Prop where
  nSessions : w'.nSessions = w.nSessions
  closing : ∀ s, t ≠ some s → (w'.sessions s).dvr.closing = (w.sessions s).dvr.closing
  log : ∃ m, w'.log = w.log ++ m ∧ ∀ s, t ≠ some s → Unhandled m s

section Handles

variable {t : Option Nat} {S : Scope} {w₀ w w' : Server}

theorem Handles.of_log_eq (hn : w'.nSessions = w.nSessions) (hs : w'.sessions = w.sessions)
    (hlog : w'.log = w.log) : Handles t w w' :=
  ⟨hn, fun s _ => by rw [hs], [], by rw [hlog, List.append_nil], fun _ _ _ ho => nomatch ho⟩

theorem Handles.trans {a b c : Server} (h : Handles t a b) (h' : Handles t b c) :
    Handles t a c := by
  obtain ⟨m, hm, hmo⟩ := h.log
  obtain ⟨m', hm', hmo'⟩ := h'.log
  refine ⟨h'.nSessions.trans h.nSessions, fun s hs => (h'.closing s hs).trans (h.closing s hs),
    m ++ m', by rw [hm', hm, List.append_assoc], fun s hs => (hmo s hs).append (hmo' s hs)⟩

theorem Handles.snoc {o : Obs} (ho : ∀ s, o.session? = some s → t = some s)
    (hn : w'.nSessions = w.nSessions) (hs : w'.sessions = w.sessions)
    (hlog : w'.log = w.log ++ [o]) : Handles t w w' := by
  refine ⟨hn, fun s _ => by rw [hs], [o], hlog, fun s hs o' hmem hsome => ?_⟩
  obtain rfl := List.mem_singleton.mp hmem
  exact hs (ho s hsome)

theorem Handles.emit (w : Server) {o : Obs} (ho : ∀ s, o.session? = some s → t = some s) :
    Handles t w (w.emit o) :=
  .snoc ho rfl rfl rfl

theorem Handles.setSession (w : Server) (s : Nat) (x : SmtsSession)
    (hx : t = some s ∨ x.dvr.closing = (w.sessions s).dvr.closing) :
    Handles t w (w.setSession s x) := by
  refine ⟨rfl, fun s' hs => ?_, [], (List.append_nil _).symm, fun _ _ _ ho => nomatch ho⟩
  by_cases hss : s' = s
  · subst hss
    rw [setSession_sessions, Function.update_self, hx.resolve_left hs]
  · rw [setSession_sessions, Function.update_of_ne hss]

theorem Handles.addSmtsClient (w : Server) (s c : Nat) : Handles t w (w.addSmtsClient s c) := by
  let x : SmtsSession := { w.sessions s with clientSize := (w.sessions s).clientSize + 1 }
  exact (setSession w s x (.inr rfl)).trans (.snoc (o := .attach c s) (by rintro s ⟨⟩) rfl rfl rfl)

theorem Handles.protoCmdDestroy (w : Server) (p : Nat) : Handles t w (w.protoCmdDestroy p) := by
  refine ⟨rfl, fun _ _ => rfl, _, rfl, fun s _ o hmem => ?_⟩
  obtain ⟨x, -, rfl⟩ := List.mem_map.mp hmem
  cases x <;> simp [Freed.obj, Obs.session?]

theorem Handles.destroySmtsFrame (w : Server) (f : Nat) : Handles t w (w.destroySmtsFrame f) :=
  (protoCmdDestroy w _).trans (emit _ (by rintro s ⟨⟩))

theorem Handles.onSmtsClientSendFrame {p : Nat} (h : w.onSmtsClientSendFrame p = some w') :
    Handles t w w' := by
  have hset : Handles t w (w.setCmd p { w.cmds p with ref := (w.cmds p).ref - 1 }) :=
    .of_log_eq rfl rfl rfl
  obtain ⟨-, rfl⟩ | ⟨-, f, -, rfl⟩ := onSmtsClientSendFrame_cases h
  · exact hset
  · exact hset.trans ((protoCmdDestroy _ p).trans (destroySmtsFrame _ f))

theorem Handles.tcpClientSendMsg {target : Target} {p : Nat} {cb : SendCb} {r : Int}
    (h : w.tcpClientSendMsg target p cb = (w', r)) : Handles t w w' := by
  have hlog := tcpClientSendMsg_log h
  have hn := (MemOnly.tcpClientSendMsg h).toSameNet
  refine ⟨hn.nSessions, fun s _ => by rw [hn.sessions], _, hlog, fun s _ o hmem => ?_⟩
  obtain rfl := List.mem_singleton.mp hmem
  simp [Obs.session?]

theorem Handles.stopSmtsClient (w : Server) (c : Nat) : Handles t w (w.stopSmtsClient c) := by
  have hlog : ∀ s, Unhandled [.stop c, .uvClose (.client c)] s := fun s o hmem => by
    rcases List.mem_pair.mp hmem with rfl | rfl <;> simp [Obs.session?]
  obtain ⟨-, h⟩ | ⟨-, -, h⟩ | ⟨-, s, -, h⟩ := stopSmtsClient_cases w c <;> rw [h]
  · exact .of_log_eq rfl rfl rfl
  · exact ⟨rfl, fun _ _ => rfl, _, rfl, fun s _ => hlog s⟩
  · refine ⟨rfl, fun s' _ => ?_, _, rfl, fun s _ => hlog s⟩
    by_cases hs : s' = s
    · subst hs
      simp [SmtsSession.leave]
    · simp [Function.update_of_ne hs]

/-- An action that starts no session touches the handles of at most one, the one
that may end. -/
theorem Action.handles (hjoin : S.join = none) (ha : Action S w₀ w w') :
    Handles S.exit w w' := by
  have hjoin' : S.join ≠ none → False := fun hne => hne hjoin
  cases ha with
  | uvCall hr =>
      obtain ⟨rfl, -⟩ := Prod.mk.inj hr
      exact .of_log_eq rfl rfl rfl
  | emit _ _ ho _ => exact .emit w fun s hs => (ho s hs).resolve_left hjoin'
  | encodeNew _ _ _ hr =>
      have hn := (MemOnly.encodeNew hr).toSameNet
      exact .of_log_eq hn.nSessions hn.sessions (encodeNew_log hr)
  | receive _ => exact .of_log_eq rfl rfl rfl
  | drop bytes =>
      exact .snoc (o := .free (.block (w.heap.receive bytes).2)) (by rintro s ⟨⟩) rfl rfl rfl
  | addFrame _ _ => exact .of_log_eq rfl rfl rfl
  | increaseRef _ => exact .of_log_eq rfl rfl rfl
  | addRef _ _ => exact .of_log_eq rfl rfl rfl
  | destroy _ => exact .protoCmdDestroy w _
  | dropRef _ hr => exact .onSmtsClientSendFrame hr
  | destroyFrame _ _ => exact .destroySmtsFrame w _
  | send _ _ _ _ hr => exact .tcpClientSendMsg hr
  | sendPreviewRes _ _ _ hr =>
      have h := Handles.tcpClientSendMsg (t := S.exit) hr
      exact ⟨h.nSessions, h.closing, h.log⟩
  | complete _ _ _ => exact .of_log_eq rfl rfl rfl
  | @previewResDone k req c _ _ _ _ =>
      have h := (Handles.protoCmdDestroy (t := S.exit) (w.eraseWrite k) req.packet).trans
        (.emit _ (o := .previewResDone c) (by rintro s ⟨⟩))
      exact ⟨h.nSessions, h.closing, h.log⟩
  | relay _ ho => obtain ⟨s, f, rfl⟩ | ⟨c, f, rfl⟩ | ⟨c, p, rfl, -⟩ := ho <;> exact .emit _ (by rintro t ⟨⟩)
  | stop _ => exact .stopSmtsClient w _
  | touch ht => exact .setSession w _ _ (ht.exit.imp_right fun h => h.2.1)
  | delete hr =>
      obtain ⟨⟨m, r⟩, -, hr⟩ := Option.bind_eq_some_iff.mp hr
      obtain rfl := Option.some.inj hr
      exact .of_log_eq rfl rfl rfl
  | initClient _ =>
      exact .snoc (o := .uvInit (.client w.nClients)) (by rintro s ⟨⟩) rfl rfl rfl
  | startRead _ c => exact .of_log_eq rfl rfl rfl
  | @close _ c _ => exact .snoc (o := .uvClose (.client c)) (by rintro s ⟨⟩) rfl rfl rfl
  | @closed c _ =>
      have h : Handles S.exit w (w.emit (.uvClosed (.client c))) := .emit w (by rintro s ⟨⟩)
      exact h.trans (.snoc (o := .free (.client c)) (by rintro s ⟨⟩) rfl rfl rfl)
  | initSession hne _ => exact (hjoin' hne).elim
  | attach hS _ => exact (hjoin' (by simp [hS])).elim
  | manage hne _ => exact (hjoin' hne).elim
  | abort hS _ => exact (hjoin' (by simp [hS])).elim

theorem Does.handles (hjoin : S.join = none) (hd : Does S w₀ w) : Handles S.exit w₀ w := by
  induction hd with
  | start => exact .of_log_eq rfl rfl rfl
  | step _ ha ih => exact ih.trans (ha.handles hjoin)

end Handles

/-! ## Whole runs -/

/-- The handles of every session so far are mishandled. -/
structure Mishandled (w : Server) : Prop where
  closing : ∀ s, w.nSessions ≤ s → (w.sessions s).dvr.closing = false
  unhandled : ∀ s, w.nSessions ≤ s → Unhandled w.log s
  started : ∀ s < w.nSessions, ¬ HandlesOk w.log s

section Runs

variable {w w' : Server} {t : Option Nat}

theorem init_mishandled (uv : Nat → Int) (garbage : Nat → Values NvmpName) :
    Mishandled (init uv garbage) where
  closing _ _ := rfl
  unhandled _ _ _ ho := nomatch ho
  started s hs := absurd hs (Nat.not_lt_zero s)

/-- A part of a callback that starts no session leaves the started ones
mishandled. -/
theorem Mishandled.handles (h : Mishandled w) (hh : Handles t w w')
    (ht : ∀ s, t = some s → s < w.nSessions) : Mishandled w' := by
  obtain ⟨m, hm, hmo⟩ := hh.log
  have hne : ∀ s, w.nSessions ≤ s → t ≠ some s := fun s hs hts => by
    have := ht s hts
    omega
  refine ⟨fun s hs => ?_, fun s hs => ?_, fun s hs hok => ?_⟩ <;> rw [hh.nSessions] at hs
  · rw [hh.closing s (hne s hs), h.closing s hs]
  · rw [hm]
    exact (h.unhandled s hs).append (hmo s (hne s hs))
  · exact h.started s hs (hok.mono ⟨m, hm.symm⟩)

theorem Mishandled.does {S : Scope} (h : Mishandled w) (hjoin : S.join = none)
    (hexit : ∀ s, S.exit = some s → s < w.nSessions) (hd : Does S w w') : Mishandled w' :=
  h.handles (hd.handles hjoin) hexit

/-- A session is added whose handles are not in order. -/
theorem Mishandled.push (h : Mishandled w) (c : Nat) {m : List Obs}
    (hn : w'.nSessions = w.nSessions + 1)
    (hs : ∀ s, s ≠ w.nSessions → w'.sessions s = w.sessions s)
    (hlog : w'.log = w.log ++ startLog c w.nSessions ++ m)
    (hm : ∀ o ∈ m, o.session? = some w.nSessions)
    (hbad : [.free (.session w.nSessions)] <+: m ∨ [.uvInit (.dvr w.nSessions)] <+: m) :
    Mishandled w' := by
  have hnew := h.unhandled w.nSessions le_rfl
  have hstart : ∀ o ∈ startLog c w.nSessions, ∀ s, o.session? = some s → s = w.nSessions := by
    simp [startLog, Obs.session?, eq_comm]
  refine ⟨fun s hle => ?_, fun s hle o ho hsess => ?_, fun s hlt hok => ?_⟩
  · rw [hs s (by omega), h.closing s (by omega)]
  · rw [hlog, List.append_assoc, List.mem_append, List.mem_append] at ho
    rcases ho with ho | ho | ho
    · exact h.unhandled s (by omega) o ho hsess
    · have := hstart o ho s hsess
      omega
    · obtain rfl := Option.some.inj (hsess.symm.trans (hm o ho))
      omega
  · rcases Nat.lt_or_eq_of_le (Nat.le_of_lt_succ (hn ▸ hlt)) with hlt | rfl
    · refine h.started s hlt (hok.mono ?_)
      rw [hlog, List.append_assoc]
      exact List.prefix_append ..
    · rw [hlog] at hok
      rcases hbad with hpre | hpre
      · exact hnew.not_handlesOk_freed c (hok.mono ((List.prefix_append_right_inj _).mpr hpre))
      · exact hnew.not_handlesOk_twice c (hok.mono ((List.prefix_append_right_inj _).mpr hpre))

theorem Mishandled.starts (h : Mishandled w) {fuel c : Nat} {key : SessionKey} {r : Int}
    (hstart : Starts fuel ((w.initMediaSession key).addSmtsClient w.nSessions c) w.nSessions c w' r) :
    Mishandled w' := by
  -- what all four ways have in common: the timer, the client, the first `uv_tcp_init`
  have hinit : ∀ {w₁ r},
      ((w.initMediaSession key).addSmtsClient w.nSessions c).initSmtsDvrClient w.nSessions = (w₁, r) →
      w₁.nSessions = w.nSessions + 1 ∧ (∀ s, s ≠ w.nSessions → w₁.sessions s = w.sessions s) ∧
        w₁.log = w.log ++ startLog c w.nSessions := fun hr => by
    have hq := initSmtsDvrClient_quiet hr
    refine ⟨hq.nSessions, fun s hs => ?_, ?_⟩
    · rw [hq.sessions]
      simp [Function.update_of_ne hs]
    · rw [initSmtsDvrClient_log hr]
      simp [startLog]
  cases hstart with
  | initFails hr _ =>
      obtain ⟨hn, hs, hlog⟩ := hinit hr
      refine h.push c (m := [.free (.session w.nSessions)]) hn (fun s hne => ?_) ?_ (by simp [Obs.session?])
        (.inl List.prefix_rfl)
      · simp [Function.update_of_ne hne, hs s hne]
      · simp [hlog]
  | addFails hr _ _ =>
      obtain ⟨hn, hs, hlog⟩ := hinit hr
      refine h.push c (m := [.free (.session w.nSessions)]) hn (fun s hne => ?_) ?_ (by simp [Obs.session?])
        (.inl List.prefix_rfl)
      · simp [Function.update_of_ne hne, hs s hne]
      · simp [hlog]
  | connectFails hr _ hconn _ hdel =>
      obtain ⟨hn, hs, hlog⟩ := hinit hr
      have hlog₂ := tcpClientConnect_log hconn
      obtain ⟨m, rfl⟩ := deleteSession_eq hdel
      obtain ⟨w₂, hq, ⟨-, rfl⟩ | ⟨hz, -⟩⟩ := tcpClientConnect_cases hconn
      · refine h.push c (m := [.uvInit (.dvr w.nSessions), .free (.session w.nSessions)])
          (hq.nSessions.trans hn) (fun s hne => ?_) ?_ (by simp [Obs.session?]) (.inr (by simp))
        · simp [Function.update_of_ne hne, hq.sessions, hs s hne]
        · simp [hlog₂, hlog]
      · contradiction
  | connects hr _ hconn =>
      obtain ⟨hn, hs, hlog⟩ := hinit hr
      have hlog₂ := tcpClientConnect_log hconn
      obtain ⟨w₂, hq, ⟨hne, -⟩ | ⟨-, rfl⟩⟩ := tcpClientConnect_cases hconn
      · contradiction
      · refine h.push c (m := [.uvInit (.dvr w.nSessions)]) (hq.nSessions.trans hn) (fun s hne => ?_)
          (by rw [hlog₂, hlog]) (by simp [Obs.session?]) (.inr List.prefix_rfl)
        simp [Function.update_of_ne hne, hq.sessions, hs s hne]

theorem Mishandled.mediaClientStartPreview (h : Mishandled w) {fuel c : Nat} {key : SessionKey}
    {r : Int} (hr : w.mediaClientStartPreview fuel c key = some (w', r)) : Mishandled w' := by
  obtain ⟨found, hget, -⟩ := Option.bind_eq_some_iff.mp hr
  cases found with
  | none => exact h.starts (mediaClientStartPreview_new hget hr)
  | some s =>
      obtain ⟨-, hres⟩ := mediaClientStartPreview_found hget hr
      have hd := (Does.start (S := {})).smtsClientSendPreviewRes (.inl trivial) hres
      exact (h.handles (t := none) (.addSmtsClient w s c) (by rintro s ⟨⟩)).does rfl (by rintro s ⟨⟩) hd

theorem Mishandled.dispatchPreview (h : Mishandled w) {fuel c : Nat} {bytes : List Byte}
    {junk : Int → Byte} (hprev : (Event.packet c bytes junk).preview = some c)
    (hr : w.dispatchPacket fuel c bytes junk = some w') : Mishandled w' := by
  obtain ⟨t, w₁, hstart, rfl⟩ := dispatchPacket_preview hprev hr
  have hreceive : Handles none w ((w.setHeap (w.heap.receive bytes).1).addCmd t) :=
    .of_log_eq rfl rfl rfl
  obtain ⟨w₂, r, hmedia, hcase⟩ := smtsStartPreview_cases hstart
  have h₂ := (h.handles hreceive (by rintro s ⟨⟩)).mediaClientStartPreview hmedia
  refine Mishandled.handles (t := none) ?_ (.protoCmdDestroy w₁ w.nCmds) (by rintro s ⟨⟩)
  obtain ⟨-, rfl⟩ | ⟨-, w₃, w₄, r', henc, hsend, hw⟩ := hcase
  · exact h₂
  · have hd := (Does.start (S := {})).errorPreviewRes (c := c) (.inl trivial) henc
    rw [hsend] at hd
    rcases hw with rfl | rfl
    · exact h₂.does rfl (by rintro s ⟨⟩) hd.1
    · exact h₂.does rfl (by rintro s ⟨⟩) hd.2

/-- Only a preview request is about a new session. -/
theorem Mishandled.stepHandles (h : Mishandled w) {e : Event} (hprev : e.preview = none)
    (hstep : Step w e w') : ∃ t, Handles t w w' ∧ ∀ s, t = some s → s < w.nSessions := by
  obtain ⟨hen, fuel, hr⟩ := hstep
  refine ⟨_, (handle_does_any hen hr).handles ?_, fun s hs => ?_⟩
  · cases e <;> first | rfl | exact hprev
  · cases e with
    | timer t =>
        obtain rfl := Option.some.inj hs
        exact hen.1
    | dvrClosed t =>
        obtain rfl := Option.some.inj hs
        by_contra hlt
        have := h.closing t (not_lt.mp hlt)
        rw [hen.1] at this
        cases this
    | _ => cases hs

theorem Mishandled.step (h : Mishandled w) {e : Event} (hstep : Step w e w') : Mishandled w' := by
  cases hprev : e.preview with
  | some c =>
      obtain ⟨bytes, junk, rfl⟩ := Event.preview_eq_some hprev
      obtain ⟨-, fuel, hr⟩ := hstep
      exact h.dispatchPreview hprev hr
  | none =>
      obtain ⟨t, hh, ht⟩ := h.stepHandles hprev hstep
      exact h.handles hh ht

end Runs

theorem mishandled_of_run {uv : Nat → Int} {garbage : Nat → Values NvmpName} {es : List Event}
    {w : Server} (h : Transition.Run Step (init uv garbage) es w) : Mishandled w :=
  h.invariant (fun _ _ _ h hstep => h.step hstep) (init_mishandled uv garbage)

/-- **No session's handles are in order**: of all there could be, only those
of sessions that were never started. -/
theorem handlesOk_iff {uv : Nat → Int} {garbage : Nat → Values NvmpName} {es : List Event}
    {w : Server} (h : Transition.Run Step (init uv garbage) es w) (s : Nat) :
    HandlesOk w.log s ↔ w.nSessions ≤ s := by
  have hw := mishandled_of_run h
  constructor
  · intro hok
    by_contra hlt
    exact hw.started s (not_le.mp hlt) hok
  · intro hle
    exact (hw.unhandled s hle).handlesOk

/-- After a preview request the handles of the first session are not in order,
those of a second one untouched. -/
theorem handlesOk_iff_preview0 :
    ∃ w, connected0.handle 2 preview0 = some w ∧ w.nSessions = 1 ∧
      ¬ HandlesOk w.log 0 ∧ HandlesOk w.log 1 := by
  obtain ⟨w, hw⟩ : ∃ w, connected0.handle 2 preview0 = some w :=
    Option.isSome_iff_exists.mp (by decide +kernel)
  have hval : (connected0.handle 2 preview0).map (·.nSessions) = some 1 := by decide +kernel
  rw [hw, Option.map_some, Option.some.injEq] at hval
  have hrun : Transition.Run Step (init (fun _ => 0) fun _ => Values.zero) [.connection, preview0] w :=
    .snoc (.snoc .refl connected0_step) ⟨connected0_enabled, 2, hw⟩
  exact ⟨w, hw, hval, fun hok => absurd ((handlesOk_iff hrun 0).mp hok) (by omega),
    (handlesOk_iff hrun 1).mpr hval.le⟩

/-- One client asks for one preview, and the DVR's socket is initialised twice. -/
theorem not_handlesOk_preview0 :
    ∃ w, Transition.Run Step (init (fun _ => 0) fun _ => Values.zero) [.connection, preview0] w ∧
      0 < w.nSessions ∧ ¬ HandlesOk w.log 0 := by
  obtain ⟨w, hw⟩ : ∃ w, connected0.handle 2 preview0 = some w :=
    Option.isSome_iff_exists.mp (by decide +kernel)
  have hval : (connected0.handle 2 preview0).map (·.nSessions) = some 1 := by decide +kernel
  rw [hw, Option.map_some, Option.some.injEq] at hval
  have hrun : Transition.Run Step (init (fun _ => 0) fun _ => Values.zero) [.connection, preview0] w :=
    .snoc (.snoc .refl connected0_step) ⟨connected0_enabled, 2, hw⟩
  exact ⟨w, hrun, by omega, (mishandled_of_run hrun).started 0 (by omega)⟩

end Server

end Smts
