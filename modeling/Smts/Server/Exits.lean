import Smts.Server.Dvrs

/-!
# Server — sessions on their way out

A session that nobody is in waits for its timer, or for its DVR's socket to be
closed, and for one of them only. When it is freed nobody refers to it: its
clients have left, its DVR's callbacks have run. This rests on clients that
ask for one preview each and on a manager that does not find what it was told
to delete.
-/

namespace Smts

open Circular

namespace Server

/-! ## What an action does to a session -/

section Actions

variable {S : Scope} {w₀ w w' : Server} {s : Nat}

/-- The session `s` is as it was, as far as its end is concerned, or one of its
clients has left. -/
inductive Stays (w : Server) (s : Nat) (y : SmtsSession) : Prop where
  | kept (size : y.clientSize = (w.sessions s).clientSize)
      (timer : y.waitExitTimer = (w.sessions s).waitExitTimer)
      (closing : y.dvr.closing = (w.sessions s).dvr.closing)
      (freed : y.freed = (w.sessions s).freed)
  | left {c : Nat} (hc : (w.clients c).session = some s) (hy : y = (w.sessions s).leave)

/-- What an action that starts no session, and ends not this one, does to it. -/
structure Action.Meets (S : Scope) (w : Server) (s : Nat) (w' : Server) : Prop where
  stays : Stays w s (w'.sessions s)
  dvr : S.dvr = some s ∨
    ((w'.sessions s).dvr.connecting = true → (w.sessions s).dvr.connecting = true) ∧
      ((w'.sessions s).dvr.reading = true → (w.sessions s).dvr.reading = true)
  writes : ∀ req ∈ w'.writes, req.client = .dvr s →
    req ∈ w.writes ∨ S.dvr = some s ∨ ∃ c, (w.clients c).session = some s

theorem Action.Meets.of_eq (hs : w'.sessions s = w.sessions s)
    (hw : ∀ req ∈ w'.writes, req.client = .dvr s → req ∈ w.writes) : Action.Meets S w s w' where
  stays := by
    rw [hs]
    exact .kept rfl rfl rfl rfl
  dvr := .inr (by rw [hs]; exact ⟨id, id⟩)
  writes req hreq heq := .inl (hw req hreq heq)

/-- An action that changes neither the net nor the writes does nothing to a
session. -/
theorem Action.Meets.of_sameNet (h : SameNet w w') (hw : w'.writes = w.writes) :
    Action.Meets S w s w' :=
  .of_eq (by rw [h.sessions]) fun _ hreq _ => hw ▸ hreq

theorem Action.meets (hjoin : S.join = none) (hexit : S.exit ≠ some s) (ha : Action S w₀ w w') :
    Action.Meets S w s w' := by
  have hjoin' : S.join ≠ none → False := fun hne => hne hjoin
  cases ha with
  | uvCall hr =>
      obtain ⟨rfl, -⟩ := Prod.mk.inj hr
      exact .of_eq rfl fun _ hreq _ => hreq
  | emit _ _ _ _ => exact .of_eq rfl fun _ hreq _ => hreq
  | encodeNew _ _ _ hr => exact .of_sameNet (MemOnly.encodeNew hr).toSameNet (encodeNew_writes hr)
  | receive _ => exact .of_eq rfl fun _ hreq _ => hreq
  | drop _ => exact .of_eq rfl fun _ hreq _ => hreq
  | addFrame _ _ => exact .of_eq rfl fun _ hreq _ => hreq
  | increaseRef _ => exact .of_eq rfl fun _ hreq _ => hreq
  | addRef _ _ => exact .of_eq rfl fun _ hreq _ => hreq
  | destroy _ => exact .of_eq rfl fun _ hreq _ => hreq
  | dropRef _ hr =>
      refine .of_sameNet (MemOnly.onSmtsClientSendFrame hr).toSameNet ?_
      obtain ⟨-, rfl⟩ | ⟨-, f, -, rfl⟩ := onSmtsClientSendFrame_cases hr <;> rfl
  | destroyFrame _ _ => exact .of_eq rfl fun _ hreq _ => hreq
  | @send target _ _ _ _ _ _ ht _ hr =>
      have hn := (MemOnly.tcpClientSendMsg hr).toSameNet
      refine ⟨by rw [hn.sessions]; exact .kept rfl rfl rfl rfl, .inr (by rw [hn.sessions]; exact ⟨id, id⟩),
        fun req hreq heq => ?_⟩
      -- the write is queued only if `uv_write` took it
      obtain ⟨-, rfl⟩ | ⟨-, rfl⟩ := tcpClientSendMsg_cases hr
      · rcases List.mem_append.mp hreq with hreq | hreq
        · exact .inl hreq
        · obtain rfl := List.mem_singleton.mp hreq
          exact .inr (ht s heq)
      · exact .inl hreq
  | sendPreviewRes _ _ _ hr =>
      have hn := (MemOnly.tcpClientSendMsg hr).toSameNet
      refine .of_eq (by rw [hn.sessions]; rfl) fun req hreq heq => ?_
      obtain ⟨-, rfl⟩ | ⟨-, rfl⟩ := tcpClientSendMsg_cases hr
      · rcases List.mem_append.mp hreq with hreq | hreq
        · exact hreq
        · obtain rfl := List.mem_singleton.mp hreq
          cases heq
      · exact hreq
  | complete _ _ _ => exact .of_eq rfl fun _ hreq _ => List.mem_of_mem_eraseIdx hreq
  | previewResDone _ _ _ _ => exact .of_eq rfl fun _ hreq _ => List.mem_of_mem_eraseIdx hreq
  | relay _ _ => exact .of_eq rfl fun _ hreq _ => hreq
  | @stop c _ =>
      obtain ⟨-, h⟩ | ⟨-, -, h⟩ | ⟨-, t, ht, h⟩ := stopSmtsClient_cases w c <;> rw [h]
      · exact .of_eq rfl fun _ hreq _ => hreq
      · exact .of_eq rfl fun _ hreq _ => hreq
      · by_cases hst : s = t
        · subst hst
          refine ⟨.left ht (Function.update_self ..), .inr ?_, fun req hreq _ => .inl hreq⟩
          simp [SmtsSession.leave]
        · exact .of_eq (Function.update_of_ne hst ..) fun _ hreq _ => hreq
  | @touch t x ht =>
      -- only the client's own session notices that it leaves
      by_cases hst : s = t
      · subst hst
        obtain ⟨htimer, hclosing, hfreed⟩ := ht.exit.resolve_left hexit
        refine ⟨?_, ?_, fun req hreq _ => .inl hreq⟩
        · rw [setSession_sessions, Function.update_self]
          exact .kept ht.clientSize htimer hclosing hfreed
        · rw [setSession_sessions, Function.update_self]
          exact ht.dvr.imp_right fun h => h.resolve_left hjoin'
      · exact .of_eq (Function.update_of_ne hst ..) fun _ hreq _ => hreq
  | delete hr =>
      obtain ⟨m, rfl⟩ := deleteSession_eq hr
      exact .of_eq rfl fun _ hreq _ => hreq
  | initClient _ => exact .of_eq rfl fun _ hreq _ => hreq
  | startRead _ _ => exact .of_eq rfl fun _ hreq _ => hreq
  | close _ _ => exact .of_eq rfl fun _ hreq _ => hreq
  | closed _ => exact .of_eq rfl fun _ hreq _ => hreq
  | initSession hne _ => exact (hjoin' hne).elim
  | attach hS _ => exact (hjoin' (by simp [hS])).elim
  | manage hne _ => exact (hjoin' hne).elim
  | abort hS _ => exact (hjoin' (by simp [hS])).elim

end Actions

/-! ## The invariant -/

/-- How the session `s` stands with its end. -/
structure Exits (w : Server) (s : Nat) : Prop where
  idle : (w.sessions s).clientSize = 0 →
    (w.sessions s).waitExitTimer = !(w.sessions s).dvr.closing
  closing : (w.sessions s).dvr.closing = true →
    (w.sessions s).clientSize = 0 ∧ (w.sessions s).waitExitTimer = false
  freed : (w.sessions s).freed = true →
    (w.sessions s).waitExitTimer = false ∧ (w.sessions s).dvr.connecting = false ∧
      ((w.sessions s).dvr.reading = false ∨ (w.sessions s).dvr.closing = true) ∧
      (∀ req ∈ w.writes, req.client ≠ .dvr s) ∧ ∀ c, (w.clients c).session ≠ some s
  closes : w.log.count (.uvClose (.dvr s)) = if (w.sessions s).dvr.closing = true then 1 else 0
  frees : w.log.count (.free (.session s)) = if (w.sessions s).freed = true then 1 else 0

section Exits

variable {A : Nat → Prop} {S : Scope} {w₀ w w' : Server} {s c : Nat} {m : List Obs}

/-- A client that is in a session is counted. -/
theorem RingInv.size_pos (h : RingInv A w) (hc : (w.clients c).session = some s) :
    0 < (w.sessions s).clientSize := by
  obtain ⟨-, -, hs, hA⟩ := h.attached c s hc
  obtain ⟨l, -, hsize, hmem⟩ := h.ring s hs hA
  have hpos := List.length_pos_of_mem ((hmem c).mpr hc)
  omega

theorem count_unhandled (hlog : w'.log = w.log ++ m) (hm : Unhandled m s) {o : Obs}
    (ho : o.session? = some s) : w'.log.count o = w.log.count o := by
  rw [hlog, List.count_append, List.count_eq_zero.mpr (hm.notMem ho), Nat.add_zero]

/-- A callback that does not come near the session leaves its end as it was. -/
theorem Exits.congr (h : Exits w s) (hs : w'.sessions s = w.sessions s)
    (hw : ∀ req ∈ w'.writes, req.client = .dvr s → req ∈ w.writes)
    (hc : ∀ c, (w'.clients c).session = some s → (w.clients c).session = some s)
    (hlog : w'.log = w.log ++ m) (hm : Unhandled m s) : Exits w' s where
  idle := by
    rw [hs]
    exact h.idle
  closing := by
    rw [hs]
    exact h.closing
  freed hf := by
    rw [hs] at hf ⊢
    obtain ⟨htimer, hconn, hread, hwrites, hclients⟩ := h.freed hf
    exact ⟨htimer, hconn, hread, fun req hreq heq => hwrites req (hw req hreq heq) heq,
      fun c hcs => hclients c (hc c hcs)⟩
  closes := by
    rw [count_unhandled hlog hm rfl, hs]
    exact h.closes
  frees := by
    rw [count_unhandled hlog hm rfl, hs]
    exact h.frees

/-- An action that neither starts nor ends the session. -/
theorem Exits.action (h : Exits w s) (hring : RingInv A w) (hjoin : S.join = none)
    (hexit : S.exit ≠ some s) (hdvr : S.dvr = some s → (w.sessions s).freed = false)
    (ha : Action S w₀ w w') : Exits w' s := by
  obtain ⟨m, hlog, hm⟩ := (ha.handles hjoin).log
  have hm := hm s hexit
  have hmeets := ha.meets hjoin hexit
  cases hmeets.stays with
  | kept hsize htimer hclosing hfreed =>
      refine ⟨?_, ?_, fun hf => ?_, ?_, ?_⟩
      · rw [hsize, htimer, hclosing]
        exact h.idle
      · rw [hsize, htimer, hclosing]
        exact h.closing
      · rw [hfreed] at hf
        obtain ⟨ht, hconn, hread, hwrites, hclients⟩ := h.freed hf
        -- a freed session has no DVR event to come
        have hne : S.dvr ≠ some s := fun hs => by
          rw [hdvr hs] at hf
          cases hf
        obtain ⟨hconn', hread'⟩ := hmeets.dvr.resolve_left hne
        refine ⟨htimer.trans ht, ?_, ?_, fun req hreq heq => ?_, fun c hc => ?_⟩
        · exact Bool.eq_false_iff.mpr fun htrue => by simp [hconn' htrue] at hconn
        · rw [hclosing]
          exact hread.imp_left fun hread =>
            Bool.eq_false_iff.mpr fun htrue => by simp [hread' htrue] at hread
        · rcases hmeets.writes req hreq heq with hold | hs | ⟨c, hc⟩
          · exact hwrites req hold heq
          · exact hne hs
          · exact hclients c hc
        · rcases ha.client_session (c := c) (by simp [hjoin]) with hnone | hsame
          · rw [hnone] at hc
            cases hc
          · exact hclients c (hsame ▸ hc)
      · rw [count_unhandled hlog hm rfl, hclosing]
        exact h.closes
      · rw [count_unhandled hlog hm rfl, hfreed]
        exact h.frees
  | @left c hc hy =>
      -- whoever leaves a session was counted, so it was not on its way out
      have hpos := hring.size_pos hc
      have hopen : (w.sessions s).dvr.closing = false := Bool.eq_false_iff.mpr fun htrue => by
        have := (h.closing htrue).1
        omega
      have hlive : (w.sessions s).freed = false := Bool.eq_false_iff.mpr fun htrue =>
        (h.freed htrue).2.2.2.2 c hc
      refine ⟨fun hz => ?_, ?_, ?_, ?_, ?_⟩
      · rw [hy, SmtsSession.leave] at hz ⊢
        simp [hopen, show (w.sessions s).clientSize - 1 = 0 from hz]
      · rw [hy]
        simp [SmtsSession.leave, hopen]
      · rw [hy]
        simp [SmtsSession.leave, hlive]
      · rw [count_unhandled hlog hm rfl, hy]
        exact h.closes
      · rw [count_unhandled hlog hm rfl, hy]
        exact h.frees

/-- A callback that neither starts nor ends the session. -/
theorem Exits.does (h : Exits w₀ s) (hring : RingInv A w₀) (hjoin : S.join = none)
    (hexit : S.exit ≠ some s) (hscope : ∀ t, S.dvr = some t → t < w₀.nSessions ∧ ¬ A t)
    (hdvr : S.dvr = some s → (w₀.sessions s).freed = false) (hd : Does S w₀ w) : Exits w s := by
  suffices hboth : Exits w s ∧ (S.dvr = some s → (w.sessions s).freed = false) from hboth.1
  induction hd with
  | start => exact ⟨h, hdvr⟩
  | step hd ha ih =>
      obtain ⟨hex, hlive⟩ := ih
      refine ⟨hex.action (hring.does hjoin hscope hd) hjoin hexit hlive ha, fun hs => ?_⟩
      cases (ha.meets hjoin hexit).stays with
      | kept _ _ _ hfreed => rw [hfreed, hlive hs]
      | left _ hy =>
          rw [hy]
          exact hlive hs

end Exits

/-! ## The exit timer and the close callback -/

section Ends

variable {w w' : Server} {fuel s : Nat}

theorem sessionExitCb_cases (hr : w.sessionExitCb fuel s = some w') :
    let w₁ := w.setSession s { w.sessions s with waitExitTimer := false }
    ((w.sessions s).clientSize = 0 ∧
        ∃ m, w' = ({ w₁ with manager := m } : Server).smtsDvrClientStop s) ∨
      ((w.sessions s).clientSize ≠ 0 ∧ w' = w₁.setExitCode s smtsOk) := by
  intro w₁
  have hsize : (w₁.sessions s).clientSize = (w.sessions s).clientSize := by simp [w₁]
  rw [sessionExitCb] at hr
  change (if (w₁.sessions s).clientSize = 0 then _ else _) = _ at hr
  rw [hsize] at hr
  split at hr
  next hz =>
    obtain ⟨w₂, hdel, hr⟩ := Option.bind_eq_some_iff.mp hr
    obtain rfl := Option.some.inj hr
    obtain ⟨m, rfl⟩ := deleteSession_eq hdel
    exact .inl ⟨hz, m, rfl⟩
  next hne => exact .inr ⟨hne, (Option.some.inj hr).symm⟩

/-- The timer of an empty session closes its DVR's socket. -/
theorem Exits.sessionExitCb (h : Exits w s) (htimer : (w.sessions s).waitExitTimer = true)
    (hr : w.sessionExitCb fuel s = some w') : Exits w' s := by
  have hopen : (w.sessions s).dvr.closing = false := Bool.eq_false_iff.mpr fun htrue => by
    simp [(h.closing htrue).2] at htimer
  have hlive : (w.sessions s).freed = false := Bool.eq_false_iff.mpr fun htrue => by
    simp [(h.freed htrue).1] at htimer
  have hcloses := h.closes
  have hfrees := h.frees
  obtain ⟨hz, m, rfl⟩ | ⟨hne, rfl⟩ := sessionExitCb_cases hr
  · refine ⟨?_, ?_, ?_, ?_, ?_⟩
    · simp
    · simp [hz]
    · simp [hlive]
    · simp [hcloses, hopen]
    · simp [hfrees, hlive]
  · refine ⟨?_, ?_, ?_, ?_, ?_⟩
    · simp [hne]
    · simp [hopen]
    · simp [hlive]
    · simp [hcloses, hopen]
    · simp [hfrees, hlive]

/-- The close callback comes when nothing is outstanding. -/
theorem Exits.onDvrClientCloseCb (h : Exits w s) (hring : ∀ c, (w.clients c).session = some s →
    0 < (w.sessions s).clientSize) (hen : w.Enabled (.dvrClosed s)) :
    Exits (w.onDvrClientCloseCb s) s := by
  obtain ⟨hclosing, hconn, hlive, hwrites⟩ := hen
  obtain ⟨hz, htimer⟩ := h.closing hclosing
  have hcloses := h.closes
  have hfrees := h.frees
  refine ⟨?_, ?_, fun _ => ⟨?_, ?_, .inr ?_, hwrites, fun c hc => ?_⟩, ?_, ?_⟩
  · simp [htimer, hclosing]
  · simp [hz, htimer]
  · simpa using htimer
  · simpa using hconn
  · simpa using hclosing
  · have := hring c hc
    omega
  · simp [hcloses, hclosing]
  · simp [hfrees, hlive]

end Ends

/-! ## A preview request -/

section Preview

variable {A : Nat → Prop} {w w' : Server} {fuel s c : Nat} {key : SessionKey} {r : Int}

/-- How a start ends: which calls were made, what was freed, who was attached, and
that nothing else has changed. -/
theorem Starts.spec (h : Starts fuel w s c w' r) :
    (∃ k, w'.log = w.log ++ List.replicate k (.uvInit (.dvr s)) ++
      if r = 0 then [] else [.free (.session s)]) ∧
    w'.nSessions = w.nSessions ∧ w'.writes = w.writes ∧
    (∀ t, t ≠ s → w'.sessions t = w.sessions t) ∧ (∀ d, d ≠ c → w'.clients d = w.clients d) ∧
    ((r ≠ 0 ∧ w'.clients c = { w.clients c with session := none } ∧
        w'.sessions s = { w.sessions s with freed := true }) ∨
      (r = 0 ∧ w'.clients = w.clients ∧ w'.sessions s = { w.sessions s with
        dvr := { (w.sessions s).dvr with connecting := true } })) := by
  refine ⟨?_, ?_⟩
  · cases h with
    | initFails hinit hr => exact ⟨1, by simp [initSmtsDvrClient_log hinit, hr]⟩
    | addFails hinit _ hr => exact ⟨1, by simp [initSmtsDvrClient_log hinit, hr]⟩
    | connectFails hinit _ hconn hr hdel =>
        have hlog := tcpClientConnect_log hconn
        obtain ⟨m, rfl⟩ := deleteSession_eq hdel
        exact ⟨2, by simp [hlog, initSmtsDvrClient_log hinit, hr]⟩
    | connects hinit _ hconn =>
        have hlog := tcpClientConnect_log hconn
        exact ⟨2, by simp [hlog, initSmtsDvrClient_log hinit]⟩
  · obtain ⟨w₁, m, hq, hcase⟩ := h.outcome
    have hsessions : w₁.sessions = w.sessions := hq.sessions
    have hclients : w₁.clients = w.clients := hq.clients
    obtain ⟨hr, rfl, -⟩ | ⟨rfl, -, rfl⟩ := hcase
    · refine ⟨hq.nSessions, hq.writes, fun t ht => ?_, fun d hd => ?_, .inl ⟨hr, ?_, ?_⟩⟩
      · simp [Function.update_of_ne ht, hsessions]
      · simp [Function.update_of_ne hd, hclients]
      · simp [hclients]
      · simp [hsessions]
    · refine ⟨hq.nSessions, hq.writes, fun t ht => ?_, fun d _ => ?_, .inr ⟨rfl, hclients, ?_⟩⟩
      · simp [Function.update_of_ne ht, hsessions]
      · simp [hclients]
      · simp [hsessions]

/-- Every session stands with its end as it should. -/
def AllExits (w : Server) : Prop := ∀ s < w.nSessions, Exits w s

/-- A new session has its first client, or is given up. -/
theorem AllExits.starts (h : AllExits w) (hring : RingInv A w) (hm : Mishandled w)
    (hstart : Starts fuel ((w.initMediaSession key).addSmtsClient w.nSessions c) w.nSessions c w' r) :
    AllExits w' := by
  obtain ⟨⟨k, hlog⟩, hn, hwrites, hsessions, hclients, hcase⟩ := hstart.spec
  let fresh : List Obs := .uvInit (.timer w.nSessions) :: .attach c w.nSessions ::
    (List.replicate k (.uvInit (.dvr w.nSessions)) ++ if r = 0 then [] else [.free (.session w.nSessions)])
  have hlog : w'.log = w.log ++ fresh := by
    rw [hlog]
    simp [fresh]
  have hwrites : w'.writes = w.writes := hwrites
  have hnone : ∀ d, (w.clients d).session ≠ some w.nSessions := fun d hd =>
    Nat.lt_irrefl _ (hring.attached d _ hd).2.2.1
  have hold : ∀ d, d ≠ c → w'.clients d = w.clients d := fun d hd => by
    rw [hclients d hd]
    simp [Function.update_of_ne hd]
  -- nothing was logged of the new session before
  have hcount : ∀ o : Obs, o.session? = some w.nSessions →
      w'.log.count o = fresh.count o := fun o ho => by
    rw [hlog, List.count_append, List.count_eq_zero.mpr ((hm.unhandled _ le_rfl).notMem ho), Nat.zero_add]
  intro s hs
  rw [hn] at hs
  -- an older session does not notice; the new one is freed already, or waits for its connect
  rcases Nat.lt_succ_iff_lt_or_eq.mp hs with hlt | rfl
  · have hne : s ≠ w.nSessions := hlt.ne
    refine (h s hlt).congr ?_ (fun _ hreq _ => hwrites ▸ hreq) (fun d hd => ?_) hlog fun o ho => ?_
    · rw [hsessions s hne]
      simp [Function.update_of_ne hne]
    · by_cases hdc : d = c
      · subst hdc
        obtain ⟨-, hd', -⟩ | ⟨-, hd', -⟩ := hcase
        · rw [hd'] at hd
          cases hd
        · rw [hd'] at hd
          simp [Ne.symm hne] at hd
      · rwa [hold d hdc] at hd
    · have : o = .uvInit (.timer w.nSessions) ∨ o = .attach c w.nSessions ∨
          o = .uvInit (.dvr w.nSessions) ∨ o = .free (.session w.nSessions) := by
        simp only [fresh, List.mem_cons, List.mem_append, List.mem_replicate] at ho
        rcases ho with rfl | rfl | ⟨-, rfl⟩ | ho
        · simp
        · simp
        · simp
        · split at ho
          · cases ho
          · simp [List.mem_singleton.mp ho]
      rcases this with rfl | rfl | rfl | rfl <;> simp [Obs.session?, Ne.symm hne]
  · have hnew : ((w.initMediaSession key).addSmtsClient w.nSessions c).sessions w.nSessions
        = { key := key, clientSize := 1, status := .init, exitCode := smtsOk, waitExitTimer := false
            dvr := { connecting := false, reading := false, closing := false }, freed := false } := by
      simp
    have hcloses : fresh.count (.uvClose (.dvr w.nSessions)) = 0 :=
      List.count_eq_zero.mpr (by simp [fresh])
    obtain ⟨hr, hd, hs⟩ | ⟨rfl, -, hs⟩ := hcase <;> rw [hnew] at hs
    · have hfrees : fresh.count (.free (.session w.nSessions)) = 1 := by
        simp [fresh, hr, List.count_replicate]
      refine ⟨?_, ?_, fun _ => ⟨?_, ?_, .inl ?_, fun req hreq heq => ?_, fun d hds => ?_⟩, ?_, ?_⟩
      · simp [hs]
      · simp [hs]
      · simp [hs]
      · simp [hs]
      · simp [hs]
      · exact Nat.lt_irrefl _ (hring.written req (hwrites ▸ hreq) _ heq)
      · by_cases hdc : d = c
        · rw [hdc, hd] at hds
          cases hds
        · exact hnone d (hold d hdc ▸ hds)
      · rw [hcount _ rfl, hcloses]
        simp [hs]
      · rw [hcount _ rfl, hfrees]
        simp [hs]
    · have hfrees : fresh.count (.free (.session w.nSessions)) = 0 :=
        List.count_eq_zero.mpr (by simp [fresh])
      refine ⟨?_, ?_, ?_, ?_, ?_⟩
      · simp [hs]
      · simp [hs]
      · simp [hs]
      · rw [hcount _ rfl, hcloses]
        simp [hs]
      · rw [hcount _ rfl, hfrees]
        simp [hs]

/-- Another client comes to a session that is not on its way out. -/
theorem Exits.addSmtsClient (h : Exits w s) (hsize : 0 ≤ (w.sessions s).clientSize)
    (hlive : (w.sessions s).freed = false) (hopen : (w.sessions s).dvr.closing = false) :
    Exits (w.addSmtsClient s c) s := by
  have hcloses := h.closes
  have hfrees := h.frees
  refine ⟨fun hz => ?_, ?_, ?_, ?_, ?_⟩
  · simp only [addSmtsClient_sessions, Function.update_self] at hz
    omega
  · simp [hopen]
  · simp [hlive]
  · simp [List.count_append, hcloses]
  · simp [List.count_append, hfrees]

/-- When a client is added to a session, nothing happens to the other ones. -/
theorem Exits.addSmtsClient_frame {t : Nat} (h : Exits w t) (ht : t ≠ s) :
    Exits (w.addSmtsClient s c) t := by
  refine h.congr (m := [.attach c s]) (by simp [Function.update_of_ne ht]) (fun _ hreq _ => hreq)
    (fun d hd => ?_) rfl (by simp [Unhandled, Obs.session?])
  by_cases hdc : d = c
  · subst hdc
    simp [Ne.symm ht] at hd
  · simpa [Function.update_of_ne hdc] using hd

/-- What is done for clients, and no session's DVR, ends no session. -/
theorem AllExits.does {S : Scope} (h : AllExits w) (hring : RingInv A w) (hjoin : S.join = none)
    (hexit : S.exit = none) (hdvr : S.dvr = none) (hd : Does S w w') : AllExits w' := fun s hs => by
  rw [(hd.handles hjoin).nSessions] at hs
  exact (h s hs).does hring hjoin (by simp [hexit]) (by simp [hdvr]) (by simp [hdvr]) hd

/-- `get_session` finds no session that it was told to delete before the DVR's
socket was closed, or before the session was freed. -/
def FindsLive (w : Server) (e : Event) : Prop :=
  e.preview ≠ none → ∀ fuel key s, w.manager.getSession w.keyOf fuel key = some (some s) →
    (w.sessions s).freed = false ∧ (w.sessions s).dvr.closing = false

theorem AllExits.mediaClientStartPreview (h : AllExits w) (hring : RingInv A w) (hm : Mishandled w)
    (hc : c < w.nClients) (hclosing : (w.clients c).closing = false)
    (hsess : (w.clients c).session = none)
    (hfind : ∀ s, w.manager.getSession w.keyOf fuel key = some (some s) →
      (w.sessions s).freed = false ∧ (w.sessions s).dvr.closing = false)
    (hr : w.mediaClientStartPreview fuel c key = some (w', r)) : AllExits w' := by
  obtain ⟨found, hget, -⟩ := Option.bind_eq_some_iff.mp hr
  cases found with
  | none => exact h.starts hring hm (mediaClientStartPreview_new hget hr)
  | some s =>
      obtain ⟨-, hres⟩ := mediaClientStartPreview_found hget hr
      obtain ⟨hs, hA⟩ := hring.getSession hget
      obtain ⟨hlive, hopen⟩ := hfind s hget
      obtain ⟨l, -, hsize, -⟩ := hring.ring s hs hA
      have hjoined : AllExits (w.addSmtsClient s c) := fun t ht => by
        by_cases hts : t = s
        · subst hts
          exact (h t ht).addSmtsClient (by omega) hlive hopen
        · exact (h t ht).addSmtsClient_frame hts
      have hd := (Does.start (S := {})).smtsClientSendPreviewRes (.inl trivial) hres
      exact hjoined.does (hring.addSmtsClient hs hA hc hclosing hsess) rfl rfl rfl hd

theorem AllExits.dispatchPreview (h : AllExits w) (hring : RingInv A w) (hm : Mishandled w)
    {bytes : List Byte} {junk : Int → Byte} (hen : w.Enabled (.packet c bytes junk))
    (hprev : (Event.packet c bytes junk).preview = some c) (hsess : (w.clients c).session = none)
    (hfind : w.FindsLive (.packet c bytes junk))
    (hr : w.dispatchPacket fuel c bytes junk = some w') : AllExits w' := by
  obtain ⟨hc, -, hclosing, -⟩ := hen
  obtain ⟨t, w₁, hstart, rfl⟩ := dispatchPacket_preview hprev hr
  let w₀ := (w.setHeap (w.heap.receive bytes).1).addCmd t
  have h₀ : AllExits w₀ := fun s hs => (h s hs).congr rfl (fun _ hreq _ => hreq) (fun _ hd => hd)
    (List.append_nil _).symm fun _ ho => nomatch ho
  have hring₀ : RingInv A w₀ :=
    hring.sameNet ⟨rfl, rfl, rfl, rfl, rfl, rfl⟩ fun _ hreq _ _ => .inl hreq
  have hm₀ : Mishandled w₀ := hm.handles (t := none) (.of_log_eq rfl rfl rfl) (by rintro s ⟨⟩)
  obtain ⟨w₂, r, hmedia, hcase⟩ := smtsStartPreview_cases hstart
  obtain ⟨A₂, hring₂⟩ := hring₀.mediaClientStartPreview hc hclosing hsess hmedia
  have h₂ := h₀.mediaClientStartPreview hring₀ hm₀ hc hclosing hsess
    (fun s hs => hfind (by simp [hprev]) _ _ s hs) hmedia
  have hdone : ∀ {w₁}, AllExits w₁ → AllExits (w₁.protoCmdDestroy w.nCmds) := fun h s hs => by
    obtain ⟨m, hlog, hmo⟩ := (Handles.protoCmdDestroy (t := none) _ w.nCmds).log
    exact (h s hs).congr rfl (fun _ hreq _ => hreq) (fun _ hd => hd) hlog (hmo s (by simp))
  refine hdone ?_
  obtain ⟨-, rfl⟩ | ⟨-, w₃, w₄, r', henc, hsend, hw⟩ := hcase
  · exact h₂
  · have hd := (Does.start (S := {})).errorPreviewRes (c := c) (.inl trivial) henc
    rw [hsend] at hd
    rcases hw with rfl | rfl
    · exact h₂.does hring₂ rfl rfl rfl hd.1
    · exact h₂.does hring₂ rfl rfl rfl hd.2

end Preview

/-! ## Whole runs -/

section Runs

variable {A : Nat → Prop} {w w' : Server} {s : Nat} {e : Event}

/-- A session whose DVR is heard of is not freed. -/
theorem Exits.scope_dvr (h : Exits w s) (hen : w.Enabled e) (hs : (w.scope e).dvr = some s) :
    (w.sessions s).freed = false := by
  refine Bool.eq_false_iff.mpr fun hf => ?_
  obtain ⟨-, hconn, hread, hwrites, -⟩ := h.freed hf
  have hreading : (w.sessions s).dvr.reading = true → (w.sessions s).dvr.closing = false → False := by
    intro hr hc
    rcases hread with hread | hread
    · simp [hr] at hread
    · simp [hc] at hread
  cases e with
  | dvrConnected t status =>
      obtain rfl := Option.some.inj hs
      simp [hen.2] at hconn
  | dvrPacket t bytes junk =>
      obtain rfl := Option.some.inj hs
      exact hreading hen.2.1 hen.2.2.1
  | dvrReadError t status =>
      obtain rfl := Option.some.inj hs
      exact hreading hen.2.1 hen.2.2.1
  | writeDone k status =>
      obtain ⟨req, hk, hreq⟩ := Option.bind_eq_some_iff.mp hs
      cases htarget : req.client with
      | client c => simp [htarget, Target.dvr?] at hreq
      | dvr t =>
          rw [htarget, Target.dvr?, Option.some.injEq] at hreq
          exact hwrites req (List.mem_of_getElem? hk) (hreq ▸ htarget)
  | _ => cases hs

/-- A session whose timer fires, or whose socket is closed, is not freed either. -/
theorem Exits.scope_exit (h : Exits w s) (hen : w.Enabled e) (hs : (w.scope e).exit = some s) :
    (w.sessions s).freed = false := by
  refine Bool.eq_false_iff.mpr fun hf => ?_
  have htimer := (h.freed hf).1
  cases e with
  | timer t =>
      obtain rfl := Option.some.inj hs
      simp [hen.2] at htimer
  | dvrClosed t =>
      obtain rfl := Option.some.inj hs
      simp [hen.2.2.1] at hf
  | _ => cases hs

theorem AllExits.step (h : AllExits w) (hring : RingInv A w) (hm : Mishandled w)
    (he : w.JoinsOnce e) (hfind : w.FindsLive e) (hstep : Step w e w') : AllExits w' := by
  obtain ⟨hen, fuel, hr⟩ := hstep
  cases hprev : e.preview with
  | some c =>
      obtain ⟨bytes, junk, rfl⟩ := Event.preview_eq_some hprev
      exact h.dispatchPreview hring hm hen hprev (he c hprev) hfind hr
  | none =>
      have hjoin : ({ w.scope e with reach := fun _ => True } : Scope).join = none :=
        (scope_join w e).trans hprev
      have hd := handle_does_any hen hr
      intro s hs
      rw [(hd.handles hjoin).nSessions] at hs
      by_cases hexit : (w.scope e).exit = some s
      · cases e with
        | timer t =>
            obtain rfl := Option.some.inj hexit
            exact (h t hs).sessionExitCb hen.2 hr
        | dvrClosed t =>
            obtain rfl := Option.some.inj hexit
            obtain rfl := Option.some.inj hr
            exact (h t hs).onDvrClientCloseCb (fun _ => hring.size_pos) hen
        | _ => cases hexit
      · exact (h s hs).does hring hjoin hexit (fun _ ht => hring.scope_dvr hen ht)
          (fun hs' => (h s hs).scope_dvr hen hs') hd

end Runs

/-- Each connection sends at most one preview command. -/
def PreviewsOnce (es : List Event) : Prop :=
  es.Pairwise fun e e' => ∀ c, e.preview = some c → e'.preview ≠ some c

section PreviewsOnce

variable {uv : Nat → Int} {garbage : Nat → Values NvmpName} {es : List Event} {w : Server}

/-- What is so of a client's first request is so of every request. -/
theorem PreviewsOnce.run {P Q : Server → Event → Prop} (hone : PreviewsOnce es)
    (hQ : ∀ {es e w}, Transition.Run Step (init uv garbage) es w →
      (∀ c, e.preview = some c → ∀ a ∈ es, a.preview ≠ some c) → Q w e)
    (h : Transition.Run (fun w e w' => P w e ∧ Step w e w') (init uv garbage) es w) :
    Transition.Run (fun w e w' => Q w e ∧ P w e ∧ Step w e w') (init uv garbage) es w := by
  induction h with
  | refl => exact .refl
  | @snoc es e w w' hrun hstep ih =>
      obtain ⟨hbefore, -, hlast⟩ := List.pairwise_append.mp hone
      refine .snoc (ih hbefore) ⟨hQ (hrun.mono fun _ _ _ hs => hs.2) fun c hc a ha hac => ?_, hstep⟩
      exact hlast a ha e (List.mem_singleton_self e) c hac hc

/-- When no client asks for a preview twice, whoever asks is not attached. -/
theorem joinsOnce_of_run {P : Server → Event → Prop} (hone : PreviewsOnce es)
    (h : Transition.Run (fun w e w' => P w e ∧ Step w e w') (init uv garbage) es w) :
    Transition.Run (fun w e w' => w.JoinsOnce e ∧ P w e ∧ Step w e w') (init uv garbage) es w :=
  hone.run (fun hrun hnew c hc => session_none_of_run hrun (hnew c hc) rfl) h

end PreviewsOnce

/-- The session `s` is on its way out when nobody is in it, and when it is gone
nothing is left that refers to it. -/
structure EndsOk (w : Server) (s : Nat) : Prop where
  size : .free (.session s) ∉ w.log → 0 ≤ (w.sessions s).clientSize
  /-- the exit timer is armed, or the DVR's socket is closing, but not both -/
  idle : .free (.session s) ∉ w.log → (w.sessions s).clientSize = 0 →
    (w.sessions s).waitExitTimer = !(w.sessions s).dvr.closing
  closing : .free (.session s) ∉ w.log → (w.sessions s).dvr.closing = true →
    (w.sessions s).clientSize = 0
  /-- `smts_dvr_client_stop` -/
  stops : w.log.count (.uvClose (.dvr s)) ≤ 1
  frees : w.log.count (.free (.session s)) ≤ 1
  clients : .free (.session s) ∈ w.log → ∀ c, (w.clients c).session ≠ some s
  pending : .free (.session s) ∈ w.log →
    (w.sessions s).dvr.connecting = false ∧ ∀ req ∈ w.writes, req.client ≠ .dvr s
  /-- neither its DVR's callbacks nor its timer's -/
  silent : .free (.session s) ∈ w.log →
    ∀ e, w.Enabled e → (w.scope e).dvr ≠ some s ∧ (w.scope e).exit ≠ some s

/-- **Idle sessions are on their way out, and busy ones are never freed**, in
every state of every run in which each connection sends at most one preview
command and `get_session` finds none but live sessions. -/
theorem endsOk_of_run {uv : Nat → Int} {garbage : Nat → Values NvmpName} {es : List Event}
    {w : Server} (hone : PreviewsOnce es)
    (h : Transition.Run (fun w e w' => w.FindsLive e ∧ Step w e w') (init uv garbage) es w)
    {s : Nat} (hs : s < w.nSessions) : EndsOk w s := by
  have hrun := joinsOnce_of_run hone h
  obtain ⟨⟨A, hring⟩, -, hall⟩ := hrun.invariant
    (I := fun w => (∃ A, RingInv A w) ∧ Mishandled w ∧ AllExits w)
    (fun w e w' ⟨⟨_, hring⟩, hm, hall⟩ ⟨he, hfind, hstep⟩ =>
      ⟨hring.step he hstep, hm.step hstep, hall.step hring hm he hfind hstep⟩)
    ⟨⟨_, init_ringInv uv garbage⟩, init_mishandled uv garbage,
      fun s hs => absurd hs (Nat.not_lt_zero s)⟩
  have hex := hall s hs
  have hfreed : .free (.session s) ∈ w.log ↔ (w.sessions s).freed = true := by
    rw [← List.count_pos_iff, hex.frees]
    split
    next hf => simp [hf]
    next hf => simp [hf]
  have hlive : .free (.session s) ∉ w.log → ¬ A s := fun hnot hA =>
    hnot (hfreed.mpr (hring.aborted s hA).2.1)
  refine ⟨fun hnot => ?_, fun _ => hex.idle, fun _ hc => (hex.closing hc).1, ?_, ?_,
    fun hf => (hex.freed (hfreed.mp hf)).2.2.2.2, fun hf => ?_, fun hf e hen => ⟨fun hs' => ?_, fun hs' => ?_⟩⟩
  · obtain ⟨l, -, hsize, -⟩ := hring.ring s hs (hlive hnot)
    omega
  · rw [hex.closes]
    split <;> omega
  · rw [hex.frees]
    split <;> omega
  · obtain ⟨-, hconn, -, hwrites, -⟩ := hex.freed (hfreed.mp hf)
    exact ⟨hconn, hwrites⟩
  · simp [hex.scope_dvr hen hs'] at hfreed
    exact hfreed hf
  · simp [hex.scope_exit hen hs'] at hfreed
    exact hfreed hf

end Server

end Smts
