import Mathlib.Tactic.IntervalCases
import Smts.Server.Exits
import Smts.Server.Received

/-!
# Server — the requests given to libuv

What is `malloc`ed for a call of libuv's is freed by the callback of that call
and nowhere else, and of a call that fails no callback comes. So the frees of
a request and the callback still to come are one in all, or none, for good.
-/

namespace Smts

/-- What `uv_write` returned, if the observation is a call of it. -/
def Obs.result? : Obs → Option Int
  | .uvWrite _ _ _ _ r => some r
  | _ => none

/-- What the calls of `uv_write` returned, in turn. -/
def results (log : List Obs) : List Int := log.filterMap Obs.result?

@[simp]
theorem results_append (l m : List Obs) : results (l ++ m) = results l ++ results m :=
  List.filterMap_append

namespace Server

/-- Of a request: it is freed once, when nothing of it is pending any more, and
not before. -/
def FreedInTime (w : Server) (x : Obj) (pending : Prop) : Prop :=
  (pending → w.log.count (.free x) = 0) ∧ (¬ pending → w.log.count (.free x) = 1)

/-! ## Between the calls -/

/-- No request is made, and none is freed. -/
structure Unasked (w w' : Server) : Prop where
  writes : w'.writes = w.writes
  nWrites : w'.nWrites = w.nWrites
  log : ∃ m, w'.log = w.log ++ m ∧ ∀ o ∈ m, o.result? = none ∧ o.request? = none

namespace Unasked

variable {w w' : Server} {m : List Obs}

theorem of_log_eq (hw : w'.writes = w.writes) (hn : w'.nWrites = w.nWrites)
    (hlog : w'.log = w.log) : Unasked w w' :=
  ⟨hw, hn, [], by rw [hlog, List.append_nil], by simp⟩

theorem refl (w : Server) : Unasked w w := .of_log_eq rfl rfl rfl

theorem trans {a b c : Server} (h : Unasked a b) (h' : Unasked b c) : Unasked a c := by
  obtain ⟨m, hm, hmo⟩ := h.log
  obtain ⟨m', hm', hmo'⟩ := h'.log
  exact ⟨h'.writes.trans h.writes, h'.nWrites.trans h.nWrites, m ++ m',
    by rw [hm', hm, List.append_assoc], fun o ho => (List.mem_append.mp ho).elim (hmo o) (hmo' o)⟩

theorem emit (w : Server) {o : Obs} (hr : o.result? = none) (hx : o.request? = none) :
    Unasked w (w.emit o) :=
  ⟨rfl, rfl, [o], rfl, by simp [hr, hx]⟩

theorem encodeNew {t : NvmpCmd} (hr : w.encodeNew t = some w') : Unasked w w' := by
  obtain ⟨⟨h', t'⟩, -, hr⟩ := Option.bind_eq_some_iff.mp hr
  obtain rfl := Option.some.inj hr
  exact .of_log_eq rfl rfl rfl

theorem setCmd (w : Server) (p : Nat) (t : NvmpCmd) : Unasked w (w.setCmd p t) :=
  .of_log_eq rfl rfl rfl

theorem protoCmdDestroy (w : Server) (p : Nat) : Unasked w (w.protoCmdDestroy p) := by
  refine ⟨rfl, rfl, _, rfl, fun o ho => ?_⟩
  obtain ⟨x, -, rfl⟩ := List.mem_map.mp ho
  cases x <;> exact ⟨rfl, rfl⟩

theorem destroySmtsFrame (w : Server) (f : Nat) : Unasked w (w.destroySmtsFrame f) :=
  (protoCmdDestroy w _).trans (emit _ rfl rfl)

theorem onSmtsClientSendFrame {p : Nat} (hr : w.onSmtsClientSendFrame p = some w') : Unasked w w' := by
  obtain ⟨-, rfl⟩ | ⟨-, f, -, rfl⟩ := onSmtsClientSendFrame_cases hr
  · exact setCmd w p _
  · exact (setCmd w p _).trans ((protoCmdDestroy _ p).trans (destroySmtsFrame _ f))

theorem stopSmtsClient (w : Server) (c : Nat) : Unasked w (w.stopSmtsClient c) := by
  obtain ⟨-, h⟩ | ⟨-, -, h⟩ | ⟨-, s, -, h⟩ := stopSmtsClient_cases w c <;> rw [h]
  · exact refl w
  · exact ⟨rfl, rfl, _, rfl, by simp [Obs.result?, Obs.request?]⟩
  · exact ⟨rfl, rfl, _, rfl, by simp [Obs.result?, Obs.request?]⟩

theorem deleteSession {fuel s : Nat} (hr : w.deleteSession fuel s = some w') : Unasked w w' := by
  obtain ⟨m, rfl⟩ := deleteSession_eq hr
  exact .of_log_eq rfl rfl rfl

end Unasked

/-- A callback that frees no request asks only for writes. -/
theorem Action.unasked {S : Scope} {w₀ w w' : Server} (hwrite : S.write = none)
    (hrequest : S.request = none) (ha : Action S w₀ w w') :
    Unasked w w' ∨ ∃ v t p cb r, Unasked w v ∧ v.tcpClientSendMsg t p cb = (w', r) := by
  have hsame : ∀ {w' : Server}, w'.writes = w.writes → w'.nWrites = w.nWrites → w'.log = w.log →
      Unasked w w' := fun hw hn hlog => .of_log_eq hw hn hlog
  cases ha with
  | uvCall hr =>
      obtain ⟨rfl, -⟩ := Prod.mk.inj hr
      exact .inl (hsame rfl rfl rfl)
  | @emit o hmem _ _ hreq =>
      refine .inl (.emit w ?_ (Option.eq_none_iff_forall_ne_some.mpr fun x hx => ?_))
      · cases o <;> first | rfl | cases hmem
      · exact Option.some_ne_none _ ((hreq x hx).symm.trans hrequest)
  | encodeNew _ _ _ hr => exact .inl (.encodeNew hr)
  | receive _ => exact .inl (hsame rfl rfl rfl)
  | drop bytes =>
      exact .inl ⟨rfl, rfl, [.free (.block (w.heap.receive bytes).2)], rfl,
        by simp [Obs.result?, Obs.request?]⟩
  | addFrame _ _ => exact .inl (hsame rfl rfl rfl)
  | increaseRef _ => exact .inl (hsame rfl rfl rfl)
  | addRef _ _ => exact .inl (hsame rfl rfl rfl)
  | destroy _ => exact .inl (.protoCmdDestroy w _)
  | dropRef _ hr => exact .inl (.onSmtsClientSendFrame hr)
  | destroyFrame _ _ => exact .inl (.destroySmtsFrame w _)
  | send _ _ _ _ hr => exact .inr ⟨w, _, _, _, _, .refl w, hr⟩
  | sendPreviewRes _ _ _ hr =>
      refine .inr ⟨_, _, _, _, _, ?_, hr⟩
      exact hsame rfl rfl rfl
  | complete _ hS _ => cases hwrite.symm.trans hS
  | previewResDone _ hS _ _ => cases hwrite.symm.trans hS
  | relay _ ho => obtain ⟨s, f, rfl⟩ | ⟨c, f, rfl⟩ | ⟨c, p, rfl, -⟩ := ho <;> exact .inl (.emit w rfl rfl)
  | stop _ => exact .inl (.stopSmtsClient w _)
  | touch _ => exact .inl (hsame rfl rfl rfl)
  | delete hr => exact .inl (.deleteSession hr)
  | initClient _ => exact .inl ⟨rfl, rfl, _, initSmtsClient_log w, by simp [Obs.result?, Obs.request?]⟩
  | startRead _ _ => exact .inl (hsame rfl rfl rfl)
  | @close _ c _ =>
      exact .inl ⟨rfl, rfl, [.uvClose (.client c)], rfl, by simp [Obs.result?, Obs.request?]⟩
  | @closed c _ =>
      exact .inl ⟨rfl, rfl, [.uvClosed (.client c), .free (.client c)], List.append_assoc ..,
        by simp [Obs.result?, Obs.request?]⟩
  | initSession _ key =>
      exact .inl ⟨rfl, rfl, _, initMediaSession_log w key, by simp [Obs.result?, Obs.request?]⟩
  | @attach c _ s => exact .inl ⟨rfl, rfl, [.attach c s], rfl, by simp [Obs.result?, Obs.request?]⟩
  | manage _ _ => exact .inl (hsame rfl rfl rfl)
  | abort _ s => exact .inl ⟨rfl, rfl, [.free (.session s)], rfl, by simp [Obs.result?, Obs.request?]⟩

/-! ## The writes -/

/-- How often the write request `id` was freed, or still will be. -/
def writeFrees (w : Server) (id : Nat) : Nat :=
  w.log.count (.free (.writeReq id)) + w.writes.countP fun req => req.id = id

/-- The requests of the writes, by what became of them; the callback of `busy`
is running. -/
structure WriteReqs (busy : Option Nat) (w : Server) : Prop where
  length : (results w.log).length = w.nWrites
  frees : ∀ id, w.writeFrees id + (if busy = some id then 1 else 0)
    = if (results w.log)[id]? = some 0 then 1 else 0

section Writes

variable {S : Scope} {w₀ w w' : Server} {m : List Obs} {x : Obj} {busy : Option Nat}

theorem count_free (hlog : w'.log = w.log ++ m) (hm : ∀ o ∈ m, o.request? = none)
    (hx : (Obs.free x).request? = some x) : w'.log.count (.free x) = w.log.count (.free x) := by
  have hnone : m.count (.free x) = 0 := List.count_eq_zero.mpr fun hmem =>
    Option.some_ne_none _ (hx.symm.trans (hm _ hmem))
  rw [hlog, List.count_append, hnone, Nat.add_zero]

theorem WriteReqs.unasked (h : WriteReqs busy w) (hu : Unasked w w') : WriteReqs busy w' := by
  obtain ⟨m, hlog, hm⟩ := hu.log
  have hnone : results m = [] := List.filterMap_eq_nil_iff.mpr fun o ho => (hm o ho).1
  have hres : results w'.log = results w.log := by rw [hlog, results_append, hnone, List.append_nil]
  refine ⟨by rw [hres, hu.nWrites, h.length], fun id => ?_⟩
  rw [hres, ← h.frees id, writeFrees, writeFrees, hu.writes, count_free hlog (fun o ho => (hm o ho).2) rfl]

/-- The books of the write requests stay in order over a send, whether it is
queued or fails. -/
theorem WriteReqs.send {t : Target} {p : Nat} {cb : SendCb} {r : Int} (h : WriteReqs busy w)
    (hr : w.tcpClientSendMsg t p cb = (w', r)) : WriteReqs busy w' := by
  have hlog := tcpClientSendMsg_log hr
  have hres : results w'.log = results w.log ++ [r] := by
    rw [hlog, results_append]
    rfl
  have hn : w'.nWrites = w.nWrites + 1 := by
    obtain ⟨-, rfl⟩ | ⟨-, rfl⟩ := tcpClientSendMsg_cases hr <;> rfl
  refine ⟨by rw [hres, hn, List.length_append, h.length, List.length_singleton], fun id => ?_⟩
  -- the request is the next one
  let new : Nat := if id = w.nWrites ∧ r = 0 then 1 else 0
  have hpending : w'.writes.countP (fun req => req.id = id)
      = w.writes.countP (fun req => req.id = id) + new := by
    obtain ⟨hz, rfl⟩ | ⟨hne, rfl⟩ := tcpClientSendMsg_cases hr
    · simp [new, hz, List.countP_append, List.countP_singleton, eq_comm]
    · simp [new, hne]
  have hresult : (if (results w'.log)[id]? = some 0 then 1 else 0)
      = (if (results w.log)[id]? = some 0 then 1 else 0) + new := by
    rw [hres]
    by_cases hid : id = w.nWrites
    · have hbefore : (results w.log)[id]? = none := by
        rw [List.getElem?_eq_none_iff, h.length, hid]
      have hlast : (results w.log ++ [r])[id]? = some r := by
        rw [hid, ← h.length, List.getElem?_concat_length]
      rw [hbefore, hlast]
      simp [new, hid]
    · have hother : new = 0 := if_neg fun hc => hid hc.1
      rw [hother, Nat.add_zero]
      congr 2
      have hlen := h.length
      rcases Nat.lt_or_ge id (results w.log).length with hlt | hge
      · rw [List.getElem?_append_left hlt]
      · rw [List.getElem?_eq_none hge, List.getElem?_eq_none]
        simp
        omega
  have hold := h.frees id
  rw [writeFrees] at hold ⊢
  rw [count_free hlog (by simp [Obs.request?]) rfl, hpending, hresult, ← hold]
  omega

theorem WriteReqs.eraseWrite {k : Nat} {req : WriteReq} (h : WriteReqs none w)
    (hk : w.writes[k]? = some req) : WriteReqs (some req.id) (w.eraseWrite k) := by
  refine ⟨h.length, fun id => ?_⟩
  rw [eraseWrite_log, ← h.frees id, writeFrees, writeFrees, eraseWrite_writes, eraseWrite_log]
  by_cases hid : req.id = id
  · have hlen := length_filter_eraseIdx (q := fun req => decide (req.id = id)) hk (by simpa using hid)
    rw [List.countP_eq_length_filter, List.countP_eq_length_filter]
    simp only [hid]
    simp
    omega
  · have hlen := filter_eraseIdx (q := fun req => decide (req.id = id)) hk (by simpa using hid)
    rw [List.countP_eq_length_filter, List.countP_eq_length_filter, hlen]
    simp [hid]

theorem WriteReqs.free {id : Nat} (h : WriteReqs (some id) w) :
    WriteReqs none (w.emit (.free (.writeReq id))) := by
  have hres : results (w.emit (.free (.writeReq id))).log = results w.log :=
    (results_append ..).trans (List.append_nil _)
  refine ⟨by rw [hres]; exact h.length, fun i => ?_⟩
  rw [hres, ← h.frees i, writeFrees, writeFrees, emit_log, List.count_append, emit_writes]
  by_cases hid : id = i
  · simp [hid]
    omega
  · simp [hid]

theorem WriteReqs.connect (h : WriteReqs busy w) (s : Nat) :
    WriteReqs busy (w.emit (.free (.connectReq s))) := by
  have hres : results (w.emit (.free (.connectReq s))).log = results w.log :=
    (results_append ..).trans (List.append_nil _)
  refine ⟨by rw [hres]; exact h.length, fun i => ?_⟩
  rw [hres, ← h.frees i, writeFrees, writeFrees, emit_log, List.count_append, emit_writes]
  simp

theorem WriteReqs.does (hwrite : S.write = none) (hrequest : S.request = none) (hd : Does S w₀ w)
    (h : WriteReqs busy w₀) : WriteReqs busy w := by
  induction hd with
  | start => exact h
  | step _ ha ih =>
      obtain hu | ⟨v, t, p, cb, r, hu, hr⟩ := ha.unasked hwrite hrequest
      · exact ih.unasked hu
      · exact (ih.unasked hu).send hr

end Writes

/-! ## The connects -/

/-- How often the connect request of `s` was freed, or still will be. -/
def connectFrees (w : Server) (s : Nat) : Nat :=
  w.log.count (.free (.connectReq s)) + if (w.sessions s).dvr.connecting = true then 1 else 0

section Connects

variable {S : Scope} {w₀ w w' : Server} {s : Nat}

/-- Only the connect's callback, and a preview request, change whether a
connect is under way. -/
theorem Action.connecting (hjoin : S.join = none) (hrequest : S.request = none)
    (ha : Action S w₀ w w') (s : Nat) :
    (w'.sessions s).dvr.connecting = (w.sessions s).dvr.connecting := by
  have hjoin' : S.join ≠ none → False := fun hne => hne hjoin
  cases ha with
  | uvCall hr => rw [(MemOnly.uvCall hr).sessions]
  | emit _ _ _ _ => rfl
  | encodeNew _ _ _ hr => rw [(MemOnly.encodeNew hr).sessions]
  | receive _ => rfl
  | drop _ => rfl
  | addFrame _ _ => rfl
  | increaseRef _ => rfl
  | addRef _ _ => rfl
  | destroy _ => rfl
  | dropRef _ hr => rw [(MemOnly.onSmtsClientSendFrame hr).sessions]
  | destroyFrame _ _ => rfl
  | send _ _ _ _ hr => rw [(MemOnly.tcpClientSendMsg hr).sessions]
  | sendPreviewRes _ _ _ hr =>
      rw [(MemOnly.tcpClientSendMsg hr).sessions]
      rfl
  | complete _ _ _ => rfl
  | previewResDone _ _ _ _ => rfl
  | relay _ _ => rfl
  | @stop c _ =>
      obtain ⟨-, h⟩ | ⟨-, -, h⟩ | ⟨-, t, -, h⟩ := stopSmtsClient_cases w c <;> rw [h]
      by_cases hs : s = t
      · subst hs
        simp [SmtsSession.leave]
      · simp [Function.update_of_ne hs]
  | @touch t x ht =>
      by_cases hs : s = t
      · subst hs
        rw [setSession_sessions, Function.update_self]
        -- the flag changes only on behalf of a connect, or of a session that is set up
        rcases ht.connecting with hreq | hne | hsame
        · cases hrequest.symm.trans hreq
        · exact (hjoin' hne).elim
        · exact hsame
      · rw [setSession_sessions, Function.update_of_ne hs]
  | delete hr =>
      obtain ⟨m, rfl⟩ := deleteSession_eq hr
      rfl
  | initClient _ => rfl
  | startRead _ _ => rfl
  | close _ _ => rfl
  | closed _ => rfl
  | initSession hne _ => exact (hjoin' hne).elim
  | attach hS _ => exact (hjoin' (by simp [hS])).elim
  | manage hne _ => exact (hjoin' hne).elim
  | abort hS _ => exact (hjoin' (by simp [hS])).elim

theorem Action.request (hwrite : S.write = none) (hrequest : S.request = none)
    (ha : Action S w₀ w w') : ∃ m, w'.log = w.log ++ m ∧ ∀ o ∈ m, o.request? = none := by
  obtain hu | ⟨v, t, p, cb, r, hu, hr⟩ := ha.unasked hwrite hrequest
  · obtain ⟨m, hm, hmo⟩ := hu.log
    exact ⟨m, hm, fun o ho => (hmo o ho).2⟩
  · obtain ⟨m, hm, hmo⟩ := hu.log
    refine ⟨m ++ [_], by rw [tcpClientSendMsg_log hr, hm, List.append_assoc], fun o ho => ?_⟩
    rcases List.mem_append.mp ho with ho | ho
    · exact (hmo o ho).2
    · rw [List.mem_singleton.mp ho]
      rfl

/-- A callback that completes neither a write nor a connect frees no request. -/
theorem Does.request (hwrite : S.write = none) (hrequest : S.request = none) (hd : Does S w₀ w) :
    ∃ m, w.log = w₀.log ++ m ∧ ∀ o ∈ m, o.request? = none := by
  induction hd with
  | start => exact ⟨[], (List.append_nil _).symm, by simp⟩
  | step _ ha ih =>
      obtain ⟨m, hm, hmo⟩ := ih
      obtain ⟨m', hm', hmo'⟩ := ha.request hwrite hrequest
      exact ⟨m ++ m', by rw [hm', hm, List.append_assoc], fun o ho =>
        (List.mem_append.mp ho).elim (hmo o) (hmo' o)⟩

theorem connectFrees_congr {m : List Obs} (hlog : w'.log = w.log ++ m)
    (hm : ∀ o ∈ m, o.request? = none)
    (hs : (w'.sessions s).dvr.connecting = (w.sessions s).dvr.connecting) :
    w'.connectFrees s = w.connectFrees s := by
  rw [connectFrees, connectFrees, count_free hlog hm rfl, hs]

theorem Does.connecting (hjoin : S.join = none) (hrequest : S.request = none) (hd : Does S w₀ w)
    (s : Nat) : (w.sessions s).dvr.connecting = (w₀.sessions s).dvr.connecting := by
  induction hd with
  | start => rfl
  | step _ ha ih => exact (ha.connecting hjoin hrequest s).trans ih

theorem Does.connectFrees (hjoin : S.join = none) (hwrite : S.write = none)
    (hrequest : S.request = none) (hd : Does S w₀ w) (s : Nat) :
    w.connectFrees s = w₀.connectFrees s := by
  obtain ⟨m, hlog, hm⟩ := hd.request hwrite hrequest
  exact connectFrees_congr hlog hm (hd.connecting hjoin hrequest s)

end Connects

/-! ## The callbacks -/

section Callbacks

variable {w w' : Server} {fuel k s c : Nat} {status r : Int} {e : Event} {key : SessionKey}

/-- The request of a write is freed when all else is done. -/
theorem tcpClientSendMsgCb_asks (hr : w.tcpClientSendMsgCb fuel k status = some w') :
    ∃ req v w₁ S, w.writes[k]? = some req ∧ Unasked (w.eraseWrite k) v ∧ v.sessions = w.sessions ∧
      v.nSessions = w.nSessions ∧ (S.join = none ∧ S.write = none ∧ S.request = none) ∧ Does S v w₁ ∧
      w' = w₁.emit (.free (.writeReq req.id)) := by
  obtain ⟨req, hk, hr⟩ := Option.bind_eq_some_iff.mp hr
  obtain ⟨w₁, hcb, hr⟩ := Option.bind_eq_some_iff.mp hr
  have hw := (Option.some.inj hr).symm
  have hdestroy : Unasked (w.eraseWrite k) ((w.eraseWrite k).protoCmdDestroy req.packet) :=
    .protoCmdDestroy _ _
  have hstop : ∀ (v : Server) (c : Nat), Does {} v (v.stopSmtsClient c) := fun v c =>
    Does.start.step (.stop (.inl trivial))
  obtain ⟨id, target, p, cb⟩ := req
  cases cb with
  | previewResSlient =>
      cases target with
      | client c =>
          obtain rfl := Option.some.inj hcb
          have hdone := hdestroy.trans (.emit _ (o := .previewResDone c) rfl rfl)
          refine ⟨_, _, _, {}, hk, ?_, ?_, ?_, ⟨rfl, rfl, rfl⟩, .start, hw⟩
          · exact hdone.trans (.of_log_eq rfl rfl rfl)
          · rfl
          · rfl
      | dvr s => cases hcb
  | errorPreviewRes =>
      cases target with
      | client c =>
          obtain rfl := Option.some.inj hcb
          exact ⟨_, _, _, {}, hk, hdestroy, rfl, rfl, ⟨rfl, rfl, rfl⟩, hstop _ c, hw⟩
      | dvr s => cases hcb
  | sendFrame =>
      cases target with
      | client c =>
          obtain ⟨w₂, hdrop, hcb⟩ := Option.bind_eq_some_iff.mp hcb
          have hn := (MemOnly.onSmtsClientSendFrame hdrop).toSameNet
          split at hcb
          · obtain rfl := Option.some.inj hcb
            exact ⟨_, w₂, _, {}, hk, .onSmtsClientSendFrame hdrop, hn.sessions, hn.nSessions,
              ⟨rfl, rfl, rfl⟩, hstop w₂ c, hw⟩
          · obtain rfl := Option.some.inj hcb
            exact ⟨_, w₂, _, {}, hk, .onSmtsClientSendFrame hdrop, hn.sessions, hn.nSessions,
              ⟨rfl, rfl, rfl⟩, .start, hw⟩
      | dvr s => cases hcb
  | commonRes =>
      cases target with
      | client c =>
          obtain rfl := Option.some.inj hcb
          exact ⟨_, _, _, {}, hk, hdestroy, rfl, rfl, ⟨rfl, rfl, rfl⟩, .start, hw⟩
      | dvr s => cases hcb
  | dvrPreview =>
      cases target with
      | client c => cases hcb
      | dvr s =>
          have hd := Does.start.onSmtsDvrClientSendPreview (S := { dvr := some s }) rfl
            (Scope.loops_of_forall (fun _ => trivial) _ s) hcb
          exact ⟨_, _, w₁, _, hk, hdestroy, rfl, rfl, ⟨rfl, rfl, rfl⟩, hd, hw⟩
  | sendCmdToDvr =>
      cases target with
      | client c => cases hcb
      | dvr s =>
          obtain rfl := Option.some.inj hcb
          exact ⟨_, _, _, {}, hk, hdestroy, rfl, rfl, ⟨rfl, rfl, rfl⟩, .start, hw⟩

/-- The request of a connect is freed at the end of its callback. -/
theorem onTcpClientConnectCb_asks (hr : w.onTcpClientConnectCb fuel s status = some w') :
    ∃ w₁, Does { dvr := some s } (w.setSession s { w.sessions s with
        dvr := { (w.sessions s).dvr with connecting := false } }) w₁ ∧
      w' = w₁.emit (.free (.connectReq s)) := by
  obtain ⟨w₁, hconn, hr⟩ := Option.bind_eq_some_iff.mp hr
  exact ⟨w₁, Does.start.onConnectedToDvr rfl (Scope.loops_of_forall (fun _ => trivial) _ s) hconn,
    (Option.some.inj hr).symm⟩

/-- What becomes of a new session concerns no other's connect. -/
theorem mediaClientStartPreview_connecting (hs : s < w.nSessions)
    (hr : w.mediaClientStartPreview fuel c key = some (w', r)) :
    (w'.sessions s).dvr.connecting = (w.sessions s).dvr.connecting := by
  obtain ⟨found, hget, -⟩ := Option.bind_eq_some_iff.mp hr
  cases found with
  | none =>
      obtain ⟨-, -, -, hothers, -⟩ := (mediaClientStartPreview_new hget hr).spec
      rw [hothers s hs.ne]
      simp [Function.update_of_ne hs.ne]
  | some t =>
      obtain ⟨-, hres⟩ := mediaClientStartPreview_found hget hr
      have hd := (Does.start (S := {})).smtsClientSendPreviewRes (.inl trivial) hres
      rw [hd.connecting rfl rfl s]
      by_cases hst : s = t
      · subst hst
        simp
      · simp [Function.update_of_ne hst]

/-- The response to a request that has failed concerns nobody's. -/
theorem dispatchPreview_asks {bytes : List Byte} {junk : Int → Byte}
    (hprev : (Event.packet c bytes junk).preview = some c)
    (hr : w.dispatchPacket fuel c bytes junk = some w') :
    ∃ t w₁ r, ((w.setHeap (w.heap.receive bytes).1).addCmd t).mediaClientStartPreview fuel c
        (playKey t) = some (w₁, r) ∧ Handles none w₁ w' ∧ w'.sessions = w₁.sessions := by
  obtain ⟨t, w₁, hstart, rfl⟩ := dispatchPacket_preview hprev hr
  obtain ⟨w₂, r, hmedia, hcase⟩ := smtsStartPreview_cases hstart
  have hkey : (((w.setHeap (w.heap.receive bytes).1).addCmd t).cmds w.nCmds) = t := by simp
  rw [hkey] at hmedia
  have hdestroy := Handles.protoCmdDestroy (t := none) w₁ w.nCmds
  obtain ⟨-, rfl⟩ | ⟨-, w₃, w₄, r', henc, hsend, hw⟩ := hcase
  · exact ⟨t, w₁, r, hmedia, hdestroy, rfl⟩
  · have hd := (Does.start (S := {})).errorPreviewRes (c := c) (.inl trivial) henc
    have hn := (MemOnly.encodeNew henc).toSameNet.trans (MemOnly.tcpClientSendMsg hsend).toSameNet
    rw [hsend] at hd
    rcases hw with rfl | rfl
    · exact ⟨t, w₂, r, hmedia, (hd.1.handles rfl).trans hdestroy, hn.sessions⟩
    · exact ⟨t, w₂, r, hmedia, (hd.2.handles rfl).trans hdestroy, hn.sessions⟩

/-- A step does not change how often a connect request that was there before is
freed in the end. -/
theorem connectFrees_step (hs : s < w.nSessions) (hstep : Step w e w') :
    w'.connectFrees s = w.connectFrees s := by
  obtain ⟨hen, fuel, hr⟩ := hstep
  have hd := handle_does_any hen hr
  cases e with
  | packet c bytes junk =>
      by_cases hprev : (Event.packet c bytes junk).preview = none
      · exact hd.connectFrees hprev rfl rfl s
      · obtain ⟨d, hd'⟩ := Option.ne_none_iff_exists'.mp hprev
        obtain ⟨bytes', junk', heq⟩ := Event.preview_eq_some hd'
        obtain rfl : c = d := (Event.packet.inj heq).1
        obtain ⟨m, hlog, hm⟩ := hd.request rfl rfl
        obtain ⟨t, w₁, r, hmedia, -, hsessions⟩ := dispatchPreview_asks hd' hr
        let w₀ := (w.setHeap (w.heap.receive bytes).1).addCmd t
        have hs₀ : s < w₀.nSessions := hs
        have hold := mediaClientStartPreview_connecting hs₀ hmedia
        exact connectFrees_congr hlog hm (by rw [hsessions]; exact hold)
  | dvrConnected t status =>
      obtain ⟨w₁, hbody, rfl⟩ := onTcpClientConnectCb_asks hr
      have hsame := hbody.connectFrees rfl rfl rfl s
      rw [connectFrees, connectFrees, setSession_log, setSession_sessions] at hsame
      rw [connectFrees, connectFrees, emit_log, List.count_append, emit_sessions]
      -- the callback of the connect puts out the flag and frees the request
      by_cases hst : s = t
      · subst hst
        have hconn : (w.sessions s).dvr.connecting = true := hen.2
        simp only [Function.update_self, Bool.false_eq_true, if_false] at hsame
        simp [hconn]
        omega
      · rw [Function.update_of_ne hst] at hsame
        simp [Ne.symm hst]
        omega
  | writeDone k status =>
      obtain ⟨req, v, w₁, S, -, hu, hsessions, -, ⟨hjoin, hwrite, hrequest⟩, hbody, rfl⟩ :=
        tcpClientSendMsgCb_asks hr
      obtain ⟨m, hlog, hm⟩ := hu.log
      have hfirst : v.connectFrees s = w.connectFrees s :=
        connectFrees_congr hlog (fun o ho => (hm o ho).2) (by rw [hsessions])
      rw [← hfirst, ← hbody.connectFrees hjoin hwrite hrequest s, connectFrees, connectFrees, emit_log,
        List.count_append, emit_sessions]
      simp
  | _ => exact hd.connectFrees rfl rfl rfl s

/-- The books of the write and connect requests between two callbacks. -/
structure Requests (w : Server) : Prop where
  writes : WriteReqs none w
  fresh : ∀ s, w.nSessions ≤ s → w.log.count (.free (.connectReq s)) = 0

theorem init_requests (uv : Nat → Int) (garbage : Nat → Values NvmpName) :
    Requests (init uv garbage) :=
  ⟨⟨rfl, fun _ => rfl⟩, fun _ _ => rfl⟩

theorem Requests.step (h : Requests w) (hstep : Step w e w') : Requests w' := by
  obtain ⟨hen, fuel, hr⟩ := hstep
  have hd := handle_does_any hen hr
  -- no request is freed but the callback's own
  have hfresh : ∀ {m : List Obs}, w'.log = w.log ++ m →
      (∀ s, .free (.connectReq s) ∈ m → s < w.nSessions) →
      ∀ s, w'.nSessions ≤ s → w'.log.count (.free (.connectReq s)) = 0 := fun hlog hm s hs => by
    have hle : w.nSessions ≤ s := hd.grows.nSessions.trans hs
    rw [hlog, List.count_append, h.fresh s hle, Nat.zero_add]
    exact List.count_eq_zero.mpr fun hmem => absurd (hm s hmem) (not_lt.mpr hle)
  have hnone : ∀ {m : List Obs} {s : Nat}, (∀ o ∈ m, o.request? = none) → .free (.connectReq s) ∉ m :=
    fun hm hmem => Option.some_ne_none _ (hm _ hmem)
  have hquiet : ∀ S : Scope, S.write = none → S.request = none → Does S w w' → Requests w' :=
    fun S hwrite hrequest hd => by
      obtain ⟨m, hlog, hm⟩ := hd.request hwrite hrequest
      exact ⟨h.writes.does hwrite hrequest hd, hfresh hlog fun s hmem => absurd hmem (hnone hm)⟩
  cases e with
  | dvrConnected t status =>
      obtain ⟨w₁, hbody, rfl⟩ := onTcpClientConnectCb_asks hr
      obtain ⟨m, hlog, hm⟩ := hbody.request rfl rfl
      rw [setSession_log] at hlog
      refine ⟨?_, hfresh (m := m ++ [.free (.connectReq t)]) ?_ fun s hmem => ?_⟩
      · have hfirst : WriteReqs none (w.setSession t { w.sessions t with
            dvr := { (w.sessions t).dvr with connecting := false } }) :=
          h.writes.unasked (.of_log_eq rfl rfl rfl)
        exact (hfirst.does rfl rfl hbody).connect t
      · rw [emit_log, hlog, List.append_assoc]
      · rcases List.mem_append.mp hmem with hmem | hmem
        · exact absurd hmem (hnone hm)
        · obtain rfl : s = t := by simpa using hmem
          exact hen.1
  | writeDone k status =>
      obtain ⟨req, v, w₁, S, hk, hu, -, -, ⟨-, hwrite, hrequest⟩, hbody, rfl⟩ := tcpClientSendMsgCb_asks hr
      obtain ⟨m, hlog, hm⟩ := hu.log
      obtain ⟨m', hlog', hm'⟩ := hbody.request hwrite hrequest
      rw [eraseWrite_log] at hlog
      refine ⟨(((h.writes.eraseWrite hk).unasked hu).does hwrite hrequest hbody).free,
        hfresh (m := m ++ m' ++ [.free (.writeReq req.id)]) ?_ fun s hmem => ?_⟩
      · rw [emit_log, hlog', hlog, List.append_assoc, List.append_assoc, List.append_assoc]
      · rcases List.mem_append.mp hmem with hmem | hmem
        · rcases List.mem_append.mp hmem with hmem | hmem
          · exact absurd hmem (hnone fun o ho => (hm o ho).2)
          · exact absurd hmem (hnone hm')
        · simp at hmem
  | _ => exact hquiet _ rfl rfl hd

/-! ## What the calls of a connect return -/

/-- `tcp_client_connect` succeeds just when all its calls do. -/
theorem tcpClientConnect_eq_zero (hr : w.tcpClientConnect s = (w', r)) :
    r = 0 ↔ ∀ i < 5, w.uv (w.nUv + i) = 0 := by
  have hall : (∀ i < 5, w.uv (w.nUv + i) = 0) ↔ w.uv w.nUv = 0 ∧ w.uv (w.nUv + 1) = 0 ∧
      w.uv (w.nUv + 2) = 0 ∧ w.uv (w.nUv + 3) = 0 ∧ w.uv (w.nUv + 4) = 0 := by
    refine ⟨fun h => ⟨h 0 (by decide), h 1 (by decide), h 2 (by decide), h 3 (by decide),
      h 4 (by decide)⟩, fun ⟨h₀, h₁, h₂, h₃, h₄⟩ i hi => ?_⟩
    interval_cases i <;> assumption
  rw [hall]
  rw [tcpClientConnect] at hr
  dsimp only at hr
  split at hr
  next h₀ =>
    obtain ⟨-, rfl⟩ := Prod.mk.inj hr
    exact ⟨fun h => absurd h (by decide), fun h => absurd h.1 h₀⟩
  next h₀ =>
    have h₀ : w.uv w.nUv = 0 := not_not.mp h₀
    split at hr
    next h₁ =>
      obtain ⟨-, rfl⟩ := Prod.mk.inj hr
      exact ⟨fun h => absurd h h₁, fun h => absurd h.2.1 h₁⟩
    next h₁ =>
      have h₁ : w.uv (w.nUv + 1) = 0 := not_not.mp h₁
      split at hr
      next h₂ =>
        obtain ⟨-, rfl⟩ := Prod.mk.inj hr
        exact ⟨fun h => absurd h h₂, fun h => absurd h.2.2.1 h₂⟩
      next h₂ =>
        have h₂ : w.uv (w.nUv + 2) = 0 := not_not.mp h₂
        split at hr
        next h₃ =>
          obtain ⟨-, rfl⟩ := Prod.mk.inj hr
          exact ⟨fun h => absurd h h₃, fun h => absurd h.2.2.2.1 h₃⟩
        next h₃ =>
          have h₃ : w.uv (w.nUv + 3) = 0 := not_not.mp h₃
          split at hr
          next h₄ =>
            obtain ⟨-, rfl⟩ := Prod.mk.inj hr
            exact ⟨fun h => absurd h h₄, fun h => absurd h.2.2.2.2 h₄⟩
          next h₄ =>
            obtain ⟨-, rfl⟩ := Prod.mk.inj hr
            exact ⟨fun h => ⟨h₀, h₁, h₂, h₃, h⟩, fun _ => not_not.mp h₄⟩

theorem initSmtsDvrClient_uv (hr : w.initSmtsDvrClient s = (w', r)) :
    w'.uv = w.uv ∧ w'.nUv = w.nUv + 1 := by
  obtain rfl := (congrArg Prod.fst hr).symm
  rw [initSmtsDvrClient]
  dsimp only
  split <;> exact ⟨rfl, rfl⟩

/-- When `tcp_client_connect` was called, a connect is under way just when its
calls succeeded. -/
theorem Starts.connecting (h : Starts fuel w s c w' r) (hnone : .uvInit (.dvr s) ∉ w.log)
    (hconn : (w.sessions s).dvr.connecting = false) (hcalled : w'.log.count (.uvInit (.dvr s)) = 2) :
    (w'.sessions s).dvr.connecting = true ↔ ∀ i < 5, w.uv (w.nUv + 1 + i) = 0 := by
  obtain ⟨-, -, -, -, -, hsession⟩ := h.spec
  have hcount := List.count_eq_zero.mpr hnone
  have hzero : (w'.sessions s).dvr.connecting = true ↔ r = 0 := by
    obtain ⟨hr, -, hs⟩ | ⟨hr, -, hs⟩ := hsession
    · simp [hs, hr, hconn]
    · simp [hs, hr]
  rw [hzero]
  cases h with
  | initFails hinit _ => simp [initSmtsDvrClient_log hinit, hcount] at hcalled
  | addFails hinit _ _ => simp [initSmtsDvrClient_log hinit, hcount] at hcalled
  | connectFails hinit _ hr _ _ =>
      obtain ⟨huv, hn⟩ := initSmtsDvrClient_uv hinit
      rw [tcpClientConnect_eq_zero hr]
      simp [huv, hn]
  | connects hinit _ hr =>
      obtain ⟨huv, hn⟩ := initSmtsDvrClient_uv hinit
      rw [tcpClientConnect_eq_zero hr]
      simp [huv, hn]

theorem mediaClientStartPreview_called (hnone : .uvInit (.dvr w.nSessions) ∉ w.log)
    (hr : w.mediaClientStartPreview fuel c key = some (w', r))
    (hcalled : w'.log.count (.uvInit (.dvr w.nSessions)) = 2) :
    (w'.sessions w.nSessions).dvr.connecting = true ↔ ∀ i < 5, w.uv (w.nUv + 1 + i) = 0 := by
  obtain ⟨found, hget, -⟩ := Option.bind_eq_some_iff.mp hr
  cases found with
  | none =>
      have hstarts := mediaClientStartPreview_new hget hr
      refine hstarts.connecting ?_ (by simp) hcalled
      simpa using hnone
  | some t =>
      obtain ⟨-, hres⟩ := mediaClientStartPreview_found hget hr
      have hd := (Does.start (S := {})).smtsClientSendPreviewRes (.inl trivial) hres
      obtain ⟨m, hlog, hm⟩ := ((Handles.addSmtsClient w t c).trans (hd.handles rfl)).log
      rw [count_unhandled hlog (hm w.nSessions (by simp)) rfl, List.count_eq_zero.mpr hnone] at hcalled
      cases hcalled

/-- What the new session's sum is when its first callback has returned. -/
theorem connectFrees_called (hlooked : LookedUp w) (hreq : Requests w) (hmis : Mishandled w)
    (hstep : Step w e w') (hcalled : w'.log.count (.uvInit (.dvr w.nSessions)) = 2) :
    w'.connectFrees w.nSessions ≤ 1 ∧
      (w'.connectFrees w.nSessions = 1 ↔ ∀ i < 5, w.uv (w.nUv + 1 + i) = 0) := by
  have hnone : .uvInit (.dvr w.nSessions) ∉ w.log := fun hmem =>
    lt_irrefl _ ((hlooked w.nSessions).mp hmem)
  cases hprev : e.preview with
  | none =>
      obtain ⟨t, hh, ht⟩ := hmis.stepHandles hprev hstep
      obtain ⟨m, hlog, hm⟩ := hh.log
      have hne : t ≠ some w.nSessions := fun heq => lt_irrefl _ (ht _ heq)
      rw [count_unhandled hlog (hm _ hne) rfl, List.count_eq_zero.mpr hnone] at hcalled
      cases hcalled
  | some c =>
      obtain ⟨bytes, junk, rfl⟩ := Event.preview_eq_some hprev
      obtain ⟨hen, fuel, hr⟩ := hstep
      obtain ⟨m, hlog, hm⟩ := (handle_does_any hen hr).request rfl rfl
      obtain ⟨t, w₁, r, hmedia, hh, hsessions⟩ := dispatchPreview_asks hprev hr
      obtain ⟨m', hlog', hm'⟩ := hh.log
      rw [count_unhandled hlog' (hm' w.nSessions (by simp)) rfl] at hcalled
      let w₀ := (w.setHeap (w.heap.receive bytes).1).addCmd t
      have hconn : (w₁.sessions w.nSessions).dvr.connecting = true ↔ ∀ i < 5, w.uv (w.nUv + 1 + i) = 0 :=
        mediaClientStartPreview_called (w := w₀) hnone hmedia hcalled
      rw [connectFrees, count_free hlog hm rfl, hreq.fresh _ le_rfl, hsessions, Nat.zero_add, ← hconn]
      split
      · simp_all
      · simp_all

end Callbacks

/-! ## The preview command -/

/-- The preview command `p` in buffer `b` has `n` owners besides the write of
it. -/
structure Previewed (w : Server) (p b n : Nat) : Prop
    extends Counted (.received p b) p (objects p b) w n where
  frees : (w.cmds p).frees = [.block ⟨b, 0⟩, .slots, .struct]
  ref : (w.cmds p).ref = 0
  sends : ∀ req ∈ w.writesOf p, ∃ s, req.client = .dvr s ∧ req.cb = .dvrPreview
  owners : n + (w.writesOf p).length ≤ 1

section Preview

variable {w w' : Server} {fuel p b n s : Nat} {e : Event}

theorem Previewed.spares (h : Previewed w p b n) (hs : Spares (.received p b) w w') :
    Previewed w' p b n := by
  have hcmd : w'.cmds p = w.cmds p := hs.kept.cmds p rfl
  have hwrites : w'.writesOf p = w.writesOf p := hs.kept.writes p rfl
  exact ⟨h.toCounted.spares hs, hcmd ▸ h.frees, hcmd ▸ h.ref, hwrites ▸ h.sends, hwrites ▸ h.owners⟩

/-- When its write completes it is destroyed; nothing else concerns it. -/
theorem Previewed.step (h : Previewed w p b n) (hstep : Step w e w') : Previewed w' p b n := by
  by_cases he : Completes (.received p b) w e
  · obtain ⟨k, status, req, rfl, hk, rfl⟩ := he
    obtain ⟨-, fuel, hr⟩ := hstep
    obtain ⟨req', hk', hr⟩ := Option.bind_eq_some_iff.mp hr
    obtain rfl := Option.some.inj (hk.symm.trans hk')
    obtain ⟨w₁, hcb, hr⟩ := Option.bind_eq_some_iff.mp hr
    obtain rfl := Option.some.inj hr
    have hmem : req ∈ w.writesOf req.packet :=
      List.mem_filter.mpr ⟨List.mem_of_getElem? hk, by simp⟩
    have hlen : ((w.eraseWrite k).writesOf req.packet).length + 1 = (w.writesOf req.packet).length :=
      length_filter_eraseIdx hk (by simp)
    have howners := h.owners
    obtain rfl : n = 0 := by omega
    have hnil : (w.eraseWrite k).writesOf req.packet = [] :=
      List.eq_nil_of_length_eq_zero (by omega)
    obtain ⟨s, hs, hcmd⟩ := h.sends req hmem
    rw [sendCb, hs, hcmd] at hcb
    have hdestroyed := (h.toCounted.eraseWrite hk rfl).destroy h.frees h.ref hnil
    have hd := Does.start.onSmtsDvrClientSendPreview (S := { dvr := some s }) rfl
      (Scope.loops_of_forall (fun _ => trivial) _ s) hcb
    have hcmds : ((w.eraseWrite k).protoCmdDestroy req.packet).cmds = w.cmds := by
      rw [protoCmdDestroy_last (w := w.eraseWrite k) h.ref]
      rfl
    have hnil₁ : ((w.eraseWrite k).protoCmdDestroy req.packet).writesOf req.packet = [] := hnil
    have h₁ : Previewed ((w.eraseWrite k).protoCmdDestroy req.packet) req.packet b 0 :=
      ⟨hdestroyed, hcmds ▸ h.frees, hcmds ▸ h.ref, by simp [hnil₁], by simp [hnil₁]⟩
    have h₂ := h₁.spares (h₁.apart.does (by rintro req ⟨⟩) hd)
    exact h₂.spares (h₂.apart.emit trivial)
  · exact h.spares (h.apart.step he hstep)

/-- What `uv_write` returns decides whether the command is freed. -/
theorem Apart.previewed (h : Apart .none w) (hr : w.onConnectedToDvr fuel s 0 = some w') :
    Previewed w' w.nCmds w.heap.blocks.length (if w.uv w.nUv = 0 then 0 else 1) := by
  obtain ⟨⟨w₃, r⟩, hprev, hr⟩ := Option.bind_eq_some_iff.mp hr
  obtain ⟨v, w₂, henc, hsend, hcase⟩ := smtsDvrClientPreview_cases hprev
  have hwf : mockDvrPreview.WellFormed := (payloadFree_spec (by decide)).1
  obtain ⟨block, t, rfl, -, -, href, hfrees, -⟩ := encodeNew_spec hwf henc
  obtain ⟨hmade, hnone⟩ := h.made block t
  let w₁ := (w.setHeap ⟨w.heap.blocks ++ [block]⟩).addCmd t
  have hcmd : w₁.cmds w.nCmds = t := Function.update_self ..
  have hsend : w₁.tcpClientSendMsg (.dvr s) w.nCmds .dvrPreview = (w₂, r) := hsend
  obtain rfl : w.uv w.nUv = r :=
    (tcpClientSendMsg_snd w₁ (.dvr s) w.nCmds .dvrPreview).symm.trans (congrArg Prod.snd hsend)
  have hcmds : w₂.cmds = w₁.cmds := by
    obtain ⟨-, rfl⟩ | ⟨-, rfl⟩ := tcpClientSendMsg_cases hsend <;> rfl
  have hfrees₂ : (w₂.cmds w.nCmds).frees = [.block ⟨w.heap.blocks.length, 0⟩, .slots, .struct] := by
    rw [hcmds, hcmd, hfrees]
  have href₂ : (w₂.cmds w.nCmds).ref = 0 := by rw [hcmds, hcmd, href]
  obtain ⟨hqueued, hfailed⟩ := hmade.send hsend
  have h₂ : Previewed w₂ w.nCmds w.heap.blocks.length (if w.uv w.nUv = 0 then 0 else 1) := by
    by_cases hz : w.uv w.nUv = 0
    · obtain ⟨hc, i, hwrites⟩ := hqueued hz
      rw [hnone, List.nil_append] at hwrites
      rw [if_pos hz]
      exact ⟨hc, hfrees₂, href₂, by simp [hwrites], by simp [hwrites]⟩
    · obtain ⟨hc, hwrites⟩ := hfailed hz
      rw [hnone] at hwrites
      rw [if_neg hz]
      exact ⟨hc, hfrees₂, href₂, by simp [hwrites], by simp [hwrites]⟩
  have hloop : ∀ v, Scope.Loops { dvr := some s } v s := fun v =>
    Scope.loops_of_forall (fun _ => trivial) _ s
  -- what comes behind `uv_write` does not come near the command
  have hd₃ : Does { dvr := some s } w₂ w₃ := by
    obtain ⟨-, rfl⟩ | ⟨-, hres⟩ := hcase
    · exact .start
    · exact Does.start.onSmtsDvrClientSendPreview rfl (hloop w₂) hres
  have hd : Does { dvr := some s } w₂ w' := by
    dsimp only at hr
    split at hr
    · exact (hd₃.setExitCode (.inl rfl) _).stopMediaSession (hloop w₂) hr
    · obtain rfl := Option.some.inj hr
      exact hd₃
  exact h₂.spares (h₂.apart.does (by rintro req ⟨⟩) hd)

end Preview

/-! ## Over a run -/

section Run

variable {uv : Nat → Int} {garbage : Nat → Values NvmpName} {es es' : List Event}
  {w w₁ w₂ : Server} {x : Obj} {pending : Prop} {e : Event}

/-- A request that is pending is freed later, so that only the sum counts. -/
theorem freedInTime_iff {k n : Nat} (hpending : pending ↔ k ≠ 0)
    (hsum : w.log.count (.free x) + k = n) (hn : n ≤ 1) : FreedInTime w x pending ↔ n = 1 := by
  constructor
  · rintro ⟨-, hdone⟩
    by_cases hk : k = 0
    · have hcount := hdone fun hp => hpending.mp hp hk
      omega
    · omega
  · rintro rfl
    refine ⟨fun hp => ?_, fun hp => ?_⟩
    · have hk := hpending.mp hp
      omega
    · have hk : k = 0 := not_not.mp fun hne => hp (hpending.mpr hne)
      omega

theorem WriteReqs.freedInTime_iff {id : Nat} {r : Int} (h : WriteReqs none w)
    (hr : (results w.log)[id]? = some r) :
    FreedInTime w (.writeReq id) (∃ req ∈ w.writes, req.id = id) ↔ r = 0 := by
  have hpending : (∃ req ∈ w.writes, req.id = id) ↔
      (w.writes.countP fun req => req.id = id) ≠ 0 := by
    rw [← Nat.pos_iff_ne_zero, List.countP_pos_iff]
    simp
  have hfrees : w.writeFrees id = if r = 0 then 1 else 0 := by simpa [hr] using h.frees id
  rw [Server.freedInTime_iff hpending hfrees (by split <;> omega)]
  split <;> simp_all

theorem Previewed.freedInTime_iff {p b n : Nat} (h : Previewed w p b n) :
    FreedInTime w (.cmd p) (∃ req ∈ w.writes, req.packet = p) ↔ n = 0 := by
  have hpending : (∃ req ∈ w.writes, req.packet = p) ↔ (w.writesOf p).length ≠ 0 := by
    rw [← Nat.pos_iff_ne_zero, List.length_pos_iff_exists_mem]
    simp [writesOf]
  have hfreed := h.freed (.cmd p) (by simp [objects])
  have howners := h.owners
  have hsum : w.log.count (.free (.cmd p)) + (w.writesOf p).length = 1 - n := by
    rw [hfreed]
    split <;> omega
  rw [Server.freedInTime_iff hpending hsum (Nat.sub_le ..)]
  omega

theorem nSessions_le (hstep : Step w e w₁) : w.nSessions ≤ w₁.nSessions := by
  obtain ⟨hen, fuel, hr⟩ := hstep
  exact (handle_does_any hen hr).grows.nSessions

/-- **When the requests are freed**: the one of a write when `uv_write` returned
0; the one of a connect when a local address was found and all the calls after
that returned 0; the preview command when `uv_write` of it returned 0. Each of
them is then freed once, when its callback has run and not before, and is never
freed otherwise. -/
theorem freedInTime_of_run (h : Transition.Run Step (init uv garbage) es w) (hstep : Step w e w₁)
    (hrun : Transition.Run Step w₁ es' w₂) :
    (∀ id r, (results w₂.log)[id]? = some r →
      (FreedInTime w₂ (.writeReq id) (∃ req ∈ w₂.writes, req.id = id) ↔ r = 0)) ∧
    -- the second `uv_tcp_init` of a DVR client is `tcp_client_connect`'s
    (w₁.log.count (.uvInit (.dvr w.nSessions)) = 2 →
      (FreedInTime w₂ (.connectReq w.nSessions) ((w₂.sessions w.nSessions).dvr.connecting = true) ↔
        ∀ i < 5, w.uv (w.nUv + 1 + i) = 0)) ∧
    ∀ s, e = .dvrConnected s 0 →
      (FreedInTime w₂ (.cmd w.nCmds) (∃ req ∈ w₂.writes, req.packet = w.nCmds) ↔ w.uv w.nUv = 0) := by
  have hreq := h.invariant (fun _ _ _ hi hs => Requests.step hi hs) (init_requests uv garbage)
  obtain ⟨hlooked, hmis⟩ := lookedUp_of_run h
  refine ⟨fun id r hr => ?_, fun hcalled => ?_, ?_⟩
  · have hreq₂ := hrun.invariant (fun _ _ _ hi hs => Requests.step hi hs) (hreq.step hstep)
    exact hreq₂.writes.freedInTime_iff hr
  · obtain ⟨hle, hone⟩ := connectFrees_called hlooked hreq hmis hstep hcalled
    have hlooked₁ := (hlooked.step hmis hstep).1
    have hlt : w.nSessions < w₁.nSessions := (hlooked₁ w.nSessions).mp <|
      List.count_pos_iff.mp (by omega)
    have hsame : w.nSessions < w₂.nSessions ∧ w₂.connectFrees w.nSessions = w₁.connectFrees w.nSessions :=
      hrun.invariant (I := fun v => w.nSessions < v.nSessions ∧
          v.connectFrees w.nSessions = w₁.connectFrees w.nSessions)
        (fun _ _ _ ⟨hs, hsum⟩ hs' => ⟨hs.trans_le (nSessions_le hs'),
          (connectFrees_step hs hs').trans hsum⟩) ⟨hlt, rfl⟩
    rw [← hone, ← hsame.2]
    refine Server.freedInTime_iff (k := if (w₂.sessions w.nSessions).dvr.connecting = true then 1 else 0)
      ?_ rfl (hsame.2.trans_le hle)
    split <;> simp_all
  · rintro s rfl
    obtain ⟨-, fuel, hr⟩ := hstep
    obtain ⟨v, hconn, hr⟩ := Option.bind_eq_some_iff.mp hr
    obtain rfl := Option.some.inj hr
    let v₀ := w.setSession s { w.sessions s with dvr := { (w.sessions s).dvr with connecting := false } }
    have hapart : Apart .none v₀ := ((apart_of_run h).netOnly (.setSession ..) le_rfl).apart
    have h₁ : Previewed v w.nCmds w.heap.blocks.length (if w.uv w.nUv = 0 then 0 else 1) :=
      hapart.previewed hconn
    have h₂ := h₁.spares (h₁.apart.emit (o := .free (.connectReq s)) trivial)
    have hall := hrun.invariant (fun _ _ _ hi hs => Previewed.step hi hs) h₂
    rw [hall.freedInTime_iff]
    split <;> simp_all

/-- The DVR is connected to, and the preview command is written. -/
theorem freedInTime_of_run_preview0 :
    ∃ w, Transition.Run Step (init (fun _ => 0) fun _ => Values.zero)
        [.connection, preview0, .dvrConnected 0 0, .writeDone 0 0] w ∧
      FreedInTime w (.writeReq 0) (∃ req ∈ w.writes, req.id = 0) ∧
      FreedInTime w (.connectReq 0) ((w.sessions 0).dvr.connecting = true) ∧
      FreedInTime w (.cmd 1) (∃ req ∈ w.writes, req.packet = 1) := by
  obtain ⟨w, hw⟩ : ∃ w, connected0.handle 2 preview0 = some w :=
    Option.isSome_iff_exists.mp (by decide +kernel)
  have hval : (connected0.handle 2 preview0).map (fun w =>
      (w.log.count (.uvInit (.dvr 0)), w.nCmds, w.uv w.nUv)) = some (2, 1, 0) := by
    decide +kernel
  have hlater : ((connected0.handle 2 preview0).bind fun w =>
      (w.follow 2 [.dvrConnected 0 0]).bind fun w => (w.follow 2 [.writeDone 0 0]).map fun w => results w.log)
        = some [0, 0] := by
    decide +kernel
  rw [hw] at hval
  rw [hw, Option.bind_some] at hlater
  obtain ⟨w₁, hw₁, hlater⟩ := Option.bind_eq_some_iff.mp hlater
  obtain ⟨w₂, hw₂, hresults⟩ := Option.map_eq_some_iff.mp hlater
  obtain ⟨hcount, hn, huv⟩ := by simpa using hval
  have hconn : Step w (.dvrConnected 0 0) w₁ := Transition.Run.single_iff.mp (run_of_follow hw₁)
  have hdone : Transition.Run Step w₁ [.writeDone 0 0] w₂ := run_of_follow hw₂
  have hstart : Transition.Run Step (init (fun _ => 0) fun _ => Values.zero) [.connection] connected0 :=
    .single connected0_step
  have hstep : Step connected0 preview0 w := ⟨connected0_enabled, 2, hw⟩
  obtain ⟨hwrites, hconnects, -⟩ :=
    freedInTime_of_run hstart hstep ((Transition.Run.single hconn).trans hdone)
  obtain ⟨-, -, hpreview⟩ := freedInTime_of_run (.snoc hstart hstep) hconn hdone
  refine ⟨w₂, ((Transition.Run.snoc hstart hstep).snoc hconn).trans hdone, ?_, ?_, ?_⟩
  · exact (hwrites 0 0 (by rw [hresults]; rfl)).mpr rfl
  · exact (hconnects hcount).mpr fun _ _ => rfl
  · exact hn ▸ (hpreview 0 rfl).mpr huv

/-- The preview command cannot be written: neither it nor the request of its
write is ever freed. -/
theorem not_freedInTime_preview0 :
    ∃ w, Transition.Run Step (init (fun n => if n = 8 then -32 else 0) fun _ => Values.zero)
        [.connection, preview0, .dvrConnected 0 0] w ∧
      (results w.log)[0]? = some (-32) ∧
      ¬ FreedInTime w (.writeReq 0) (∃ req ∈ w.writes, req.id = 0) ∧
      ¬ FreedInTime w (.cmd 1) (∃ req ∈ w.writes, req.packet = 1) := by
  let start := init (fun n => if n = 8 then -32 else 0) fun _ => Values.zero
  have hval : (start.follow 2 [.connection, preview0, .dvrConnected 0 0]).map (fun w =>
      ((results w.log)[0]?, w.writes.map fun req => (req.id, req.packet),
        w.log.count (.free (.writeReq 0)), w.log.count (.free (.cmd 1))))
        = some (some (-32), [(1, 2)], 0, 0) := by
    decide +kernel
  obtain ⟨w, hw, hval⟩ := Option.map_eq_some_iff.mp hval
  simp only [Prod.mk.injEq] at hval
  obtain ⟨hresult, hwrites, hwrite, hcmd⟩ := hval
  refine ⟨w, run_of_follow hw, hresult, fun h => ?_, fun h => ?_⟩
  · have hone := h.2 fun ⟨req, hreq, hid⟩ => ?_
    · omega
    · have hmem := List.mem_map_of_mem (f := fun req : WriteReq => (req.id, req.packet)) hreq
      rw [hwrites, hid] at hmem
      simp at hmem
  · have hone := h.2 fun ⟨req, hreq, hp⟩ => ?_
    · omega
    · have hmem := List.mem_map_of_mem (f := fun req : WriteReq => (req.id, req.packet)) hreq
      rw [hwrites, hp] at hmem
      simp at hmem

end Run

end Server

end Smts
