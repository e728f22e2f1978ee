import Smts.Server.Callbacks
import Smts.Server.Channel
import Smts.Server.Teardown

/-!
# Server — what a preview is answered

A `preview_cmd_res` is sent from four places: when a session is joined, when
its DVR has the preview command, when a session is torn down and when it could
not be started. What it says is put together from a session's status, an exit
code and what a call returned, each of which is an `int` called `status`.
-/

namespace Smts

open Circular

/-- The client a `preview_cmd_res` is given to `uv_write` for, and the status
that is in it. Only a `preview_cmd_res` is sent with these callbacks. -/
def Obs.answer? : Obs → Option (Nat × BitVec 32)
  | .uvWrite (.client c) _ .previewResSlient bytes _ => bytes.map fun b => (c, wireStatus b)
  | .uvWrite (.client c) _ .errorPreviewRes bytes _ => bytes.map fun b => (c, wireStatus b)
  | _ => none

/-- All answers to preview requests in the log, in turn: the client and the
status word. -/
def answers (log : List Obs) : List (Nat × BitVec 32) := log.filterMap Obs.answer?

/-- The status words that one client is told, in turn. -/
def answersTo (c : Nat) (log : List Obs) : List (BitVec 32) :=
  ((answers log).filter fun a => a.1 = c).map Prod.snd

@[simp]
theorem answers_append (l m : List Obs) : answers (l ++ m) = answers l ++ answers m :=
  List.filterMap_append

/-- Nobody is answered, and nobody joins a session. -/
def Obs.Mute (o : Obs) : Prop := o.answer? = none ∧ ∀ c s, o ≠ .attach c s

theorem Obs.Mute.of_ofStream {o : Obs} (ho : o.ofStream = false) (ha : o.answer? = none) : o.Mute :=
  ⟨ha, by rintro c s rfl; cases ho⟩

namespace Server

/-! ## Answers of a callback -/

/-- `a` is answered, and nobody joins a session. -/
def Logs (a : List (Nat × BitVec 32)) (w w' : Server) : Prop :=
  ∃ m, w'.log = w.log ++ m ∧ answers m = a ∧ ∀ c s, .attach c s ∉ m

theorem Logs.trans {a b : List (Nat × BitVec 32)} {w u v : Server} (h : Logs a w u)
    (h' : Logs b u v) : Logs (a ++ b) w v := by
  obtain ⟨m, hm, ha, hmo⟩ := h
  obtain ⟨m', hm', hb, hmo'⟩ := h'
  exact ⟨m ++ m', by rw [hm', hm, List.append_assoc], by rw [answers_append, ha, hb],
    fun c s hmem => (List.mem_append.mp hmem).elim (hmo c s) (hmo' c s)⟩

theorem Logs.drop {a : List (Nat × BitVec 32)} {w w' : Server} (h : Logs a w w') :
    answers (w'.log.drop w.log.length) = a ∧ ∀ c s, .attach c s ∉ w'.log.drop w.log.length := by
  obtain ⟨m, hlog, ha, hm⟩ := h
  rw [hlog, List.drop_left]
  exact ⟨ha, hm⟩

/-- No session changes its status either, and no client goes back. -/
structure Tells (a : List (Nat × BitVec 32)) (w w' : Server) : Prop where
  log : Logs a w w'
  status : ∀ s, (w'.sessions s).status = (w.sessions s).status
  reading : ∀ s, (w'.sessions s).dvr.reading = true → (w.sessions s).dvr.reading = true
  session : ∀ c s, (w'.clients c).session = some s → (w.clients c).session = some s
  waits : ∀ c s, (w'.clients c).session = some s → (w'.clients c).status = .onInit →
    (w.clients c).status = .onInit

namespace Tells

variable {a b : List (Nat × BitVec 32)} {w w' : Server} {m : List Obs}

theorem refl (w : Server) : Tells [] w w :=
  ⟨⟨[], (List.append_nil _).symm, rfl, by simp⟩, fun _ => rfl, fun _ => id, fun _ _ => id,
    fun _ _ _ => id⟩

theorem trans {u v : Server} (h : Tells a w u) (h' : Tells b u v) : Tells (a ++ b) w v := by
  refine ⟨h.log.trans h'.log, fun s => (h'.status s).trans (h.status s), fun s => h.reading s ∘ h'.reading s,
    fun c s => h.session c s ∘ h'.session c s, fun c s hs hst => ?_⟩
  exact h.waits c s (h'.session c s hs) (h'.waits c s hs hst)

/-- What comes after answers nobody, so that the answers are those of the first
part. -/
theorem mute {u : Server} (h : Tells a w u) (h' : Tells [] u w') : Tells a w w' := by
  simpa using h.trans h'

/-- What came before answered nobody, so that the answers are those of the second
part. -/
theorem after {u : Server} (h : Tells [] w u) (h' : Tells a u w') : Tells a w w' :=
  h.trans h'

/-- A part of a callback that leaves the net as it is answers those its log names. -/
theorem of_sameNet (hn : SameNet w w') (hlog : w'.log = w.log ++ m)
    (hm : ∀ c s, .attach c s ∉ m) : Tells (answers m) w w' := by
  refine ⟨⟨m, hlog, rfl, hm⟩, fun s => by rw [hn.sessions], fun s => by rw [hn.sessions]; exact id,
    fun c s => by rw [hn.clients]; exact id, fun c s _ => by rw [hn.clients]; exact id⟩

theorem of_mute (hn : SameNet w w') (hlog : w'.log = w.log ++ m) (hm : ∀ o ∈ m, o.Mute) :
    Tells [] w w' := by
  have hnone : answers m = [] := List.filterMap_eq_nil_iff.mpr fun o ho => (hm o ho).1
  exact hnone ▸ of_sameNet hn hlog fun c s hmem => (hm _ hmem).2 c s rfl

theorem of_log_eq (hn : SameNet w w') (hlog : w'.log = w.log) : Tells [] w w' :=
  of_mute (m := []) hn (by rw [hlog, List.append_nil]) (by simp)

theorem emit (w : Server) {o : Obs} (ho : o.Mute) : Tells [] w (w.emit o) :=
  of_mute (.emit w o) (emit_log ..) (by simpa using ho)

theorem encodeNew {t : NvmpCmd} (hr : w.encodeNew t = some w') : Tells [] w w' :=
  of_log_eq (MemOnly.encodeNew hr).toSameNet (encodeNew_log hr)

theorem protoCmdDestroy (w : Server) (p : Nat) : Tells [] w (w.protoCmdDestroy p) := by
  refine of_mute (MemOnly.protoCmdDestroy w p).toSameNet (protoCmdDestroy_log w p) fun o ho => ?_
  obtain ⟨x, -, rfl⟩ := List.mem_map.mp ho
  exact .of_ofStream rfl rfl

theorem setCmd (w : Server) (p : Nat) (t : NvmpCmd) : Tells [] w (w.setCmd p t) :=
  of_log_eq ⟨rfl, rfl, rfl, rfl, rfl, rfl⟩ rfl

/-- What is not a preview response answers nobody. -/
theorem tcpClientSendMsg {t : Target} {p : Nat} {cb : SendCb} {r : Int}
    (hcb : cb ≠ .previewResSlient) (hcb' : cb ≠ .errorPreviewRes)
    (hr : w.tcpClientSendMsg t p cb = (w', r)) : Tells [] w w' := by
  refine of_mute (MemOnly.tcpClientSendMsg hr).toSameNet (tcpClientSendMsg_log hr) fun o ho => ?_
  obtain rfl := List.mem_singleton.mp ho
  refine .of_ofStream rfl ?_
  cases t <;> cases cb <;> first | rfl | exact absurd rfl hcb | exact absurd rfl hcb'

theorem eraseWrite (w : Server) (k : Nat) : Tells [] w (w.eraseWrite k) :=
  of_log_eq ⟨rfl, rfl, rfl, rfl, rfl, rfl⟩ rfl

theorem destroySmtsFrame (w : Server) (f : Nat) : Tells [] w (w.destroySmtsFrame f) :=
  (protoCmdDestroy w _).mute (emit _ (.of_ofStream rfl rfl))

theorem onSmtsClientSendFrame {p : Nat} (hr : w.onSmtsClientSendFrame p = some w') : Tells [] w w' := by
  obtain ⟨-, rfl⟩ | ⟨-, f, -, rfl⟩ := onSmtsClientSendFrame_cases hr
  · exact setCmd w p _
  · exact ((setCmd w p _).mute (protoCmdDestroy _ p)).mute (destroySmtsFrame _ f)

theorem deleteSession {fuel s : Nat} (hr : w.deleteSession fuel s = some w') : Tells [] w w' := by
  obtain ⟨m, rfl⟩ := deleteSession_eq hr
  exact ⟨⟨[], (List.append_nil _).symm, rfl, by simp⟩, fun _ => rfl, fun _ => id, fun _ _ => id,
    fun _ _ _ => id⟩

/-- The status of a session stays, whatever else is written to it. -/
theorem setSession (w : Server) (s : Nat) {x : SmtsSession} (hst : x.status = (w.sessions s).status)
    (hread : x.dvr.reading = true → (w.sessions s).dvr.reading = true) :
    Tells [] w (w.setSession s x) := by
  refine ⟨⟨[], (List.append_nil _).symm, rfl, by simp⟩, fun t => ?_, fun t => ?_, fun _ _ => id,
    fun _ _ _ => id⟩
  · by_cases ht : t = s
    · subst ht
      simpa using hst
    · simp [Function.update_of_ne ht]
  · by_cases ht : t = s
    · subst ht
      simpa using hread
    · simp [Function.update_of_ne ht]

theorem setExitCode (w : Server) (s : Nat) (r : Int) : Tells [] w (w.setExitCode s r) :=
  setSession w s rfl id

/-- A change of one client answers nobody, if no client starts waiting by it. -/
theorem setClient (w : Server) (c : Nat) {x : SmtsClient}
    (hs : ∀ s, x.session = some s → (w.clients c).session = some s)
    (hst : ∀ s, x.session = some s → x.status = .onInit → (w.clients c).status = .onInit) :
    Tells [] w (w.setClient c x) := by
  refine ⟨⟨[], (List.append_nil _).symm, rfl, by simp⟩, fun _ => rfl, fun _ => id, fun d s => ?_,
    fun d s => ?_⟩
  · by_cases hd : d = c
    · subst hd
      simpa using hs s
    · simp [Function.update_of_ne hd]
  · by_cases hd : d = c
    · subst hd
      simpa using hst s
    · simp [Function.update_of_ne hd]

theorem stopSmtsClient (w : Server) (c : Nat) : Tells [] w (w.stopSmtsClient c) := by
  have hlog : ∀ v : Server, v.log = w.log ++ [.stop c, .uvClose (.client c)] →
      ∃ m, v.log = w.log ++ m ∧ answers m = [] ∧ ∀ d s, .attach d s ∉ m := fun v hv =>
    ⟨_, hv, rfl, by simp⟩
  have hclient : ∀ d s, (Function.update w.clients c (w.clients c).stopped d).session = some s →
      Function.update w.clients c (w.clients c).stopped d = w.clients d := fun d s hs => by
    refine Function.update_of_ne (fun heq => ?_) ..
    subst heq
    simp [SmtsClient.stopped] at hs
  have hsession : ∀ d s, (Function.update w.clients c (w.clients c).stopped d).session = some s →
      (w.clients d).session = some s := fun d s hs => hclient d s hs ▸ hs
  have hwaits : ∀ d s, (Function.update w.clients c (w.clients c).stopped d).session = some s →
      (Function.update w.clients c (w.clients c).stopped d).status = .onInit →
      (w.clients d).status = .onInit := fun d s hs hst => hclient d s hs ▸ hst
  obtain ⟨-, h⟩ | ⟨-, -, h⟩ | ⟨-, s, -, h⟩ := stopSmtsClient_cases w c <;> rw [h]
  · exact refl w
  · exact ⟨hlog _ rfl, fun _ => rfl, fun _ => id, hsession, hwaits⟩
  · refine ⟨hlog _ rfl, fun t => ?_, fun t => ?_, hsession, hwaits⟩
    · by_cases ht : t = s
      · subst ht
        simp [SmtsSession.leave]
      · simp [Function.update_of_ne ht]
    · by_cases ht : t = s
      · subst ht
        simp [SmtsSession.leave]
      · simp [Function.update_of_ne ht]

end Tells

/-! ## Loops that answer -/

/-- Who of `l` is answered `x`: those that have not been yet. -/
def told (w : Server) (l : List Nat) (x : BitVec 32) : List (Nat × BitVec 32) :=
  (l.filter fun c => (w.clients c).status = .onInit).map fun c => (c, x)

/-- `a` is answered to the client `c`, which does not wait any more, and
concerns no other. -/
structure Answers (c : Nat) (x : BitVec 32) (w w' : Server) : Prop
    extends Tells (w.told [c] x) w w' where
  done : (w'.clients c).status ≠ .onInit
  clients : ∀ d, d ≠ c → w'.clients d = w.clients d

section Loops

variable {w w' : Server} {fuel s c : Nat} {l : List Nat} {x : BitVec 32}

theorem mem_told {d : Nat} {y : BitVec 32} :
    (d, y) ∈ w.told l x ↔ d ∈ l ∧ (w.clients d).status = .onInit ∧ y = x := by
  simp only [told, List.mem_map, List.mem_filter, decide_eq_true_eq, Prod.mk.injEq]
  constructor
  · rintro ⟨c, ⟨hc, hst⟩, rfl, rfl⟩
    exact ⟨hc, hst, rfl⟩
  · rintro ⟨hd, hst, rfl⟩
    exact ⟨d, ⟨hd, hst⟩, rfl, rfl⟩

theorem told_eq_nil (h : ∀ c ∈ l, (w.clients c).status ≠ .onInit) (x : BitVec 32) :
    w.told l x = [] := by
  have hnone : l.filter (fun c => (w.clients c).status = .onInit) = [] :=
    List.filter_eq_nil_iff.mpr fun c hc => by simpa using h c hc
  rw [told, hnone, List.map_nil]

theorem Answers.stop {v : Server} (h : Answers c x w v) : Answers c x w (v.stopSmtsClient c) := by
  have hstop := stopSmtsClient_tame v c
  refine ⟨h.toTells.mute (.stopSmtsClient v c), ?_, fun d hd => (hstop.clients d hd).trans (h.clients d hd)⟩
  rw [stopSmtsClient_status]
  simp

/-- `smts_client_send_preview_res`. -/
theorem smtsClientSendPreviewRes_answers {status : Int}
    (hr : w.smtsClientSendPreviewRes c status = some w') :
    Answers c (BitVec.ofInt 32 status) w w' := by
  obtain ⟨hst, w₁, w₂, r, henc, hsend, hcase⟩ | ⟨hst, hcase⟩ := smtsClientSendPreviewRes_cases hr
  · obtain ⟨v, hv, hwire⟩ := w.encodeNew_flat (t := w.previewRes status)
      (show previewCmdRes ∈ payloadFreeTypes by decide)
    obtain rfl := Option.some.inj (henc.symm.trans hv)
    have hclients₁ : w₁.clients = w.clients := encodeNew_clients henc
    have hclient : w₁.clients c = w.clients c := by rw [hclients₁]
    have hn := (MemOnly.tcpClientSendMsg hsend).toSameNet
    have hlog := tcpClientSendMsg_log hsend
    simp only [setClient_cmds, setClient_heap, hwire] at hlog
    have htold : w.told [c] (BitVec.ofInt 32 status) = [(c, BitVec.ofInt 32 status)] := by
      simp [told, hst]
    have hanswer : answers [.uvWrite (.client c) w.nCmds .previewResSlient
        (some (w.previewResBytes status)) r] = [(c, BitVec.ofInt 32 status)] := by
      simp [answers, Obs.answer?, wireStatus_previewResBytes]
    have h₁ : Tells [] w (w₁.setClient c { w₁.clients c with status := .onSendPreviewRes }) :=
      (Tells.encodeNew henc).mute (.setClient w₁ c (fun _ => id) (by simp))
    have h₂ : Tells [(c, BitVec.ofInt 32 status)] w w₂ :=
      h₁.after (hanswer ▸ .of_sameNet hn hlog (by simp))
    have hans : Answers c (BitVec.ofInt 32 status) w w₂ := by
      refine ⟨htold ▸ h₂, ?_, fun d hd => ?_⟩
      · simp [hn.clients]
      · simp [hn.clients, Function.update_of_ne hd, hclients₁]
    obtain ⟨-, rfl⟩ | ⟨-, rfl⟩ := hcase
    · exact hans
    · have hn₃ := (MemOnly.protoCmdDestroy w₂ w.nCmds).toSameNet
      refine Answers.stop ⟨hans.toTells.mute (.protoCmdDestroy ..), ?_, fun d hd => ?_⟩
      · rw [hn₃.clients]
        exact hans.done
      · rw [hn₃.clients]
        exact hans.clients d hd
  · have hnone : w.told [c] (BitVec.ofInt 32 status) = [] := told_eq_nil (by simpa using hst) _
    have hsame : Answers c (BitVec.ofInt 32 status) w w := ⟨hnone ▸ .refl w, hst, fun _ _ => rfl⟩
    obtain ⟨-, rfl⟩ | ⟨-, rfl⟩ := hcase
    · exact hsame.stop
    · exact hsame

/-- A loop that answers one client each round answers those of them that wait, in
the order of the loop, and nobody it comes to waits afterwards. -/
theorem Tells.foldlM {f : Server → Nat → Option Server} {st : SessionStatus}
    (hf : ∀ a b c, (a.sessions s).status = st → f a c = some b → Answers c x a b)
    (hst : (w.sessions s).status = st) (hnodup : l.Nodup) (hr : l.foldlM f w = some w') :
    Tells (w.told l x) w w' ∧ (∀ c ∈ l, (w'.clients c).status ≠ .onInit) ∧
      ∀ c, c ∉ l → w'.clients c = w.clients c := by
  induction l generalizing w with
  | nil =>
      obtain rfl := Option.some.inj hr
      exact ⟨.refl w, by simp, fun _ _ => rfl⟩
  | cons c l ih =>
      obtain ⟨v, hc, hr⟩ := Option.bind_eq_some_iff.mp hr
      obtain ⟨hcl, hnodup⟩ := List.nodup_cons.mp hnodup
      have h := hf w v c hst hc
      obtain ⟨hrest, hdone, hclients⟩ := ih ((h.status s).trans hst) hnodup hr
      have htold : v.told l x = w.told l x := by
        rw [told, told]
        refine congrArg _ (List.filter_congr fun d hd => ?_)
        rw [h.clients d (fun heq => hcl (heq ▸ hd))]
      have hcons : w.told (c :: l) x = w.told [c] x ++ w.told l x := by
        rw [told, told, told, ← List.map_append, ← List.filter_append]
        rfl
      refine ⟨?_, fun d hd => ?_, fun d hd => ?_⟩
      · rw [hcons, ← htold]
        exact h.toTells.trans hrest
      · by_cases hdl : d ∈ l
        · exact hdone d hdl
        · obtain rfl : d = c := (List.mem_cons.mp hd).resolve_right hdl
          rw [hclients d hdl]
          exact h.done
      · obtain ⟨hdc, hdl⟩ := not_or.mp (List.mem_cons.not.mp hd)
        rw [hclients d hdl, h.clients d hdc]

theorem stopRound_answers {a b : Server} (hb : a.stopRound s c = some b) :
    Answers c (BitVec.ofInt 32 (a.sessions s).status.toInt) a b := by
  obtain ⟨a₁, hres, hb⟩ := Option.bind_eq_some_iff.mp hb
  obtain rfl := Option.some.inj hb
  exact (smtsClientSendPreviewRes_answers hres).stop

/-- `stop_media_session` answers what the status of the session is. -/
theorem stopMediaSession_tells (hring : w.rings.IsRing (.head s) (l.map .client))
    (hr : w.stopMediaSession fuel s = some w') :
    Tells (w.told l (BitVec.ofInt 32 (w.sessions s).status.toInt)) w w' ∧
      ∀ c ∈ l, (w'.clients c).status ≠ .onInit := by
  obtain ⟨v, hdel, hr⟩ := Option.bind_eq_some_iff.mp hr
  have h₁ := Tells.deleteSession hdel
  obtain ⟨m, rfl⟩ := deleteSession_eq hdel
  let v : Server := { w with manager := m }
  have hloop : l.foldlM (stopRound s) v = some w' :=
    foldlM_of_forEachClient (w := v) hring (fun c a b => stopRound_rings (s := s)) hr
  have hround : ∀ a b c, (a.sessions s).status = (w.sessions s).status → a.stopRound s c = some b →
      Answers c (BitVec.ofInt 32 (w.sessions s).status.toInt) a b := fun a b c hst hb =>
    hst ▸ stopRound_answers hb
  obtain ⟨h₂, hdone, -⟩ := Tells.foldlM (w := v) hround rfl (List.Nodup.of_map _ hring.nodes_nodup) hloop
  exact ⟨h₁.after h₂, hdone⟩

end Loops

/-! ## Callbacks that answer nobody -/

section Mute

variable {w w' : Server} {fuel s c p k : Nat} {status : Int} {bytes : List Byte} {junk : Int → Byte}

theorem closeClient_tells (w : Server) (c : Nat) : Tells [] w (w.closeClient c) :=
  (Tells.setClient w c (x := { w.clients c with reading := false, closing := true })
    (fun _ => id) fun _ _ => id).mute (.emit _ ⟨rfl, by simp⟩)

theorem clientOnConnection_tells (w : Server) : Tells [] w w.clientOnConnection := by
  have hinit : Tells [] w w.initSmtsClient := by
    refine ⟨⟨_, initSmtsClient_log w, rfl, by simp⟩, fun _ => rfl, fun _ => id, fun d s hd => ?_,
      fun d s hd hst => ?_⟩
    · by_cases hdn : d = w.nClients
      · subst hdn
        simp at hd
      · simpa [Function.update_of_ne hdn] using hd
    · by_cases hdn : d = w.nClients
      · subst hdn
        simp at hd
      · simpa [Function.update_of_ne hdn] using hst
  have hcall : ∀ v : Server, Tells [] w v → Tells [] w v.uvCall.1 := fun v hv =>
    hv.mute (.of_log_eq ⟨rfl, rfl, rfl, rfl, rfl, rfl⟩ rfl)
  have h₁ := hcall _ hinit
  have h₂ := hcall _ h₁
  rw [clientOnConnection]
  dsimp only
  split
  · exact h₁.mute (closeClient_tells ..)
  split
  · exact h₂.mute (closeClient_tells ..)
  · exact h₂.mute (.setClient _ _ (fun _ => id) fun _ _ => id)

theorem clientCloseCb_tells (w : Server) (c : Nat) : Tells [] w (w.clientCloseCb c) := by
  have h₁ : Tells [] w (w.emit (.uvClosed (.client c))) := .emit w (.of_ofStream rfl rfl)
  have h₂ := h₁.mute (.setClient _ c (x := { w.clients c with freed := true }) (fun _ => id) fun _ _ => id)
  exact h₂.mute (.emit _ (.of_ofStream rfl rfl))

theorem onDvrClientCloseCb_tells (w : Server) (s : Nat) : Tells [] w (w.onDvrClientCloseCb s) := by
  have h₁ : Tells [] w (w.emit (.uvClosed (.dvr s))) := .emit w (.of_ofStream rfl rfl)
  have h₂ := h₁.mute (.setSession _ s (x := { w.sessions s with freed := true }) rfl id)
  exact h₂.mute (.emit _ (.of_ofStream rfl rfl))

theorem smtsDvrClientStop_tells (w : Server) (s : Nat) : Tells [] w (w.smtsDvrClientStop s) := by
  have h₁ := Tells.setSession w s (x := { w.sessions s with
    dvr := { (w.sessions s).dvr with reading := false, closing := true } }) rfl (by rintro ⟨⟩)
  exact h₁.mute (.emit _ (.of_ofStream rfl rfl))

theorem sessionExitCb_tells (hr : w.sessionExitCb fuel s = some w') : Tells [] w w' := by
  have h₁ : Tells [] w (w.setSession s { w.sessions s with waitExitTimer := false }) :=
    .setSession w s rfl id
  rw [sessionExitCb] at hr
  split at hr
  · obtain ⟨v, hdel, hr⟩ := Option.bind_eq_some_iff.mp hr
    obtain rfl := Option.some.inj hr
    exact (h₁.mute (.deleteSession hdel)).mute (smtsDvrClientStop_tells v s)
  · obtain rfl := Option.some.inj hr
    exact h₁.mute (.setExitCode ..)

/-- A frame is no answer to a preview request. -/
theorem smtsClientSendFrame_tells (hr : w.smtsClientSendFrame c p = some w') : Tells [] w w' := by
  have h₁ : Tells [] w (w.emit (.sendFrame c p)) := .emit w (.of_ofStream rfl rfl)
  obtain ⟨-, v, r, hsend, hcase⟩ | ⟨-, hdrop⟩ := smtsClientSendFrame_cases hr
  · have h₂ := h₁.mute (.tcpClientSendMsg (by simp) (by simp) hsend)
    obtain ⟨-, rfl⟩ | ⟨-, u, hdrop, rfl⟩ := hcase
    · exact h₂.mute (.emit v ⟨rfl, by simp⟩)
    · exact (h₂.mute (.onSmtsClientSendFrame hdrop)).mute (.stopSmtsClient u c)
  · exact h₁.mute (.onSmtsClientSendFrame hdrop)

theorem onDvrClientReadFrameCb_tells (hr : w.onDvrClientReadFrameCb fuel s bytes junk = some w') :
    Tells [] w w' := by
  obtain ⟨t, -, hr⟩ := onDvrClientReadFrameCb_cases hr
  let w₁ := ((w.setHeap (w.heap.receive bytes).1).addCmd t).addFrame (smtsFrameOf w.nCmds t)
  let w₂ := (w₁.protoCmdIncreaseRef w.nCmds).protoCmdDestroy w.nCmds
  have h₁ : Tells [] w w₁ := .of_log_eq ⟨rfl, rfl, rfl, rfl, rfl, rfl⟩ rfl
  have h₂ : Tells [] w w₂ := (h₁.mute (.setCmd w₁ w.nCmds _)).mute (.protoCmdDestroy ..)
  have h₃ : Tells [] w (w₂.emit (.recvFrame s w.nFrames)) := h₂.mute (.emit _ ⟨rfl, by simp⟩)
  obtain ⟨-, v, henc, hloop⟩ | ⟨-, rfl⟩ := onSmtsDvrClientRecvFrame_cases hr
  · have h₄ := (h₃.mute (.encodeNew henc)).mute (.setCmd v w₂.nCmds
      { v.cmds w₂.nCmds with ref := (v.cmds w₂.nCmds).ref + (v.sessions s).clientSize })
    refine Links.forEach_within (P := fun _ => True) (I := Tells [] w) (fun _ _ => ⟨?_, ?_⟩)
      (fun q a b _ ha hb => ?_) trivial h₄ hloop
    · simp
    · simp
    · cases q with
      | head t => cases hb
      | client c => exact ha.mute (smtsClientSendFrame_tells hb)
  · exact h₃.mute (.destroySmtsFrame ..)

/-- The response to another command is no answer to a preview request. -/
theorem msgChannel_tells (hr : w.msgChannel c p = some w') : Tells [] w w' := by
  have h₁ : Tells [] w (w.mediaClientSendCmd c p).1 := by
    cases hs : (w.clients c).session with
    | none =>
        rw [mediaClientSendCmd_none hs]
        exact .refl w
    | some s =>
        obtain ⟨v, hsend, hres⟩ := mediaClientSendCmd_some hs (p := p)
        have hv : Tells [] w v := (Tells.setCmd w p _).mute (.tcpClientSendMsg (by simp) (by simp) hsend)
        rw [hres]
        dsimp only
        split
        · exact hv
        · exact hv.mute (.protoCmdDestroy v p)
  rw [msgChannel] at hr
  dsimp only at hr
  obtain ⟨v, henc, hr⟩ := Option.bind_eq_some_iff.mp hr
  have h₂ := h₁.mute (.encodeNew henc)
  have h₃ : Tells [] w (v.tcpClientSendMsg (.client c) (w.mediaClientSendCmd c p).1.nCmds .commonRes).1 :=
    h₂.mute (.tcpClientSendMsg (by simp) (by simp) (Prod.eta _).symm)
  split at hr <;> obtain rfl := Option.some.inj hr
  · exact h₃.mute (.protoCmdDestroy ..)
  · exact h₃

theorem dispatchPacket_tells (hprev : (Event.packet c bytes junk).preview = none)
    (hr : w.dispatchPacket fuel c bytes junk = some w') : Tells [] w w' := by
  obtain ⟨-, rfl⟩ | ⟨t, imp, v, hdec, himp, rfl⟩ := dispatchPacket_cases hr
  · have h₁ : Tells [] w (w.setHeap (w.heap.receive bytes).1) :=
      .of_log_eq ⟨rfl, rfl, rfl, rfl, rfl, rfl⟩ rfl
    exact h₁.mute (.emit _ (.of_ofStream rfl rfl))
  · obtain ⟨T, hT, hcmd, -⟩ := dispatchDecode_spec hdec
    have h₁ : Tells [] w ((w.setHeap (w.heap.receive bytes).1).addCmd t) :=
      .of_log_eq ⟨rfl, rfl, rfl, rfl, rfl, rfl⟩ rfl
    refine Tells.mute ?_ (.protoCmdDestroy v w.nCmds)
    cases imp with
    | none =>
        obtain rfl := Option.some.inj himp
        exact h₁
    | some imp =>
        cases imp with
        | smtsStartPreview =>
            rw [Event.preview, hcmd, smtsStartPreview_cmd _ hT rfl, if_pos rfl] at hprev
            cases hprev
        | mockDvrPreviewImpl => cases himp
        | msgChannel =>
            have himp : ((w.setHeap (w.heap.receive bytes).1).addCmd t).msgChannel c w.nCmds = some v :=
              himp
            exact h₁.mute (msgChannel_tells himp)

theorem sendCb_tells {req : WriteReq} (hcb : req.cb ≠ .dvrPreview)
    (hr : w.sendCb fuel req status = some w') : Tells [] w w' := by
  have hdestroy : Tells [] w (w.protoCmdDestroy req.packet) := .protoCmdDestroy w _
  obtain ⟨i, target, p, cb⟩ := req
  cases target with
  | client c =>
      cases cb with
      | previewResSlient =>
          obtain rfl := Option.some.inj hr
          have h₁ := hdestroy.mute (.emit _ (o := .previewResDone c) ⟨rfl, by simp⟩)
          exact h₁.mute (.setClient _ c (fun _ => id) (by simp))
      | errorPreviewRes =>
          obtain rfl := Option.some.inj hr
          exact hdestroy.mute (.stopSmtsClient _ c)
      | sendFrame =>
          obtain ⟨v, hdrop, hr⟩ := Option.bind_eq_some_iff.mp hr
          have h₁ := Tells.onSmtsClientSendFrame hdrop
          split at hr <;> obtain rfl := Option.some.inj hr
          · exact h₁.mute (.stopSmtsClient v c)
          · exact h₁
      | commonRes =>
          obtain rfl := Option.some.inj hr
          exact hdestroy
      | dvrPreview => cases hr
      | sendCmdToDvr => cases hr
  | dvr s =>
      cases cb with
      | dvrPreview => exact absurd rfl hcb
      | sendCmdToDvr =>
          obtain rfl := Option.some.inj hr
          exact hdestroy
      | _ => cases hr

end Mute

/-! ## Callbacks that tear down -/

/-- The session's DVR has no connect request under way any more. -/
def connectDone (w : Server) (s : Nat) : Server :=
  w.setSession s { w.sessions s with dvr := { (w.sessions s).dvr with connecting := false } }

/-- Nothing is read from the session's DVR any more. -/
def readDone (w : Server) (s : Nat) : Server :=
  w.setSession s { w.sessions s with dvr := { (w.sessions s).dvr with reading := false } }

/-- The `k`-th write is the preview command of `s`. -/
def IsPreview (w : Server) (k s : Nat) : Prop :=
  ∃ req, w.writes[k]? = some req ∧ req.client = .dvr s ∧ req.cb = .dvrPreview

section Teardown

variable {A : Nat → Prop} {w w' v : Server} {fuel s k : Nat} {l : List Nat} {status r : Int}

theorem told_congr (hclients : w'.clients = w.clients) (l : List Nat) (x : BitVec 32) :
    w'.told l x = w.told l x := by
  rw [told, told, hclients]

/-- A session that is torn down answers its clients that wait with its status, and
nobody in its ring waits afterwards. -/
theorem tearDown_tells (h : Tells [] w v) (hn : v.clients = w.clients)
    (hring : v.rings.IsRing (.head s) (l.map .client)) {code : Int}
    (hr : (v.setExitCode s code).stopMediaSession fuel s = some w') :
    Tells (w.told l (BitVec.ofInt 32 (w.sessions s).status.toInt)) w w' ∧
      ∀ c ∈ l, (w'.clients c).status ≠ .onInit := by
  have h₁ := h.mute (.setExitCode v s code)
  obtain ⟨h₂, hdone⟩ := stopMediaSession_tells (w := v.setExitCode s code) hring hr
  have hclients : (v.setExitCode s code).clients = w.clients := hn
  rw [h₁.status, told_congr hclients] at h₂
  exact ⟨h₁.after h₂, hdone⟩

theorem smtsDvrClientPreview_tells (hring : w.rings.IsRing (.head s) (l.map .client))
    (hr : w.smtsDvrClientPreview fuel s = some (w', r)) :
    r = w.uv w.nUv ∧ (r = 0 → Tells [] w w') ∧
      (r ≠ 0 → Tells (w.told l (BitVec.ofInt 32 (w.sessions s).status.toInt)) w w' ∧
        ∀ c ∈ l, (w'.clients c).status ≠ .onInit) := by
  obtain ⟨w₁, w₂, henc, hsend, hcase⟩ := smtsDvrClientPreview_cases hr
  have hn := (MemOnly.encodeNew henc).toSameNet.trans (MemOnly.tcpClientSendMsg hsend).toSameNet
  have h₂ : Tells [] w w₂ := (Tells.encodeNew henc).mute (.tcpClientSendMsg (by simp) (by simp) hsend)
  refine ⟨smtsDvrClientPreview_result hr, fun hz => ?_, fun hne => ?_⟩
  · obtain ⟨-, rfl⟩ | ⟨hne, -⟩ := hcase
    · exact h₂
    · exact absurd hz hne
  · obtain ⟨hz, -⟩ | ⟨-, hres⟩ := hcase
    · exact absurd hz hne
    · rw [onSmtsDvrClientSendPreview, if_pos (by decide)] at hres
      exact tearDown_tells h₂ hn.clients (hn.rings ▸ hring) hres

/-- A session that has been torn down is torn down again: nobody is left. -/
theorem tearDown_again (hA : RingInv A v) (hs : s < v.nSessions) (hAs : ¬ A s)
    (hdone : ∀ c, (v.clients c).session = some s → (v.clients c).status ≠ .onInit) {code : Int}
    (hr : (v.setExitCode s code).stopMediaSession fuel s = some w') : Tells [] v w' := by
  obtain ⟨l, hring, -, hmem⟩ := hA.ring s hs hAs
  have hnone := told_eq_nil (fun c hc => hdone c ((hmem c).mp hc))
    (BitVec.ofInt 32 (v.sessions s).status.toInt)
  exact hnone ▸ (tearDown_tells (.refl v) rfl hring hr).1

theorem onConnectedToDvr_tells (hA : RingInv A w) (hs : s < w.nSessions) (hAs : ¬ A s)
    (hring : w.rings.IsRing (.head s) (l.map .client))
    (hmem : ∀ c, c ∈ l ↔ (w.clients c).session = some s)
    (hr : w.onConnectedToDvr fuel s status = some w') :
    (status ≠ 0 ∨ w.uv w.nUv ≠ 0 →
      Tells (w.told l (BitVec.ofInt 32 (w.sessions s).status.toInt)) w w') ∧
      (¬ (status ≠ 0 ∨ w.uv w.nUv ≠ 0) → Tells [] w w') := by
  rw [onConnectedToDvr] at hr
  split at hr
  next hne => exact ⟨fun _ => (tearDown_tells (.refl w) rfl hring hr).1, fun h => absurd (.inl hne) h⟩
  next hz =>
    obtain ⟨⟨v, r⟩, hprev, hr⟩ := Option.bind_eq_some_iff.mp hr
    obtain ⟨rfl, hsent, hfailed⟩ := smtsDvrClientPreview_tells hring hprev
    dsimp only at hr
    split at hr
    next hne =>
      refine ⟨fun _ => ?_, fun h => absurd (.inr hne) h⟩
      obtain ⟨h₁, hdone⟩ := hfailed hne
      have hd := (Does.start (S := { dvr := some s })).smtsDvrClientPreview rfl
        (Scope.loops_of_forall (fun _ => trivial) w s) hprev
      have hAv : RingInv A v := hA.does rfl (by rintro t ⟨⟩; exact ⟨hs, hAs⟩) hd
      refine h₁.mute (tearDown_again hAv (hs.trans_le hd.grows.nSessions) hAs (fun c hc => ?_) hr)
      exact hdone c ((hmem c).mpr (h₁.session c s hc))
    next hok =>
      obtain rfl := Option.some.inj hr
      refine ⟨fun h => ?_, fun _ => hsent (not_not.mp hok)⟩
      rcases h with h | h
      · exact absurd h hz
      · exact absurd h hok

/-- `sendPreviewResponses` tells every waiting client of the session 0, and
leaves nobody waiting. -/
theorem sendPreviewResponses_tells (hring : w.rings.IsRing (.head s) (l.map .client))
    (hsize : (w.sessions s).clientSize = l.length) (hr : w.sendPreviewResponses fuel s = some w') :
    Tells (w.told l 0) w w' ∧ ∀ c ∈ l, (w'.clients c).status ≠ .onInit := by
  rw [sendPreviewResponses] at hr
  split at hr
  · have hloop := foldlM_of_forEachClient hring (fun c a b hb => ?_) hr
    · obtain ⟨h, hdone, -⟩ := Tells.foldlM (s := s)
        (fun a b c _ hb => smtsClientSendPreviewRes_answers hb) rfl (List.Nodup.of_map _ hring.nodes_nodup) hloop
      exact ⟨h, hdone⟩
    · obtain ⟨htame, hrings | -⟩ := smtsClientSendPreviewRes_tame hb
      · exact .inl hrings
      · exact htame.rings
  next hsz =>
    obtain rfl := Option.some.inj hr
    obtain rfl : l = [] := List.eq_nil_of_length_eq_zero (by omega)
    exact ⟨.refl w, by simp⟩

end Teardown

end Server

end Smts
