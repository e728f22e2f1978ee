import Smts.Lib.Checked
import Smts.Server.Answers
import Smts.Server.Requests
import Smts.Server.Reuse

/-!
# Server — whether an answer is true

A client is told that all is well when it joins a session, whether the session
runs or not, and when its session is torn down, because the status of a session
that does not run is 0. Once a session runs everybody in it has been told.
-/

namespace Smts

open Checked (Fits)

namespace Server

/-! ## The truth -/

/-- `on_smts_dvr_client_send_preview` was called for the session with status 0,
or now is: its preview command was written. Nothing is known of a session that
was freed. -/
def PreviewDone (w : Server) (e : Event) (s : Nat) : Prop :=
  (w.Used (.head s) ∧ (w.sessions s).status = .running) ∨ ∃ k, e = .writeDone k 0 ∧ w.IsPreview k s

/-- While `e` is handled, `stop_media_session` is called in `v`, where the exit
code of the session `s` has just been set. -/
inductive TornDown (w : Server) : Event → Server → Nat → Prop where
  | refused {s : Nat} {status : Int} (hs : status ≠ 0) :
      TornDown w (.dvrConnected s status) ((w.connectDone s).setExitCode s dvrConnectRefusedError) s
  | notSent {s : Nat} {v u : Server} {r : Int}
      (henc : (w.connectDone s).encodeNew ((((w.connectDone s).initCmd mockDvrPreview).set bitrate
        defaultDvrBitrate).set frameRate defaultDvrFramerate) = some v)
      (hsend : v.tcpClientSendMsg (.dvr s) w.nCmds .dvrPreview = (u, r)) (hr : r ≠ 0) :
      TornDown w (.dvrConnected s 0) (u.setExitCode s dvrSendPriviewCmdError) s
  | again {fuel s : Nat} {v : Server} {r : Int}
      (hprev : (w.connectDone s).smtsDvrClientPreview fuel s = some (v, r)) (hr : r ≠ 0) :
      TornDown w (.dvrConnected s 0) (v.setExitCode s dvrSendPriviewCmdError) s
  | notWritten {k s : Nat} {req : WriteReq} {status : Int} (hk : w.writes[k]? = some req)
      (hclient : req.client = .dvr s) (hcb : req.cb = .dvrPreview) (hs : status ≠ 0) :
      TornDown w (.writeDone k status)
        (((w.eraseWrite k).protoCmdDestroy req.packet).setExitCode s status) s
  | notRead {fuel k s : Nat} {req : WriteReq} {v u : Server} {r : Int} (hk : w.writes[k]? = some req)
      (hclient : req.client = .dvr s) (hcb : req.cb = .dvrPreview)
      (hres : ((w.eraseWrite k).protoCmdDestroy req.packet).sendPreviewResponses fuel s = some v)
      (hread : (v.setSession s { v.sessions s with status := .running }).smtsDvrClientStartReadFrames s
        = (u, r)) (hr : r ≠ 0) :
      TornDown w (.writeDone k 0) (u.setExitCode s r) s
  | readError {s : Nat} {status : Int} :
      TornDown w (.dvrReadError s status) ((w.readDone s).setExitCode s dvrRecvFrameError) s

/-- A client is told `SMTS_OK` only when the preview command of its session was
written, and when its session is torn down before it was told anything it is
told why, once. -/
structure TellsTruth (w : Server) (e : Event) (w' : Server) : Prop where
  ok : ∀ c, (c, 0) ∈ answers (w'.log.drop w.log.length) →
    ∃ s, ((w.clients c).session = some s ∨ .attach c s ∈ w'.log.drop w.log.length) ∧
      PreviewDone w e s
  error : ∀ v s, TornDown w e v s → ∀ c, (v.clients c).session = some s →
    (v.clients c).status = .onInit →
    answersTo c (w'.log.drop v.log.length) = [BitVec.ofInt 32 (v.sessions s).exitCode]

/-- A session is joined only when its preview command was written, and none is
torn down that somebody waits for. -/
def Timely (w : Server) : Event → Prop
  | .packet c bytes junk =>
      (Event.packet c bytes junk).preview = some c → (w.clients c).status = .onInit →
        ∀ t imp, dispatchDecode (Reader.beyond bytes junk) (w.heap.receive bytes).2
          (BitVec.ofNat 64 bytes.length) (w.garbage w.nCmds) = some (some (t, imp)) →
        ∀ fuel s, w.manager.getSession w.keyOf fuel (playKey t) = some (some s) →
          (w.sessions s).status = .running
  | .dvrConnected s status =>
      status ≠ 0 ∨ w.uv w.nUv ≠ 0 →
        ∀ c, (w.clients c).session = some s → (w.clients c).status ≠ .onInit
  | .writeDone k status =>
      status ≠ 0 → ∀ s, w.IsPreview k s →
        ∀ c, (w.clients c).session = some s → (w.clients c).status ≠ .onInit
  | _ => True

/-- A session waits for its DVR or runs, and in one that runs no client waits to
be answered. -/
structure Settled (w : Server) : Prop where
  status : ∀ s, (w.sessions s).status = .init ∨ (w.sessions s).status = .running
  reading : ∀ s, (w.sessions s).dvr.reading = true → (w.sessions s).status = .running
  answered : ∀ c s, (w.clients c).session = some s → (w.sessions s).status = .running →
    (w.clients c).status ≠ .onInit

/-- What comes of `e`, in a state where everybody was answered. -/
structure Outcome (w : Server) (e : Event) (w' : Server) : Prop where
  settled : Settled w'
  running : ∀ s, (w'.sessions s).status = .running →
    (w.sessions s).status = .running ∨ ∃ k, e = .writeDone k 0 ∧ w.IsPreview k s
  truth : TellsTruth w e w' ↔ w.Timely e

section Truth

variable {A : Nat → Prop} {a : List (Nat × BitVec 32)} {w w' v : Server} {fuel s k c : Nat}
  {l : List Nat} {status r : Int} {e : Event}

theorem init_settled (uv : Nat → Int) (garbage : Nat → Values NvmpName) :
    Settled (init uv garbage) where
  status _ := .inl rfl
  reading s h := by cases h
  answered c s h := by cases h

theorem Settled.tells (h : Settled w) (ht : Tells a w w') : Settled w' where
  status s := by rw [ht.status]; exact h.status s
  reading s hr := by rw [ht.status]; exact h.reading s (ht.reading s hr)
  answered c s hs hrun hst := by
    rw [ht.status] at hrun
    exact h.answered c s (ht.session c s hs) hrun (ht.waits c s hs hst)

/-- Somebody who waits is in a session that does not run yet. -/
theorem Settled.waits (h : Settled w) (hs : (w.clients c).session = some s)
    (hst : (w.clients c).status = .onInit) : (w.sessions s).status = .init :=
  (h.status s).resolve_right fun hrun => h.answered c s hs hrun hst

theorem Logs.tellsTruth (h : Logs a w w')
    (hok : ∀ c, (c, 0) ∈ a → ∃ s, (w.clients c).session = some s ∧ PreviewDone w e s)
    (herror : ∀ v s, TornDown w e v s → ∀ c, (v.clients c).session = some s →
      (v.clients c).status ≠ .onInit) : TellsTruth w e w' := by
  refine ⟨fun c hc => ?_, fun v s hv c hs hst => absurd hst (herror v s hv c hs)⟩
  rw [h.drop.1] at hc
  obtain ⟨s, hs, hdone⟩ := hok c hc
  exact ⟨s, .inl hs, hdone⟩

/-- A client that waits is answered with the status of a session that does not
run, and so is told that all is well. -/
theorem Logs.not_tellsTruth (h : Logs (w.told l (BitVec.ofInt 32 (w.sessions s).status.toInt)) w w')
    (hw : Settled w) (hc : c ∈ l) (hs : (w.clients c).session = some s)
    (hst : (w.clients c).status = .onInit) (he : ∀ k, e ≠ .writeDone k 0) : ¬ TellsTruth w e w' := by
  intro ht
  have hinit := hw.waits hs hst
  have hok : (c, 0) ∈ answers (w'.log.drop w.log.length) := by
    rw [h.drop.1, mem_told, hinit]
    exact ⟨hc, hst, rfl⟩
  obtain ⟨t, hsession | hattach, hdone⟩ := ht.ok c hok
  · obtain rfl : s = t := Option.some.inj (hs.symm.trans hsession)
    rcases hdone with ⟨-, hrun⟩ | ⟨k, hk, -⟩
    · rw [hinit] at hrun
      cases hrun
    · exact he k hk
  · exact h.drop.2 c t hattach

theorem connectDone_tells (w : Server) (s : Nat) : Tells [] w (w.connectDone s) :=
  .setSession w s rfl id

theorem readDone_tells (w : Server) (s : Nat) : Tells [] w (w.readDone s) :=
  .setSession w s rfl (by rintro ⟨⟩)

theorem writtenDone_tells (w : Server) (k p : Nat) :
    Tells [] w ((w.eraseWrite k).protoCmdDestroy p) :=
  (Tells.eraseWrite w k).mute (.protoCmdDestroy ..)

/-- The connect or the preview command has failed, and nobody was stopped that
is still there. -/
theorem TornDown.connect {t : Nat} (hA : RingInv A w) (hs : s < w.nSessions) (hAs : ¬ A s)
    (ht : TornDown w (.dvrConnected s status) v t) :
    t = s ∧ (status ≠ 0 ∨ w.uv w.nUv ≠ 0) ∧ ∃ a, Tells a w v := by
  have h₁ := connectDone_tells w s
  cases ht with
  | refused hne => exact ⟨rfl, .inl hne, _, h₁.mute (.setExitCode ..)⟩
  | @notSent _ u v r henc hsend hne =>
      have hresult : r = u.uv u.nUv :=
        (congrArg Prod.snd hsend).symm.trans (tcpClientSendMsg_snd u (.dvr s) w.nCmds .dvrPreview)
      have h₂ := h₁.mute (.encodeNew henc)
      obtain ⟨⟨h', t⟩, -, henc⟩ := Option.bind_eq_some_iff.mp henc
      obtain rfl := Option.some.inj henc
      refine ⟨rfl, .inr fun hz => hne (hresult.trans hz), [], ?_⟩
      exact (h₂.mute (.tcpClientSendMsg (by simp) (by simp) hsend)).mute (.setExitCode ..)
  | again hprev hne =>
      obtain ⟨l, hring, -, -⟩ := hA.ring s hs hAs
      obtain ⟨hr, -, hfailed⟩ := smtsDvrClientPreview_tells (w := w.connectDone s) hring hprev
      have hne' : w.uv w.nUv ≠ 0 := fun hz => hne (hr.trans hz)
      exact ⟨rfl, .inr hne', _, (h₁.after (hfailed hne).1).mute (.setExitCode ..)⟩

/-- When the preview command was written, everybody was answered before. -/
theorem TornDown.write (hA : RingInv A w) (hen : w.Enabled (.writeDone k status))
    (ht : TornDown w (.writeDone k status) v s) :
    w.IsPreview k s ∧ ((status ≠ 0 ∧ Tells [] w v) ∨
      ∀ c, (v.clients c).session = some s → (v.clients c).status ≠ .onInit) := by
  cases ht with
  | @notWritten _ _ req _ hk hclient hcb hne =>
      exact ⟨⟨req, hk, hclient, hcb⟩, .inl ⟨hne, (writtenDone_tells w k _).mute (.setExitCode ..)⟩⟩
  | @notRead fuel _ _ req u v r hk hclient hcb hres hread hne =>
      refine ⟨⟨req, hk, hclient, hcb⟩, .inr fun c hc => ?_⟩
      have hdvr : (w.scope (.writeDone k 0)).dvr = some s := by
        simp [scope, hk, hclient, Target.dvr?]
      obtain ⟨hs, hAs⟩ := hA.scope_dvr hen hdvr
      obtain ⟨l, hring, hsize, hmem⟩ := hA.ring s hs hAs
      have h₁ := writtenDone_tells w k req.packet
      obtain ⟨h₂, hdone⟩ := sendPreviewResponses_tells
        (w := (w.eraseWrite k).protoCmdDestroy req.packet) hring hsize hres
      have hclients : v.clients = u.clients := (congrArg (fun x => x.1.clients) hread).symm
      have hc : (v.clients c).session = some s := hc
      rw [hclients] at hc
      have hc₀ := (h₁.after h₂).session c s hc
      have hnot := hdone c ((hmem c).mpr hc₀)
      change (v.clients c).status ≠ .onInit
      rwa [hclients]

/-! ## One callback -/

theorem Tells.outcome (h : Tells a w w') (hw : Settled w) (htruth : TellsTruth w e w' ↔ w.Timely e) :
    Outcome w e w' :=
  ⟨hw.tells h, fun s hs => .inl ((h.status s).symm.trans hs), htruth⟩

theorem Tells.mute_outcome (h : Tells [] w w') (hw : Settled w) (hdown : ∀ v s, ¬ TornDown w e v s)
    (he : w.Timely e) : Outcome w e w' :=
  h.outcome hw ⟨fun _ => he, fun _ => h.log.tellsTruth (by simp) fun v s hv => absurd hv (hdown v s)⟩

/-- The connect of a DVR has succeeded, or not. -/
theorem dvrConnected_outcome (hA : RingInv A w) (hw : Settled w)
    (hen : w.Enabled (.dvrConnected s status)) (hr : w.onTcpClientConnectCb fuel s status = some w') :
    Outcome w (.dvrConnected s status) w' := by
  obtain ⟨hs, hAs⟩ := hA.scope_dvr hen (s := s) rfl
  obtain ⟨l, hring, -, hmem⟩ := hA.ring s hs hAs
  obtain ⟨v, hconn, hr⟩ := Option.bind_eq_some_iff.mp hr
  obtain rfl := Option.some.inj hr
  have hA₁ : RingInv A (w.connectDone s) := hA.setSession s _ rfl id fun h => absurd h hAs
  have hemit : Tells [] v (v.emit (.free (.connectReq s))) := .emit v (.of_ofStream rfl rfl)
  have hconn : (w.connectDone s).onConnectedToDvr fuel s status = some v := hconn
  obtain ⟨hfails, hsucceeds⟩ := onConnectedToDvr_tells (w := w.connectDone s) hA₁ hs hAs hring hmem hconn
  have h₁ := connectDone_tells w s
  have hclients : (w.connectDone s).clients = w.clients := rfl
  rw [h₁.status, told_congr hclients] at hfails
  by_cases hf : status ≠ 0 ∨ w.uv w.nUv ≠ 0
  · have h := (h₁.after (hfails hf)).mute hemit
    refine h.outcome hw ⟨fun ht _ c hc hst => ?_, fun ht => ?_⟩
    · exact h.log.not_tellsTruth hw ((hmem c).mpr hc) hc hst (by simp) ht
    · have hnone := told_eq_nil (fun c hc => ht hf c ((hmem c).mp hc))
        (BitVec.ofInt 32 (w.sessions s).status.toInt)
      rw [hnone] at h
      refine h.log.tellsTruth (by simp) fun u t htorn c hc hst => ?_
      obtain ⟨rfl, -, a, ha⟩ := htorn.connect hA hs hAs
      exact ht hf c (ha.session c t hc) (ha.waits c t hc hst)
  · have h := (h₁.after (hsucceeds hf)).mute hemit
    refine h.outcome hw ⟨fun _ hf' => absurd hf' hf, fun _ => h.log.tellsTruth (by simp) fun u t htorn => ?_⟩
    exact absurd (htorn.connect hA hs hAs).2.1 hf

theorem dvrReadError_outcome (hA : RingInv A w) (hw : Settled w)
    (hen : w.Enabled (.dvrReadError s status)) (hr : w.onDvrClientReadError fuel s = some w') :
    Outcome w (.dvrReadError s status) w' := by
  obtain ⟨hs, hAs⟩ := hA.scope_dvr hen (s := s) rfl
  obtain ⟨l, hring, -, hmem⟩ := hA.ring s hs hAs
  have hdone : ∀ c, (w.clients c).session = some s → (w.clients c).status ≠ .onInit := fun c hc =>
    hw.answered c s hc (hw.reading s hen.2.1)
  rw [onDvrClientReadError, onSmtsDvrClientRecvFrame, if_pos (by decide)] at hr
  have h₁ := readDone_tells w s
  have hclients : (w.readDone s).clients = w.clients := rfl
  obtain ⟨h, -⟩ := tearDown_tells h₁ hclients hring hr
  rw [told_eq_nil fun c hc => hdone c ((hmem c).mp hc)] at h
  refine h.outcome hw ⟨fun _ => trivial, fun _ => h.log.tellsTruth (by simp) fun u t htorn c hc hst => ?_⟩
  cases htorn with
  | readError => exact hdone c hc hst

/-- What `on_smts_dvr_client_send_preview` does when the command was written. -/
theorem previewWritten_tells (hA : RingInv A w) (hs : s < w.nSessions) (hAs : ¬ A s) (hw : Settled w)
    (hring : w.rings.IsRing (.head s) (l.map .client)) (hsize : (w.sessions s).clientSize = l.length)
    (hmem : ∀ c, c ∈ l ↔ (w.clients c).session = some s)
    (hr : w.onSmtsDvrClientSendPreview fuel s 0 = some w') :
    Logs (w.told l 0) w w' ∧ Settled w' ∧
      ∀ t, (w'.sessions t).status = .running → t = s ∨ (w.sessions t).status = .running := by
  rw [onSmtsDvrClientSendPreview, if_neg (by decide)] at hr
  obtain ⟨v, hres, hr⟩ := Option.bind_eq_some_iff.mp hr
  obtain ⟨h₁, hdone⟩ := sendPreviewResponses_tells hring hsize hres
  have hv := hw.tells h₁
  let u := (v.setSession s { v.sessions s with status := .running }).smtsDvrClientStartReadFrames s
  have hother : ∀ t, t ≠ s → u.1.sessions t = v.sessions t := fun t ht => by
    simp [u, smtsDvrClientStartReadFrames, Function.update_of_ne ht]
  have hrun : (u.1.sessions s).status = .running := by simp [u, smtsDvrClientStartReadFrames]
  have hu : Settled u.1 := by
    refine ⟨fun t => ?_, fun t ht => ?_, fun c t hc ht => ?_⟩
    · by_cases hts : t = s
      · subst hts
        exact .inr hrun
      · rw [hother t hts]
        exact hv.status t
    · by_cases hts : t = s
      · subst hts
        exact hrun
      · rw [hother t hts] at ht ⊢
        exact hv.reading t ht
    · have hc : (v.clients c).session = some t := hc
      by_cases hts : t = s
      · subst hts
        exact hdone c ((hmem c).mpr (h₁.session c t hc))
      · rw [hother t hts] at ht
        exact hv.answered c t hc ht
  have hlog : Logs (w.told l 0) w u.1 := h₁.log
  have hold : ∀ t, (u.1.sessions t).status = .running → t = s ∨ (w.sessions t).status = .running :=
    fun t ht => or_iff_not_imp_left.mpr fun hts => by rwa [hother t hts, h₁.status] at ht
  have hd : Does { dvr := some s } w u.1 := by
    have hd₁ := (Does.start (S := { dvr := some s })).sendPreviewResponses
      (Scope.loops_of_forall (fun _ => trivial) w s) hres
    exact (hd₁.step (.touch (s := s) (x := { v.sessions s with status := .running })
      ⟨.inl rfl, rfl, rfl, id, .inr ⟨rfl, rfl, rfl⟩, .inl rfl, .inr (.inr rfl)⟩)).smtsDvrClientStartReadFrames rfl
  dsimp only at hr
  -- if the frames cannot be read, everybody was answered before the session is torn down
  split at hr
  · have hAu : RingInv A u.1 := hA.does rfl (by rintro t ⟨⟩; exact ⟨hs, hAs⟩) hd
    have h₂ := tearDown_again hAu (hs.trans_le hd.grows.nSessions) hAs
      (fun c hc => hu.answered c s hc hrun) hr
    exact ⟨by simpa using hlog.trans h₂.log, hu.tells h₂, fun t ht => hold t ((h₂.status t).symm.trans ht)⟩
  · obtain rfl := Option.some.inj hr
    exact ⟨hlog, hu, hold⟩

theorem writeDone_outcome (hA : RingInv A w) (hw : Settled w) (hen : w.Enabled (.writeDone k status))
    (hr : w.tcpClientSendMsgCb fuel k status = some w') : Outcome w (.writeDone k status) w' := by
  obtain ⟨req, hk, hr⟩ := Option.bind_eq_some_iff.mp hr
  obtain ⟨v, hcb, hr⟩ := Option.bind_eq_some_iff.mp hr
  obtain rfl := Option.some.inj hr
  have hemit : Tells [] v (v.emit (.free (.writeReq req.id))) := .emit v (.of_ofStream rfl rfl)
  -- only the preview command's write can tear down, or start, a session
  by_cases hdvr : req.cb = .dvrPreview
  case neg =>
    have hnone : ∀ s, ¬ w.IsPreview k s := fun s ⟨req', hk', _, hcb'⟩ => by
      obtain rfl := Option.some.inj (hk.symm.trans hk')
      exact hdvr hcb'
    have h := ((Tells.eraseWrite w k).mute (sendCb_tells hdvr hcb)).mute hemit
    exact h.mute_outcome hw (fun u s htorn => hnone s (htorn.write hA hen).1) fun _ s hs =>
      absurd hs (hnone s)
  obtain ⟨s, hclient⟩ : ∃ s, req.client = .dvr s := by
    cases hc : req.client with
    | dvr s => exact ⟨s, rfl⟩
    | client c =>
        rw [sendCb, hc, hdvr] at hcb
        cases hcb
  have hpreview : w.IsPreview k s := ⟨req, hk, hclient, hdvr⟩
  have hunique : ∀ t, w.IsPreview k t → t = s := fun t ⟨req', hk', hc', _⟩ => by
    obtain rfl := Option.some.inj (hk.symm.trans hk')
    simpa using hc'.symm.trans hclient
  obtain ⟨hs, hAs⟩ := hA.scope_dvr hen (s := s) (by simp [scope, hk, hclient, Target.dvr?])
  obtain ⟨l, hring, hsize, hmem⟩ := hA.ring s hs hAs
  rw [sendCb, hclient, hdvr] at hcb
  let w₁ := (w.eraseWrite k).protoCmdDestroy req.packet
  have h₁ : Tells [] w w₁ := writtenDone_tells w k req.packet
  have hclients : w₁.clients = w.clients := rfl
  have hcb : w₁.onSmtsDvrClientSendPreview fuel s status = some v := hcb
  -- written: the clients of the session are told 0, as they should be
  by_cases hz : status = 0
  · subst hz
    have hA₁ : RingInv A w₁ :=
      hA.sameNet ⟨rfl, rfl, rfl, rfl, rfl, rfl⟩ fun req' hreq' _ _ => .inl (List.mem_of_mem_eraseIdx hreq')
    obtain ⟨hlog, hset, hold⟩ := previewWritten_tells hA₁ hs hAs (hw.tells h₁) hring hsize hmem hcb
    rw [told_congr hclients] at hlog
    have hlog' : Logs (w.told l 0) w (v.emit (.free (.writeReq req.id))) := by
      simpa using (h₁.log.trans hlog).trans hemit.log
    refine ⟨hset.tells hemit, fun t ht => ?_, fun _ hne => absurd rfl hne, fun _ =>
      hlog'.tellsTruth (fun c hc => ?_) fun u t htorn => ?_⟩
    · obtain rfl | hrun := hold t ht
      · exact .inr ⟨k, rfl, hpreview⟩
      · exact .inl hrun
    · exact ⟨s, (hmem c).mp (mem_told.mp hc).1, .inr ⟨k, rfl, hpreview⟩⟩
    · exact (htorn.write hA hen).2.resolve_left fun h => h.1 rfl
  · rw [onSmtsDvrClientSendPreview, if_pos hz] at hcb
    obtain ⟨h₂, -⟩ := tearDown_tells h₁ hclients hring hcb
    have h := h₂.mute hemit
    refine h.outcome hw ⟨fun ht _ t ht' c hc hst => ?_, fun ht => ?_⟩
    · obtain rfl := hunique t ht'
      refine h.log.not_tellsTruth hw ((hmem c).mpr hc) hc hst (fun j heq => ?_) ht
      exact hz (Event.writeDone.inj heq).2
    · have hnone := told_eq_nil (fun c hc => ht hz s hpreview c ((hmem c).mp hc))
        (BitVec.ofInt 32 (w.sessions s).status.toInt)
      rw [hnone] at h
      refine h.log.tellsTruth (by simp) fun u t htorn c hc hst => ?_
      obtain ⟨hp, ⟨-, ha⟩ | hdone⟩ := htorn.write hA hen
      · exact ht hz t hp c (ha.session c t hc) (ha.waits c t hc hst)
      · exact hdone c hc hst

end Truth

/-! ## Requests for a preview -/

section Preview

variable {A : Nat → Prop} {S : Scope} {w₀ w w' : Server} {fuel s c : Nat} {r : Int} {key : SessionKey}
  {e : Event}

theorem tcpClientConnect_result (hr : w.tcpClientConnect s = (w', r)) :
    r = netAddrNotFound ∨ ∃ n, r = w.uv n := by
  rw [tcpClientConnect] at hr
  dsimp only at hr
  split at hr
  · exact .inl (Prod.mk.inj hr).2.symm
  repeat
    split at hr
    · exact .inr ⟨_, (Prod.mk.inj hr).2.symm⟩
  exact .inr ⟨_, (Prod.mk.inj hr).2.symm⟩

theorem initSmtsDvrClient_result (hr : w.initSmtsDvrClient s = (w', r)) :
    r = dvrClientInitAddrError ∨ r = 0 := by
  rw [initSmtsDvrClient] at hr
  dsimp only at hr
  split at hr
  · exact .inl (Prod.mk.inj hr).2.symm
  next hz => exact .inr ((Prod.mk.inj hr).2.symm.trans (not_not.mp hz))

theorem addSession_result {keyOf : Nat → SessionKey} {m m' : SessionManager}
    (hr : m.addSession keyOf fuel (some s) = some (m', r)) : r = -1 ∨ r = 0 := by
  obtain ⟨found, hfound, hr⟩ := Option.bind_eq_some_iff.mp hr
  obtain rfl : found = r := by
    split at hr <;> exact (Prod.mk.inj (Option.some.inj hr)).2
  obtain ⟨node, -, hfound⟩ := Option.bind_eq_some_iff.mp hfound
  cases node with
  | none => exact .inr (Option.some.inj hfound).symm
  | some q => exact .inl (Option.some.inj hfound).symm

/-- Why a session could not be started is an `int`, as what libuv returns. -/
theorem Starts.fits (huv : ∀ n, Fits 32 (w.uv n)) (h : Starts fuel w s c w' r) : Fits 32 r := by
  cases h with
  | initFails hinit _ => obtain rfl | rfl := initSmtsDvrClient_result hinit <;> decide
  | addFails _ hadd _ => obtain rfl | rfl := addSession_result hadd <;> decide
  | connectFails hinit _ hconn _ _ =>
      obtain rfl | ⟨n, rfl⟩ := tcpClientConnect_result hconn
      · decide
      · have hu := (initSmtsDvrClient_uv hinit).1
        exact hu ▸ huv n
  | connects _ _ _ => decide

/-- An error that fits an `int` is not told as `SMTS_OK`. -/
theorem ofInt_ne_zero (hfits : Fits 32 r) (hr : r ≠ 0) : BitVec.ofInt 32 r ≠ 0 := by
  intro hz
  have htoInt := congrArg BitVec.toInt hz
  rw [BitVec.toInt_ofInt] at htoInt
  have hsame : r.bmod (2 ^ 32) = r :=
    Int.bmod_eq_of_le (by have h := hfits.1; norm_num at h ⊢; omega) (by have h := hfits.2; norm_num at h ⊢; omega)
  rw [hsame] at htoInt
  exact hr htoInt

theorem dispatchPacket_decoded {bytes : List Byte} {junk : Int → Byte}
    (hprev : (Event.packet c bytes junk).preview = some c)
    (hr : w.dispatchPacket fuel c bytes junk = some w') :
    ∃ t w₁, dispatchDecode (Reader.beyond bytes junk) (w.heap.receive bytes).2
        (BitVec.ofNat 64 bytes.length) (w.garbage w.nCmds) = some (some (t, some .smtsStartPreview)) ∧
      ((w.setHeap (w.heap.receive bytes).1).addCmd t).smtsStartPreview fuel c w.nCmds = some w₁ ∧
      w' = w₁.protoCmdDestroy w.nCmds := by
  have hno := Event.preview_packet hprev
  obtain ⟨hdec, -⟩ | ⟨t, imp, w₁, hdec, himp, rfl⟩ := dispatchPacket_cases hr
  · exact absurd hdec (dispatchDecode_known hno (by decide))
  · obtain ⟨T, hT, hcmd, -⟩ := dispatchDecode_spec hdec
    obtain rfl : imp = some .smtsStartPreview :=
      previewCmd_imp _ hT (Option.some.inj (hcmd.symm.trans hno))
    exact ⟨t, w₁, hdec, himp, rfl⟩

/-- A session that was started, or not, has answered nobody yet. -/
theorem Starts.settled (hw : Settled w)
    (h : Starts fuel ((w.initMediaSession key).addSmtsClient w.nSessions c) w.nSessions c w' r) :
    Settled w' ∧ (∀ t, (w'.sessions t).status = .running → (w.sessions t).status = .running) ∧
      ∃ m, w'.log = w.log ++ m ∧ answers m = [] := by
  obtain ⟨⟨k, hlog⟩, -, -, hothers, hclients, hnew⟩ := h.spec
  have hsession : (w'.sessions w.nSessions).status = .init ∧
      (w'.sessions w.nSessions).dvr.reading = false := by
    obtain ⟨-, -, hs⟩ | ⟨-, -, hs⟩ := hnew <;> simp [hs]
  have hold : ∀ t, t ≠ w.nSessions → w'.sessions t = w.sessions t := fun t ht => by
    rw [hothers t ht]
    simp [Function.update_of_ne ht]
  have hrun : ∀ t, (w'.sessions t).status = .running → t ≠ w.nSessions := fun t ht heq => by
    rw [heq, hsession.1] at ht
    cases ht
  refine ⟨⟨fun t => ?_, fun t ht => ?_, fun d t hd ht => ?_⟩, fun t ht => hold t (hrun t ht) ▸ ht, ?_⟩
  · by_cases hts : t = w.nSessions
    · subst hts
      exact .inl hsession.1
    · rw [hold t hts]
      exact hw.status t
  · by_cases hts : t = w.nSessions
    · subst hts
      rw [hsession.2] at ht
      cases ht
    · rw [hold t hts] at ht ⊢
      exact hw.reading t ht
  · have hts := hrun t ht
    rw [hold t hts] at ht
    by_cases hdc : d = c
    · subst hdc
      obtain ⟨-, hc, -⟩ | ⟨-, hc, -⟩ := hnew
      · simp [hc] at hd
      · rw [hc] at hd
        simp [Ne.symm hts] at hd
    · rw [hclients d hdc] at hd ⊢
      have hd : (w.clients d).session = some t := by simpa [Function.update_of_ne hdc] using hd
      simpa [Function.update_of_ne hdc] using hw.answered d t hd ht
  · refine ⟨.uvInit (.timer w.nSessions) :: .attach c w.nSessions ::
      (List.replicate k (.uvInit (.dvr w.nSessions)) ++ if r = 0 then [] else [.free (.session w.nSessions)]),
      by simp [hlog], ?_⟩
    refine List.filterMap_eq_nil_iff.mpr fun o ho => ?_
    simp only [List.mem_cons, List.mem_append, List.mem_replicate] at ho
    rcases ho with rfl | rfl | ⟨-, rfl⟩ | ho
    · rfl
    · rfl
    · rfl
    · split at ho
      · cases ho
      · obtain rfl := List.mem_singleton.mp ho
        rfl

/-- The response to a preview that could not be started. -/
theorem errorPreviewRes_answers {w₂ : Server} {r' : Int} (henc : w.encodeNew (w.previewRes r) = some w₂)
    (hsend : w₂.tcpClientSendMsg (.client c) w.nCmds .errorPreviewRes = (w', r')) :
    Tells [(c, BitVec.ofInt 32 r)] w w' := by
  obtain ⟨v, hv, hwire⟩ := w.encodeNew_flat (t := w.previewRes r)
    (show previewCmdRes ∈ payloadFreeTypes by decide)
  obtain rfl := Option.some.inj (henc.symm.trans hv)
  have hlog := tcpClientSendMsg_log hsend
  rw [hwire] at hlog
  have hanswer : answers [.uvWrite (.client c) w.nCmds .errorPreviewRes
      (some (w.previewResBytes r)) r'] = [(c, BitVec.ofInt 32 r)] := by
    simp [answers, Obs.answer?, wireStatus_previewResBytes]
  exact (Tells.encodeNew henc).after
    (hanswer ▸ .of_sameNet (MemOnly.tcpClientSendMsg hsend).toSameNet hlog (by simp))

/-- Who joins a session is told at once that all is well. -/
theorem joined_settled (hw : Settled w) (hr : (w.addSmtsClient s c).smtsClientSendPreviewRes c smtsOk = some w') :
    Settled w' ∧ (∀ t, (w'.sessions t).status = (w.sessions t).status) ∧
      ∃ m, w'.log = w.log ++ .attach c s :: m ∧ answers m = w.told [c] 0 ∧ ∀ d t, .attach d t ∉ m := by
  have h := smtsClientSendPreviewRes_answers hr
  have hsame : ∀ t, ((w.addSmtsClient s c).sessions t).status = (w.sessions t).status ∧
      ((w.addSmtsClient s c).sessions t).dvr = (w.sessions t).dvr := fun t => by
    by_cases ht : t = s
    · subst ht
      simp
    · simp [Function.update_of_ne ht]
  have hst : ∀ t, (w'.sessions t).status = (w.sessions t).status := fun t =>
    (h.status t).trans (hsame t).1
  refine ⟨⟨fun t => ?_, fun t ht => ?_, fun d t hd ht => ?_⟩, hst, ?_⟩
  · rw [hst]
    exact hw.status t
  · rw [hst]
    exact hw.reading t ((hsame t).2 ▸ h.reading t ht)
  · rw [hst] at ht
    by_cases hdc : d = c
    · subst hdc
      exact h.done
    · rw [h.clients d hdc] at hd ⊢
      have hd : (w.clients d).session = some t := by simpa [Function.update_of_ne hdc] using hd
      simpa [Function.update_of_ne hdc] using hw.answered d t hd ht
  · obtain ⟨m, hlog, ha, hm⟩ := h.log
    refine ⟨m, by simp [hlog], ?_, hm⟩
    rw [ha]
    simp [told, List.filter_cons]

/-- A preview that failed is answered with its status, which is not 0. -/
theorem errorPreview_settled (hset : Settled w) (hfits : Fits 32 r)
    (hcase : (r = 0 ∧ w' = w) ∨ (r ≠ 0 ∧ ∃ w₂ w₃ r', w.encodeNew (w.previewRes r) = some w₂ ∧
      w₂.tcpClientSendMsg (.client c) w.nCmds .errorPreviewRes = (w₃, r') ∧
      (w' = w₃ ∨ w' = w₃.protoCmdDestroy w.nCmds))) :
    Settled w' ∧ (∀ s, (w'.sessions s).status = (w.sessions s).status) ∧
      ∃ m, w'.log = w.log ++ m ∧ ∀ d, (d, 0) ∉ answers m := by
  obtain ⟨-, rfl⟩ | ⟨hne, w₂, w₃, r', henc, hsend, hw'⟩ := hcase
  · exact ⟨hset, fun _ => rfl, [], (List.append_nil _).symm, by simp [answers]⟩
  · have hsent := errorPreviewRes_answers henc hsend
    have htells : Tells [(c, BitVec.ofInt 32 r)] w w' := by
      rcases hw' with rfl | rfl
      · exact hsent
      · exact hsent.mute (.protoCmdDestroy ..)
    obtain ⟨m, hlog, ha, -⟩ := htells.log
    refine ⟨hset.tells htells, htells.status, m, hlog, fun d hd => ?_⟩
    rw [ha, List.mem_singleton, Prod.mk.injEq] at hd
    exact ofInt_ne_zero hfits hne hd.2.symm

/-- Who joins a session learns at once whether its preview is on. -/
theorem joined_truth {bytes : List Byte} {junk : Int → Byte} {t : NvmpCmd} {imp : Option CmdImp}
    {m : List Obs} (hjoin : (w.clients c).session = none)
    (hprev : (Event.packet c bytes junk).preview = some c)
    (hdec : dispatchDecode (Reader.beyond bytes junk) (w.heap.receive bytes).2
      (BitVec.ofNat 64 bytes.length) (w.garbage w.nCmds) = some (some (t, imp)))
    (hget : w.manager.getSession w.keyOf fuel (playKey t) = some (some s)) (hused : w.Used (.head s))
    (hlog : w'.log.drop w.log.length = .attach c s :: m) (hanswers : answers m = w.told [c] 0)
    (hattach : ∀ d u, .attach d u ∉ m) :
    TellsTruth w (.packet c bytes junk) w' ↔ w.Timely (.packet c bytes junk) := by
  have htold : answers (w'.log.drop w.log.length) = w.told [c] 0 := by rw [hlog, ← hanswers]; rfl
  have honly : ∀ d u, .attach d u ∈ w'.log.drop w.log.length → u = s := fun d u hd => by
    rw [hlog] at hd
    simp only [List.mem_cons, Obs.attach.injEq, hattach d u, or_false] at hd
    exact hd.2
  have hdone : ∀ u, PreviewDone w (.packet c bytes junk) u → (w.sessions u).status = .running := by
    rintro u (⟨-, hrun⟩ | ⟨k, hk, -⟩)
    · exact hrun
    · cases hk
  constructor
  · intro ht _ hst t' imp' hdec' fuel' s' hget'
    obtain ⟨rfl, -⟩ := Prod.mk.inj (Option.some.inj (Option.some.inj (hdec.symm.trans hdec')))
    obtain rfl : s' = s := Option.some.inj (SessionManager.getSession_unique hget hget')
    obtain ⟨u, hu | hu, hpd⟩ := ht.ok c (by rw [htold, mem_told]; exact ⟨by simp, hst, rfl⟩)
    · rw [hjoin] at hu
      cases hu
    · obtain rfl := honly c u hu
      exact hdone u hpd
  · refine fun ht => ⟨fun d hd => ?_, fun v u hv => by cases hv⟩
    rw [htold, mem_told] at hd
    obtain ⟨hdc, hst, -⟩ := hd
    obtain rfl := List.mem_singleton.mp hdc
    refine ⟨s, .inr ?_, .inl ⟨hused, ht hprev hst t _ hdec fuel s hget⟩⟩
    rw [hlog]
    exact List.mem_cons_self

theorem dispatchPreview_outcome {bytes : List Byte} {junk : Int → Byte} (hw : Settled w)
    (huv : ∀ n, Fits 32 (w.uv n)) (hjoin : (w.clients c).session = none)
    (hfinds : ∀ fuel key s, w.manager.getSession w.keyOf fuel key = some (some s) → w.Used (.head s))
    (hprev : (Event.packet c bytes junk).preview = some c)
    (hr : w.dispatchPacket fuel c bytes junk = some w') : Outcome w (.packet c bytes junk) w' := by
  obtain ⟨t, w₁, hdec, hstart, rfl⟩ := dispatchPacket_decoded hprev hr
  let w₀ := (w.setHeap (w.heap.receive bytes).1).addCmd t
  have h₀ : Tells [] w w₀ := .of_log_eq ⟨rfl, rfl, rfl, rfl, rfl, rfl⟩ rfl
  have hw₀ := hw.tells h₀
  have hdestroy := Tells.protoCmdDestroy w₁ w.nCmds
  obtain ⟨w₂, r, hmedia, hcase⟩ := smtsStartPreview_cases hstart
  have hkey : w₀.cmds w.nCmds = t := Function.update_self ..
  have hmedia : w₀.mediaClientStartPreview fuel c (playKey t) = some (w₂, r) := by
    rw [← hkey]
    exact hmedia
  obtain ⟨found, hget, -⟩ := Option.bind_eq_some_iff.mp hmedia
  have hget' : w.manager.getSession w.keyOf fuel (playKey t) = some found := hget
  cases found with
  | none =>
      have hstarts := mediaClientStartPreview_new hget hmedia
      obtain ⟨hset₂, hrun₂, m, hlog₂, hm⟩ := hstarts.settled hw₀
      have huv₀ : ∀ n, Fits 32 (((w₀.initMediaSession (playKey t)).addSmtsClient w₀.nSessions c).uv n) := huv
      obtain ⟨hset₁, hst₁, m₁, hlog₁, hm₁⟩ := errorPreview_settled hset₂ (hstarts.fits huv₀) hcase
      refine ⟨hset₁.tells hdestroy, fun s hs => .inl (hrun₂ s ((hst₁ s).symm.trans hs)),
        fun _ _ _ t' imp hdec' fuel' s hget'' => ?_, fun _ => ⟨fun d hd => ?_,
          fun v s hv => by cases hv⟩⟩
      · obtain ⟨rfl, -⟩ := Prod.mk.inj (Option.some.inj (Option.some.inj (hdec.symm.trans hdec')))
        cases SessionManager.getSession_unique hget' hget''
      · obtain ⟨m₂, hlog, ha, -⟩ := hdestroy.log
        have hlog₀ : (w₁.protoCmdDestroy w.nCmds).log = w.log ++ (m ++ m₁ ++ m₂) := by
          rw [hlog, hlog₁, hlog₂, List.append_assoc, List.append_assoc, List.append_assoc]
          rfl
        rw [hlog₀, List.drop_left, answers_append, answers_append, hm, ha] at hd
        exact absurd (by simpa using hd) (hm₁ d)
  | some s =>
      obtain ⟨rfl, hres⟩ := mediaClientStartPreview_found hget hmedia
      obtain ⟨-, rfl⟩ | ⟨hne, -⟩ := hcase
      case inr => exact absurd rfl hne
      obtain ⟨hset, hst₁, m, hlog, hm, hattach⟩ := joined_settled hw₀ hres
      obtain ⟨m₂, hlog₂, ha, hattach₂⟩ := hdestroy.log
      have hlog₀ : (w₁.protoCmdDestroy w.nCmds).log.drop w.log.length = .attach c s :: (m ++ m₂) := by
        rw [hlog₂, hlog, List.append_assoc]
        exact List.drop_left ..
      refine ⟨hset.tells hdestroy, fun u hu => .inl ((hst₁ u).symm.trans hu),
        joined_truth hjoin hprev hdec hget' (hfinds _ _ s hget') hlog₀ ?_ fun d u hd => ?_⟩
      · rw [answers_append, hm, ha, List.append_nil]
        rfl
      · exact (List.mem_append.mp hd).elim (hattach d u) (hattach₂ d u)

end Preview

/-! ## In memory that is used again -/

section Twin

variable {D : Dead} {K : RingNode → Prop} {O : Nat → Prop} {m : Junk} {w w' v v' x : Server} {s : Nat}
  {e : Event}

theorem Twin.connectDone (h : Twin D K O m w v) (hs : K (.head s)) :
    Twin D K O m (w.connectDone s) (v.connectDone s) := by
  rw [Server.connectDone, Server.connectDone, h.sessions hs]
  exact h.setSession hs _ rfl

theorem Twin.readDone (h : Twin D K O m w v) (hs : K (.head s)) :
    Twin D K O m (w.readDone s) (v.readDone s) := by
  rw [Server.readDone, Server.readDone, h.sessions hs]
  exact h.setSession hs _ rfl

/-- What is torn down in one is torn down in the other. -/
theorem Twin.tornDown (h : Twin D K O m w v) (he : OnlyUses K O 0 w e) (ht : TornDown w e x s) :
    K (.head s) ∧ ∃ y, TornDown v e y s ∧ Twin D K O m x y := by
  cases ht with
  | refused hne =>
      have hs := he.dvr s rfl
      have h₁ := h.connectDone hs
      exact ⟨hs, _, .refused hne, h₁.setExitCode hs _⟩
  | notSent henc hsend hne =>
      have hs := he.dvr s rfl
      have h₁ := h.connectDone hs
      obtain ⟨b, hb, h₂⟩ := (h₁.encodeNew _).eq_some henc
      obtain ⟨hr, h₃⟩ := h₂.tcpClientSendMsg (.dvr s) w.nCmds .dvrPreview
      rw [hsend] at hr h₃
      have hinit : (v.connectDone s).initCmd mockDvrPreview = (w.connectDone s).initCmd mockDvrPreview := by
        rw [h₁.eq]
        rfl
      rw [← hinit] at hb
      rw [← h.nCmds] at hr h₃
      -- libuv answers both alike, since both have made the same calls
      generalize hy : b.tcpClientSendMsg (.dvr s) v.nCmds .dvrPreview = y at hr h₃
      obtain ⟨y, r'⟩ := y
      obtain rfl : r' = _ := hr
      exact ⟨hs, _, .notSent hb hy hne, h₃.setExitCode hs _⟩
  | again hprev hne =>
      have hs := he.dvr s rfl
      have h₁ := h.connectDone hs
      obtain ⟨⟨b, r'⟩, hb, hr, h₂⟩ := (h₁.smtsDvrClientPreview hs fun hne =>
        he.connect s 0 rfl (.inr hne)).eq_some hprev
      obtain rfl : r' = _ := hr
      exact ⟨hs, _, .again hb hne, h₂.setExitCode hs _⟩
  | @notWritten k s req status hk hclient hcb hne =>
      have hs := he.dvr s (by simp [scope, hk, hclient, Target.dvr?])
      have h₁ := (h.eraseWrite k).protoCmdDestroy req.packet
      have hk : v.writes[k]? = some req := h.writes ▸ hk
      exact ⟨hs, _, .notWritten hk hclient hcb hne, h₁.setExitCode hs _⟩
  | @notRead fuel k s req a u r hk hclient hcb hres hread hne =>
      have hs := he.dvr s (by simp [scope, hk, hclient, Target.dvr?])
      have h₁ := (h.eraseWrite k).protoCmdDestroy req.packet
      have hk : v.writes[k]? = some req := h.writes ▸ hk
      obtain ⟨b, hb, h₂⟩ := (h₁.sendPreviewResponses hs).eq_some hres
      -- the session is RUNNING in both before the frames are read
      have h₃ := h₂.setSession hs { a.sessions s with status := .running } rfl
      obtain ⟨hr, h₄⟩ := h₃.smtsDvrClientStartReadFrames hs
      rw [hread] at hr h₄
      rw [← h₂.sessions hs] at hr h₄
      generalize hy : Server.smtsDvrClientStartReadFrames _ s = y at hr h₄
      obtain ⟨y, r'⟩ := y
      obtain rfl : r' = _ := hr
      exact ⟨hs, _, .notRead hk hclient hcb hb hy hne, h₄.setExitCode hs _⟩
  | readError =>
      have hs := he.dvr s rfl
      exact ⟨hs, _, .readError, (h.readDone hs).setExitCode hs _⟩

theorem Twin.timely (h : Twin D K O m w v) (ht : w.Timely e) : v.Timely e := by
  cases e with
  | packet c bytes junk =>
      intro hprev hst t imp hdec fuel s hget
      obtain ⟨hsame, hfound⟩ := h.getSession fuel (playKey t)
      rw [h.clients] at hst
      rw [h.heap, h.garbage, h.nCmds] at hdec
      rw [hsame] at hget
      rw [h.sessions (hfound s hget)]
      exact ht hprev hst t imp hdec fuel s hget
  | dvrConnected s status =>
      rw [h.eq]
      exact ht
  | writeDone k status =>
      rw [h.eq]
      exact ht
  | _ => trivial

/-- What a callback tells the clients is true in one of two twins when it is in
the other. -/
theorem Twin.tellsTruth (h : Twin D K O m w v) (hK : ∀ s, w.Used (.head s) → K (.head s))
    (he : OnlyUses K O 0 v e) (hlog : v'.log = w'.log) (ht : TellsTruth w e w') : TellsTruth v e v' := by
  refine ⟨fun c hc => ?_, fun y s hy c hc hst => ?_⟩
  · rw [hlog, h.log] at hc
    obtain ⟨s, hs, hdone⟩ := ht.ok c hc
    refine ⟨s, by rwa [h.clients, hlog, h.log], ?_⟩
    rcases hdone with ⟨hused, hrun⟩ | ⟨k, hk, hprev⟩
    · refine .inl ⟨(h.used s).mpr hused, ?_⟩
      rwa [h.sessions (hK s hused)]
    · refine .inr ⟨k, hk, ?_⟩
      rwa [IsPreview, h.writes]
  · obtain ⟨hs, x, hx, hxy⟩ := h.symm.tornDown he hy
    have hsame := ht.error x s hx c (by rwa [hxy.clients]) (by rwa [hxy.clients])
    rwa [hxy.log, hxy.sessions hs, ← hlog] at hsame

end Twin

/-! ## Whole runs -/

section Run

variable {A : Nat → Prop} {l : List Nat} {uv : Nat → Int} {garbage : Nat → Values NvmpName}
  {es : List Event} {u w w' : Server} {e : Event} {m : Junk}

theorem Settled.step (hw : Settled w) (h : Orderly A l w) (huv : ∀ n, Fits 32 (w.uv n))
    (he : w.JoinsOnce e) (hstep : Step w e w') : Outcome w e w' := by
  obtain ⟨hen, fuel, hr⟩ := hstep
  have hmute : Tells [] w w' → w.Timely e → (∀ v s, ¬ TornDown w e v s) → Outcome w e w' :=
    fun h htimely hdown => h.mute_outcome hw hdown htimely
  cases e with
  | connection =>
      obtain rfl := Option.some.inj hr
      exact hmute (clientOnConnection_tells w) trivial fun v s hv => by cases hv
  | packet c bytes junk =>
      cases hprev : (Event.packet c bytes junk).preview with
      | none =>
          refine hmute (dispatchPacket_tells hprev hr) (fun h => ?_) fun v s hv => by cases hv
          rw [hprev] at h
          cases h
      | some d =>
          obtain ⟨bytes', junk', heq⟩ := Event.preview_eq_some hprev
          obtain rfl : c = d := (Event.packet.inj heq).1
          exact dispatchPreview_outcome hw huv (he c hprev) (fun _ _ s => h.used_of_getSession) hprev hr
  | readError c status =>
      obtain rfl := Option.some.inj hr
      exact hmute (.stopSmtsClient w c) trivial fun v s hv => by cases hv
  | dvrConnected s status => exact dvrConnected_outcome h.rings hw hen hr
  | dvrPacket s bytes junk =>
      exact hmute (onDvrClientReadFrameCb_tells hr) trivial fun v s hv => by cases hv
  | dvrReadError s status => exact dvrReadError_outcome h.rings hw hen hr
  | writeDone k status => exact writeDone_outcome h.rings hw hen hr
  | timer s => exact hmute (sessionExitCb_tells hr) trivial fun v s hv => by cases hv
  | clientClosed c =>
      obtain rfl := Option.some.inj hr
      exact hmute (clientCloseCb_tells w c) trivial fun v s hv => by cases hv
  | dvrClosed s =>
      obtain rfl := Option.some.inj hr
      exact hmute (onDvrClientCloseCb_tells w s) trivial fun v s hv => by cases hv

/-- What holds in every state that is reached while no memory is used again. -/
def Regular (uv : Nat → Int) (w : Server) : Prop :=
  (∃ A l, Orderly A l w) ∧ Settled w ∧ w.uv = uv

theorem init_regular (uv : Nat → Int) (garbage : Nat → Values NvmpName) :
    Regular uv (init uv garbage) :=
  ⟨⟨_, _, init_orderly uv garbage⟩, init_settled uv garbage, rfl⟩

theorem Regular.step (h : Regular uv w) (huv : ∀ n, Fits 32 (uv n)) (he : w.Proper e)
    (hstep : Step w e w') : Regular uv w' ∧ Outcome w e w' := by
  obtain ⟨⟨A, l, ho⟩, hw, rfl⟩ := h
  have hout := hw.step ho huv he.joins hstep
  have hsame : w'.uv = w.uv := by
    obtain ⟨hen, fuel, hr⟩ := hstep
    exact (handle_does_any hen hr).uv
  exact ⟨⟨ho.step he hstep, hout.settled, hsame⟩, hout⟩

/-- A turn in which memory may be used again is the same turn of the state in
which none was, and it tells the truth just when it is timely. -/
theorem Regular.allocStep (h : Regular uv u) (huv : ∀ n, Fits 32 (uv n))
    (he : (u.fill u.dead m).Proper e) (hstep : AllocStep (u.fill u.dead m) e w') :
    ∃ u' m', Regular uv u' ∧ w' = u'.fill u'.dead m' ∧ Outcome u e u' ∧
      (TellsTruth (u.fill u.dead m) e w' ↔ (u.fill u.dead m).Timely e) := by
  obtain ⟨A, l, ho⟩ := h.1
  obtain ⟨hproper, u', m', hs, rfl⟩ := ho.allocStep he hstep
  obtain ⟨h', hout⟩ := h.step huv hproper hs
  have hin := ho.inUse hs.1 hproper.deletes
  have hcomes := ho.comes hs.1 0
  have htwin : Twin u.dead u.Used (fun s => u.deletes e = some s) m u (u.fill u.dead m) := ⟨rfl, hin⟩
  have hused : ∀ s, (u.fill u.dead m).Used (.head s) → u.Used (.head s) := fun s => (htwin.used s).mp
  have hlog : (u'.fill u'.dead m').log = u'.log := rfl
  refine ⟨u', m', h', rfl, hout, fun ht => ?_, fun ht => ?_⟩
  · exact htwin.timely (hout.truth.mp (htwin.symm.tellsTruth hused hcomes hlog.symm ht))
  · have htruth := hout.truth.mpr (htwin.symm.timely ht)
    exact htwin.tellsTruth (fun _ => id) (hcomes.fill hin m) hlog htruth

/-- A session that runs was told that its preview command was written. -/
theorem running_of_run (huv : ∀ n, Fits 32 (uv n))
    (h : Transition.Run (fun w e w' => w.Proper e ∧ AllocStep w e w') (init uv garbage) es w) :
    ∃ u m, Regular uv u ∧ w = u.fill u.dead m ∧ ∀ s, (u.sessions s).status = .running →
      ∃ es₁ es₂ k v, es = es₁ ++ .writeDone k 0 :: es₂ ∧
        Transition.Run (fun w e w' => w.Proper e ∧ AllocStep w e w') (init uv garbage) es₁ v ∧
        v.IsPreview k s := by
  induction h with
  | refl =>
      refine ⟨_, _, init_regular uv garbage, (fill_junk ..).symm, fun s hs => ?_⟩
      cases hs
  | @snoc es e w w' hrun hstep ih =>
      obtain ⟨u, m, hreg, rfl, hold⟩ := ih
      obtain ⟨u', m', hreg', rfl, hout, -⟩ := hreg.allocStep huv hstep.1 hstep.2
      refine ⟨u', m', hreg', rfl, fun s hs => ?_⟩
      rcases hout.running s hs with hs | ⟨k, rfl, hk⟩
      · obtain ⟨es₁, es₂, k, v, rfl, hv, hk⟩ := hold s hs
        exact ⟨es₁, es₂ ++ [e], k, v, by simp, hv, hk⟩
      · exact ⟨es, [], k, _, rfl, hrun, hk⟩

/-- **When the answers are true**: over a run, just when each session is joined
only after its preview command was written, and none is torn down while somebody
in it waits for an answer; and a session runs only after a write of its preview
command has completed with status 0. -/
theorem tellsTruth_iff_of_recycling (huv : ∀ n, Fits 32 (uv n)) :
    (Transition.Run (fun w e w' => (w.Proper e ∧ AllocStep w e w') ∧ TellsTruth w e w')
        (init uv garbage) es w ↔
      Transition.Run (fun w e w' => (w.Proper e ∧ AllocStep w e w') ∧ w.Timely e)
        (init uv garbage) es w) ∧
    ∀ s, Transition.Run (fun w e w' => w.Proper e ∧ AllocStep w e w') (init uv garbage) es w →
      w.Used (.head s) → (w.sessions s).status = .running →
      ∃ es₁ es₂ k v, es = es₁ ++ .writeDone k 0 :: es₂ ∧
        Transition.Run (fun w e w' => w.Proper e ∧ AllocStep w e w') (init uv garbage) es₁ v ∧
        v.IsPreview k s := by
  constructor
  · refine Transition.Run.and_iff (I := fun w => ∃ u m, Regular uv u ∧ w = u.fill u.dead m)
      ⟨_, _, init_regular uv garbage, (fill_junk ..).symm⟩ ?_ ?_
    · rintro _ e w' ⟨u, m, hreg, rfl⟩ hstep
      obtain ⟨_, _, -, -, -, hiff⟩ := hreg.allocStep huv hstep.1 hstep.2
      exact hiff
    · rintro _ e w' ⟨u, m, hreg, rfl⟩ hstep -
      obtain ⟨u', m', hreg', rfl, -⟩ := hreg.allocStep huv hstep.1 hstep.2
      exact ⟨u', m', hreg', rfl⟩
  · intro s h hused hs
    obtain ⟨u, m, -, rfl, hrunning⟩ := running_of_run huv h
    have hlive : u.dead.session s = false := by
      rw [Used, fill_freed, fill_nSessions] at hused
      exact u.dead_node.mpr (show u.Used (.head s) from hused)
    rw [fill_sessions, hlive, if_neg Bool.false_ne_true] at hs
    exact hrunning s hs

/-- Who asks finds only sessions that run, and nothing fails. -/
def Prompt (w : Server) : Event → Prop
  | .packet _ _ _ =>
      ∀ s < w.nSessions, (w.sessions s).freed = false → (w.sessions s).status = .running
  | .dvrConnected _ status => status = 0 ∧ w.uv w.nUv = 0
  | .writeDone _ status => status = 0
  | _ => True

instance (w : Server) : (e : Event) → Decidable (w.Prompt e)
  | .packet _ _ _ => inferInstanceAs (Decidable (∀ s < _, _))
  | .dvrConnected _ _ => inferInstanceAs (Decidable (_ ∧ _))
  | .writeDone _ _ => inferInstanceAs (Decidable (_ = _))
  | .connection | .readError _ _ | .dvrPacket _ _ _ | .dvrReadError _ _ | .timer _ | .clientClosed _
  | .dvrClosed _ => inferInstanceAs (Decidable True)

theorem Twin.prompt {D : Dead} {K : RingNode → Prop} {O : Nat → Prop} (h : Twin D K O m u w)
    (hK : ∀ s, K (.head s) → w.Used (.head s)) (he : w.Prompt e) : w.Timely e := by
  cases e with
  | packet c bytes junk =>
      intro _ _ t imp _ fuel s hget
      obtain ⟨hsame, hfound⟩ := h.getSession fuel (playKey t)
      obtain ⟨hlt, hf⟩ := hK s (hfound s (hsame.symm.trans hget))
      exact he s hlt hf
  | dvrConnected s status =>
      rintro (hne | hne)
      · exact absurd he.1 hne
      · exact absurd he.2 hne
  | writeDone k status => exact fun hne => absurd he hne
  | _ => trivial

theorem timely_of_prompt
    (h : Transition.Run (fun w e w' => (w.Proper e ∧ w.Prompt e) ∧ AllocStep w e w')
      (init uv garbage) es w) :
    Transition.Run (fun w e w' => (w.Proper e ∧ AllocStep w e w') ∧ w.Timely e) (init uv garbage) es w := by
  induction h with
  | refl => exact .refl
  | @snoc es e w w' hrun hstep ih =>
      obtain ⟨⟨he, hprompt⟩, hstep⟩ := hstep
      refine ih.snoc ⟨⟨he, hstep⟩, ?_⟩
      obtain ⟨u, m, hu, rfl⟩ := run_of_recycling (hrun.mono fun _ _ _ hs => ⟨hs.1.1, hs.2⟩)
      obtain ⟨A, l, ho⟩ := orderly_of_run hu
      obtain ⟨hproper, u', m', hs, -⟩ := ho.allocStep he hstep
      have htwin : Twin u.dead u.Used (fun s => u.deletes e = some s) m u (u.fill u.dead m) :=
        ⟨rfl, ho.inUse hs.1 hproper.deletes⟩
      exact htwin.prompt (fun s => (htwin.used s).mpr) hprompt

/-- Two clients are shown what the DVR 0 sends. When they have left, the session
of the third gets the memory of theirs. -/
def previews : List Occasion :=
  [(none, .connection), (none, previewOf 0 0), (none, .dvrConnected 0 0), (none, .writeDone 0 0),
    (none, .connection), (none, previewOf 1 0), (none, .readError 0 (-4095)), (none, .writeDone 1 0),
    (none, .readError 1 (-4095)), (none, .timer 0), (none, .dvrClosed 0), (none, .connection),
    (some 0, previewOf 2 1), (none, .dvrConnected 1 0), (none, .writeDone 1 0)]

theorem tellsTruth_iff_of_recycling_previews :
    ∃ w, Transition.Run (fun w e w' => (w.Proper e ∧ AllocStep w e w') ∧ TellsTruth w e w')
        (init (fun _ => 0) fun _ => Values.zero) (previews.map Prod.snd) w ∧
      answers w.log = [(0, 0), (1, 0), (2, 0)] ∧ (w.sessions 0).freed = true ∧
      ∃ es₁ es₂ k v, previews.map Prod.snd = es₁ ++ .writeDone k 0 :: es₂ ∧
        Transition.Run (fun w e w' => w.Proper e ∧ AllocStep w e w')
          (init (fun _ => 0) fun _ => Values.zero) es₁ v ∧ v.IsPreview k 1 := by
  have hval : ((init (fun _ => 0) fun _ => Values.zero).followAlloc
      (fun w e => w.Proper e ∧ w.Prompt e) 4 previews).map (fun w =>
        (answers w.log, (w.sessions 0).freed, w.nSessions, (w.sessions 1).freed, (w.sessions 1).status))
      = some ([(0, 0), (1, 0), (2, 0)], true, 2, false, .running) := by
    decide +kernel
  obtain ⟨w, hw, hval⟩ := Option.map_eq_some_iff.mp hval
  obtain ⟨hanswers, hval⟩ := Prod.mk.inj hval
  obtain ⟨hfreed, hval⟩ := Prod.mk.inj hval
  obtain ⟨hn, hval⟩ := Prod.mk.inj hval
  obtain ⟨hlive, hrunning⟩ := Prod.mk.inj hval
  have hrun := timely_of_prompt (run_of_followAlloc hw)
  have huv : ∀ n : Nat, Fits 32 ((fun _ => 0 : Nat → Int) n) := fun _ => (by decide : Fits 32 0)
  have htruth := (tellsTruth_iff_of_recycling huv).1.mpr hrun
  have hwritten := (tellsTruth_iff_of_recycling huv).2 1 (hrun.mono fun _ _ _ hs => hs.1)
    ⟨by omega, hlive⟩ hrunning
  exact ⟨w, htruth, hanswers, hfreed, hwritten⟩

/-- The DVR cannot be connected to, and the client that waits for it is told
that all is well. -/
theorem not_tellsTruth_preview0 :
    ∃ w w', Transition.Run (fun w e w' => w.Proper e ∧ Step w e w')
        (init (fun _ => 0) fun _ => Values.zero) [.connection, preview0] w ∧
      w.Proper (.dvrConnected 0 (-111)) ∧ Step w (.dvrConnected 0 (-111)) w' ∧
      answers (w'.log.drop w.log.length) = [(0, 0)] ∧ ¬ TellsTruth w (.dvrConnected 0 (-111)) w' := by
  have hval : ((init (fun _ => 0) fun _ => Values.zero).followIf Proper 2 [.connection, preview0]).bind
      (fun w => (w.followIf Proper 2 [.dvrConnected 0 (-111)]).map fun w' =>
        (answers (w'.log.drop w.log.length), (w.clients 0).session, (w.clients 0).status))
      = some ([(0, 0)], some 0, .onInit) := by
    decide +kernel
  obtain ⟨w, hw, hval⟩ := Option.bind_eq_some_iff.mp hval
  obtain ⟨w', hw', hval⟩ := Option.map_eq_some_iff.mp hval
  obtain ⟨hanswers, hval⟩ := Prod.mk.inj hval
  obtain ⟨hsession, hstatus⟩ := Prod.mk.inj hval
  have hrun := run_of_followIf hw
  obtain ⟨hproper, hstep⟩ := Transition.Run.single_iff.mp (run_of_followIf hw')
  have huv : ∀ n : Nat, Fits 32 ((fun _ => 0 : Nat → Int) n) := fun _ => (by decide : Fits 32 0)
  have hreg := hrun.invariant (I := Regular fun _ => 0) (fun _ _ _ hi hs => (hi.step huv hs.1 hs.2).1)
    (init_regular _ _)
  refine ⟨w, w', hrun, hproper, hstep, hanswers, fun ht => ?_⟩
  exact (hreg.step huv hproper hstep).2.truth.mp ht (.inl (by decide)) 0 hsession hstatus

end Run

end Server

end Smts
