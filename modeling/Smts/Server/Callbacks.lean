import Smts.Server.Action

/-!
# Server — the handlers as sequences of actions

Handler by handler, in the order they call each other: what a callback does
is a sequence of the actions its scope allows.
-/

namespace Smts

open Circular

namespace Server

section Handlers

variable {S : Scope} {w₀ w w' : Server} {fuel : Nat}

/-! ## Sending to clients -/

/-- A packet of the server's own that points nowhere. -/
theorem Does.encodeNew {t : NvmpCmd} (hT : t.type ∈ payloadFreeTypes) (hdata : t.data = none)
    (h : Does S w₀ w) (henc : w.encodeNew t = some w') : Does S w₀ w' := by
  obtain ⟨hwf, hF⟩ := payloadFree_spec hT
  refine h.step (.encodeNew hwf (by simp [hdata]) (fun f hf u p hu _ => ?_) henc)
  have hf := hF f hf
  obtain ⟨k, name⟩ := f
  cases k with
  | binaryBufRef hdr => cases hf
  | _ => cases hu

theorem smtsClientSendPreviewRes_cases {c : Nat} {status : Int}
    (hr : w.smtsClientSendPreviewRes c status = some w') :
    ((w.clients c).status = .onInit ∧
      ∃ w₁ w₂ r, w.encodeNew (w.previewRes status) = some w₁ ∧
        (w₁.setClient c { w₁.clients c with status := .onSendPreviewRes }).tcpClientSendMsg
          (.client c) w.nCmds .previewResSlient = (w₂, r) ∧
        ((r = 0 ∧ w' = w₂) ∨ (r ≠ 0 ∧ w' = (w₂.protoCmdDestroy w.nCmds).stopSmtsClient c))) ∨
      ((w.clients c).status ≠ .onInit ∧
        ((status ≠ 0 ∧ w' = w.stopSmtsClient c) ∨ (status = 0 ∧ w' = w))) := by
  rw [Server.smtsClientSendPreviewRes] at hr
  split at hr
  next hc =>
    obtain ⟨w₁, henc, hr⟩ := Option.bind_eq_some_iff.mp hr
    refine .inl ⟨hc, w₁, _, _, henc, rfl, ?_⟩
    dsimp only at hr
    split at hr
    next hne => exact .inr ⟨hne, (Option.some.inj hr).symm⟩
    next hz => exact .inl ⟨not_not.mp hz, (Option.some.inj hr).symm⟩
  next hc =>
    split at hr
    next hne => exact .inr ⟨hc, .inl ⟨hne, (Option.some.inj hr).symm⟩⟩
    next hz => exact .inr ⟨hc, .inr ⟨not_not.mp hz, (Option.some.inj hr).symm⟩⟩

theorem Does.smtsClientSendPreviewRes {c : Nat} {status : Int} (hv : S.Reaches c)
    (h : Does S w₀ w) (hr : w.smtsClientSendPreviewRes c status = some w') : Does S w₀ w' := by
  obtain ⟨hc, w₁, w₂, r, henc, hsend, hcase⟩ | ⟨-, ⟨-, rfl⟩ | ⟨-, rfl⟩⟩ :=
    smtsClientSendPreviewRes_cases hr
  · have h₁ : Does S w₀ w₁ :=
      h.encodeNew (show previewCmdRes ∈ payloadFreeTypes by decide) rfl henc
    have hp : S.Owns w₀ w₁ w.nCmds := .inr ⟨h.grows.nCmds, by rw [encodeNew_nCmds henc]; omega⟩
    rw [← encodeNew_clients henc] at hc
    have h₂ := h₁.step (.sendPreviewRes hp hv hc hsend)
    obtain ⟨-, rfl⟩ | ⟨-, rfl⟩ := hcase
    · exact h₂
    · exact (h₂.step (.destroy (hp.mono (tcpClientSendMsg_nCmds hsend).ge))).step (.stop hv)
  · exact h.step (.stop hv)
  · exact h

/-- The response is sent, perhaps, and the client stopped, perhaps. -/
theorem smtsClientSendPreviewRes_stops {c : Nat} {status : Int}
    (hr : w.smtsClientSendPreviewRes c status = some w') :
    ∃ w₁ st, MemOnly (w.setClient c { w.clients c with status := st }) w₁ ∧
      w.nCmds ≤ w₁.nCmds ∧
      (st = (w.clients c).status ∨ ((w.clients c).status = .onInit ∧ st = .onSendPreviewRes)) ∧
      (w' = w₁ ∨ w' = w₁.stopSmtsClient c) := by
  have hsame : MemOnly (w.setClient c { w.clients c with status := (w.clients c).status }) w :=
    .of_log_eq ⟨(Function.update_eq_self c w.clients).symm, rfl, rfl, rfl, rfl, rfl⟩ rfl
  obtain ⟨hc, w₁, w₂, r, henc, hsend, hcase⟩ | ⟨-, ⟨-, rfl⟩ | ⟨-, rfl⟩⟩ :=
    smtsClientSendPreviewRes_cases hr
  · have h₁ := MemOnly.encodeNew henc
    have h₂ : MemOnly (w.setClient c { w.clients c with status := .onSendPreviewRes })
        (w₁.setClient c { w₁.clients c with status := .onSendPreviewRes }) :=
      ⟨⟨by simp only [setClient, h₁.clients], h₁.nClients, h₁.sessions, h₁.nSessions, h₁.rings, h₁.manager⟩, h₁.log⟩
    have h₃ := h₂.trans (.tcpClientSendMsg hsend)
    have hle : w.nCmds ≤ w₂.nCmds := by
      rw [tcpClientSendMsg_nCmds hsend, setClient_nCmds, encodeNew_nCmds henc]
      exact Nat.le_succ _
    obtain ⟨-, rfl⟩ | ⟨-, rfl⟩ := hcase
    · exact ⟨_, _, h₃, hle, .inr ⟨hc, rfl⟩, .inl rfl⟩
    · exact ⟨_, _, h₃.trans (.protoCmdDestroy w₂ w.nCmds), hle, .inr ⟨hc, rfl⟩, .inr rfl⟩
  · exact ⟨_, _, hsame, le_rfl, .inl rfl, .inr rfl⟩
  · exact ⟨_, _, hsame, le_rfl, .inl rfl, .inl rfl⟩

/-- Either the ring is left alone, or the client was stopped. -/
theorem smtsClientSendPreviewRes_tame {c : Nat} {status : Int}
    (hr : w.smtsClientSendPreviewRes c status = some w') :
    Tame c w w' ∧ (w'.rings = w.rings ∨ (w'.clients c).status = .onStop) := by
  obtain ⟨w₁, st, h₁, hle, -, rfl | rfl⟩ := smtsClientSendPreviewRes_stops hr
  · exact ⟨setClient_tame_trans (h₁.tame hle c), .inl h₁.rings⟩
  · have hstop := stopSmtsClient_tame w₁ c
    refine ⟨setClient_tame_trans (h₁.tame_trans hle hstop), .inr (stopSmtsClient_status w₁ c)⟩

theorem smtsClientSendFrame_cases {c p : Nat} (hr : w.smtsClientSendFrame c p = some w') :
    let w₁ := w.emit (.sendFrame c p)
    ((w.clients c).status = .onSendFrames ∧
      ∃ w₂ r, w₁.tcpClientSendMsg (.client c) p .sendFrame = (w₂, r) ∧
        ((r = 0 ∧ w' = w₂.emit (.frameSent c (w₂.cmds p).data)) ∨
          (r ≠ 0 ∧ ∃ w₃, w₂.onSmtsClientSendFrame p = some w₃ ∧ w' = w₃.stopSmtsClient c))) ∨
      ((w.clients c).status ≠ .onSendFrames ∧ w₁.onSmtsClientSendFrame p = some w') := by
  rw [Server.smtsClientSendFrame] at hr
  dsimp only at hr
  split at hr
  next hc =>
    refine .inl ⟨hc, _, _, rfl, ?_⟩
    split at hr
    next hne =>
      obtain ⟨w₃, hdrop, hr⟩ := Option.bind_eq_some_iff.mp hr
      exact .inr ⟨hne, w₃, hdrop, (Option.some.inj hr).symm⟩
    next hz => exact .inl ⟨not_not.mp hz, (Option.some.inj hr).symm⟩
  next hc => exact .inr ⟨hc, hr⟩

theorem onSmtsClientSendFrame_nCmds {p : Nat} (h : w.onSmtsClientSendFrame p = some w') :
    w'.nCmds = w.nCmds := by
  obtain ⟨-, rfl⟩ | ⟨-, f, -, rfl⟩ := onSmtsClientSendFrame_cases h
  · rfl
  · simp

theorem smtsClientSendFrame_tame {c p : Nat} (hr : w.smtsClientSendFrame c p = some w') :
    Tame c w w' := by
  refine emit_tame_trans (o := .sendFrame c p) ?_
  obtain ⟨-, w₂, r, hsend, ⟨-, rfl⟩ | ⟨-, w₃, hdrop, rfl⟩⟩ | ⟨-, hdrop⟩ :=
    smtsClientSendFrame_cases hr
  · have h₁ := (MemOnly.tcpClientSendMsg hsend).tame (tcpClientSendMsg_nCmds hsend).ge c
    exact ⟨h₁.rings, h₁.clients, h₁.nCmds⟩
  · have h₁ := (MemOnly.tcpClientSendMsg hsend).trans (MemOnly.onSmtsClientSendFrame hdrop)
    refine h₁.tame_trans ?_ (stopSmtsClient_tame ..)
    rw [onSmtsClientSendFrame_nCmds hdrop, tcpClientSendMsg_nCmds hsend]
  · exact (MemOnly.onSmtsClientSendFrame hdrop).tame (onSmtsClientSendFrame_nCmds hdrop).ge c

theorem Does.smtsClientSendFrame {c p : Nat} (hS : S.relay = true) (hv : S.Reaches c)
    (hp : S.Owns w₀ w p) (h : Does S w₀ w) (hr : w.smtsClientSendFrame c p = some w') :
    Does S w₀ w' := by
  have h₁ : Does S w₀ (w.emit (.sendFrame c p)) := h.step (.relay hS (.inr (.inr ⟨c, p, rfl, hp⟩)))
  have hcb : SendCb.sendFrame ≠ .previewResSlient := by decide
  obtain ⟨-, w₂, r, hsend, hcase⟩ | ⟨-, hdrop⟩ := smtsClientSendFrame_cases hr
  · have h₂ : Does S w₀ w₂ := by
      refine h₁.step (.send hp hcb (by rintro s ⟨⟩) ?_ hsend)
      rintro d ⟨⟩
      exact hv
    have hp₂ : S.Owns w₀ w₂ p := hp.mono (tcpClientSendMsg_nCmds hsend).ge
    obtain ⟨-, rfl⟩ | ⟨-, w₃, hdrop, rfl⟩ := hcase
    · exact h₂.step (.relay hS (.inr (.inl ⟨c, _, rfl⟩)))
    · exact (h₂.step (.dropRef hp₂ hdrop)).step (.stop hv)
  · exact h₁.step (.dropRef hp hdrop)

/-! ## Sessions -/

/-- The exit code, the session's or its timer's state. -/
theorem Does.setExitCode {s : Nat} (hs : S.dvr = some s ∨ S.exit = some s) (h : Does S w₀ w)
    (r : Int) : Does S w₀ (w.setExitCode s r) :=
  h.step (.touch ⟨hs.imp_right .inl, rfl, rfl, id, .inr ⟨rfl, rfl, rfl⟩, .inr (.inr ⟨id, id⟩), .inr (.inr rfl)⟩)

theorem Does.stopMediaSession {s : Nat} (hloop : S.Loops w₀ s) (h : Does S w₀ w)
    (hr : w.stopMediaSession fuel s = some w') : Does S w₀ w' := by
  obtain ⟨w₁, hdel, hr⟩ := Option.bind_eq_some_iff.mp hr
  refine hloop (h.step (.delete hdel)) (fun c a b ha _ hv hb => ?_) hr
  obtain ⟨a₁, hres, hb⟩ := Option.bind_eq_some_iff.mp hb
  obtain rfl := Option.some.inj hb
  refine ⟨(ha.smtsClientSendPreviewRes (.inl hv) hres).step (.stop (.inl hv)), ?_⟩
  obtain ⟨htame, hrings | hstop⟩ := smtsClientSendPreviewRes_tame hres
  · have hstop := stopSmtsClient_tame a₁ c
    exact ⟨hrings ▸ hstop.rings, fun d hd => (hstop.clients d hd).trans (htame.clients d hd),
      htame.nCmds.trans hstop.nCmds⟩
  · rwa [stopSmtsClient_of_onStop hstop]

theorem Does.smtsDvrClientStop {s : Nat} (hs : S.exit = some s) (h : Does S w₀ w) :
    Does S w₀ (w.smtsDvrClientStop s) := by
  have h₁ := h.step (.touch (s := s)
    (x := { w.sessions s with dvr := { (w.sessions s).dvr with reading := false, closing := true } })
    ⟨.inr (.inl hs), rfl, rfl, id, .inl hs, .inr (.inr ⟨id, by rintro ⟨⟩⟩), .inr (.inr rfl)⟩)
  exact h₁.step (.emit rfl rfl (by rintro t ⟨⟩; exact .inr hs) (by rintro x ⟨⟩))

theorem Does.sessionExitCb {s : Nat} (hs : S.exit = some s) (h : Does S w₀ w)
    (hr : w.sessionExitCb fuel s = some w') : Does S w₀ w' := by
  have h₁ := h.step (.touch (s := s) (x := { w.sessions s with waitExitTimer := false })
    ⟨.inr (.inl hs), rfl, rfl, id, .inl hs, .inr (.inr ⟨id, id⟩), .inr (.inr rfl)⟩)
  rw [Server.sessionExitCb] at hr
  split at hr
  · obtain ⟨w₂, hdel, hr⟩ := Option.bind_eq_some_iff.mp hr
    obtain rfl := Option.some.inj hr
    exact (h₁.step (.delete hdel)).smtsDvrClientStop hs
  · obtain rfl := Option.some.inj hr
    exact h₁.setExitCode (.inr hs) smtsOk

/-- The packet a frame is passed on in, before it is encoded. -/
def frameRes (w : Server) (f : Nat) : NvmpCmd :=
  let t := (w.initCmd smtsFrameRes).set seqno (w.frames f).seqno
  let t := (t.set resFrame (w.frames f).frameData).set frameType (w.frames f).type
  { t with data := some f }

theorem frameRes_payloadRef (w : Server) (f : Nat) :
    ∀ g ∈ (w.frameRes f).type.fields, ∀ u, payloadRef (w.frameRes f).vals g = some u →
      g = resFrame ∧ u = (w.frames f).frameData := by
  change ∀ g ∈ smtsFrameRes.fields, ∀ u, payloadRef (w.frameRes f).vals g = some u → _
  intro g hg u hu
  have hfields : smtsFrameRes.fields = protocolHeadFiled ++ [frameType, resFrame] := rfl
  simp only [hfields, protocolHeadFiled, protocolTopFiled, List.cons_append, List.nil_append,
    List.mem_cons, List.not_mem_nil, or_false] at hg
  rcases hg with rfl | rfl | rfl | rfl | rfl | rfl | rfl
  case inr.inr.inr.inr.inr.inr =>
    refine ⟨rfl, ?_⟩
    simp only [payloadRef] at hu
    split at hu
    · exact (Option.some.inj hu).symm
    · cases hu
  all_goals cases hu

theorem onSmtsDvrClientRecvFrame_cases {s f : Nat}
    (hr : w.onSmtsDvrClientRecvFrame fuel s (some f) 0 = some w') :
    let w₁ := w.emit (.recvFrame s f)
    (0 < (w.sessions s).clientSize ∧ ∃ w₂, w₁.encodeNew (w.frameRes f) = some w₂ ∧
      (w₂.setCmd w.nCmds { w₂.cmds w.nCmds with
        ref := (w₂.cmds w.nCmds).ref + (w₂.sessions s).clientSize }).forEachClient fuel s
          (fun c w₃ => w₃.smtsClientSendFrame c w.nCmds) = some w') ∨
      (¬ 0 < (w.sessions s).clientSize ∧ w' = w₁.destroySmtsFrame f) := by
  rw [Server.onSmtsDvrClientRecvFrame, if_neg (by decide)] at hr
  simp only [Option.bind_eq_bind, Option.bind_some] at hr
  split at hr
  next hpos =>
    obtain ⟨w₂, henc, hr⟩ := Option.bind_eq_some_iff.mp hr
    exact .inl ⟨hpos, w₂, henc, hr⟩
  next hpos => exact .inr ⟨hpos, (Option.some.inj hr).symm⟩

theorem Does.onSmtsDvrClientRecvFrame {s f : Nat} (hS : S.relay = true) (hloop : S.Loops w₀ s)
    (hf : w₀.nFrames ≤ f) (hlt : f < w.nFrames)
    (hdata : ∀ p, (w.frames f).frameData.base = some p →
      w₀.heap.blocks.length ≤ p.block ∧ p.block < w.heap.blocks.length) (h : Does S w₀ w)
    (hr : w.onSmtsDvrClientRecvFrame fuel s (some f) 0 = some w') : Does S w₀ w' := by
  have h₁ : Does S w₀ (w.emit (.recvFrame s f)) := h.step (.relay hS (.inl ⟨s, f, rfl⟩))
  obtain ⟨-, w₂, henc, hr⟩ | ⟨-, rfl⟩ := onSmtsDvrClientRecvFrame_cases hr
  · have h₂ : Does S w₀ w₂ := by
      refine h₁.step (.encodeNew ?_ ?_ (fun g hg u p hu hp => ?_) henc)
      · exact protocolMap_wellFormed (e := (smtsFrameRes, none)) (by decide)
      · rintro g ⟨⟩
        exact ⟨hf, hlt⟩
      · obtain ⟨-, rfl⟩ := frameRes_payloadRef w f g hg u hu
        exact hdata p hp
    have hp : S.Owns w₀ w₂ w.nCmds :=
      .inr ⟨h.grows.nCmds, by rw [encodeNew_nCmds henc]; exact Nat.lt_succ_self _⟩
    exact hloop (h₂.step (.addRef hp _)) (fun c a b ha hle hv hb =>
      ⟨ha.smtsClientSendFrame hS (.inl hv) (hp.mono hle) hb, smtsClientSendFrame_tame hb⟩) hr
  · exact h₁.step (.destroyFrame hf hlt)

theorem Does.recvError {s : Nat} {frame : Option Nat} {status : Int} (hs : status ≠ 0)
    (hS : S.dvr = some s) (hloop : S.Loops w₀ s) (h : Does S w₀ w)
    (hr : w.onSmtsDvrClientRecvFrame fuel s frame status = some w') : Does S w₀ w' := by
  rw [Server.onSmtsDvrClientRecvFrame, if_pos hs] at hr
  exact (h.setExitCode (.inl hS) status).stopMediaSession hloop hr

theorem Does.smtsDvrClientStartReadFrames {s : Nat} (hS : S.dvr = some s) (h : Does S w₀ w) :
    Does S w₀ (w.smtsDvrClientStartReadFrames s).1 :=
  (h.step (.uvCall rfl)).step
    (.touch ⟨.inl hS, rfl, rfl, id, .inr ⟨rfl, rfl, rfl⟩, .inl hS, .inr (.inr rfl)⟩)

theorem Does.sendPreviewResponses {s : Nat} (hloop : S.Loops w₀ s) (h : Does S w₀ w)
    (hr : w.sendPreviewResponses fuel s = some w') : Does S w₀ w' := by
  rw [Server.sendPreviewResponses] at hr
  split at hr
  · exact hloop h (fun c a b ha _ hv hb =>
      ⟨ha.smtsClientSendPreviewRes (.inl hv) hb, (smtsClientSendPreviewRes_tame hb).1⟩) hr
  · obtain rfl := Option.some.inj hr
    exact h

theorem Does.onSmtsDvrClientSendPreview {s : Nat} {status : Int} (hS : S.dvr = some s)
    (hloop : S.Loops w₀ s) (h : Does S w₀ w)
    (hr : w.onSmtsDvrClientSendPreview fuel s status = some w') : Does S w₀ w' := by
  rw [Server.onSmtsDvrClientSendPreview] at hr
  split at hr
  · exact (h.setExitCode (.inl hS) status).stopMediaSession hloop hr
  · obtain ⟨w₁, hres, hr⟩ := Option.bind_eq_some_iff.mp hr
    have h₁ := h.sendPreviewResponses hloop hres
    have h₂ := (h₁.step (.touch (s := s) (x := { w₁.sessions s with status := .running })
      ⟨.inl hS, rfl, rfl, id, .inr ⟨rfl, rfl, rfl⟩, .inl hS, .inr (.inr rfl)⟩)).smtsDvrClientStartReadFrames hS
    dsimp only at hr
    split at hr
    · exact (h₂.setExitCode (.inl hS) _).stopMediaSession hloop hr
    · obtain rfl := Option.some.inj hr
      exact h₂

theorem smtsDvrClientPreview_cases {s : Nat} {r : Int}
    (hr : w.smtsDvrClientPreview fuel s = some (w', r)) :
    ∃ w₁ w₂, w.encodeNew (((w.initCmd mockDvrPreview).set bitrate defaultDvrBitrate).set frameRate
        defaultDvrFramerate) = some w₁ ∧
      w₁.tcpClientSendMsg (.dvr s) w.nCmds .dvrPreview = (w₂, r) ∧
      ((r = 0 ∧ w' = w₂) ∨
        (r ≠ 0 ∧ w₂.onSmtsDvrClientSendPreview fuel s dvrSendPriviewCmdError = some w')) := by
  obtain ⟨w₁, henc, hr⟩ := Option.bind_eq_some_iff.mp hr
  dsimp only at hr
  generalize hsend : w₁.tcpClientSendMsg (.dvr s) w.nCmds .dvrPreview = send at hr
  obtain ⟨w₂, r'⟩ := send
  dsimp only at hr
  split at hr
  next hne =>
    obtain ⟨w₃, hres, hr⟩ := Option.bind_eq_some_iff.mp hr
    obtain ⟨rfl, rfl⟩ := Prod.mk.inj (Option.some.inj hr)
    exact ⟨w₁, w₂, henc, hsend, .inr ⟨hne, hres⟩⟩
  next hz =>
    obtain ⟨rfl, rfl⟩ := Prod.mk.inj (Option.some.inj hr)
    exact ⟨w₁, w₂, henc, hsend, .inl ⟨not_not.mp hz, rfl⟩⟩

theorem Does.smtsDvrClientPreview {s : Nat} {r : Int} (hS : S.dvr = some s)
    (hloop : S.Loops w₀ s) (h : Does S w₀ w)
    (hr : w.smtsDvrClientPreview fuel s = some (w', r)) : Does S w₀ w' := by
  obtain ⟨w₁, w₂, henc, hsend, hcase⟩ := smtsDvrClientPreview_cases hr
  have h₁ : Does S w₀ w₁ :=
    h.encodeNew (show mockDvrPreview ∈ payloadFreeTypes by decide) rfl henc
  have hp : S.Owns w₀ w₁ w.nCmds := .inr ⟨h.grows.nCmds, by rw [encodeNew_nCmds henc]; omega⟩
  have hcb : SendCb.dvrPreview ≠ .previewResSlient := by decide
  have ht : ∀ t, Target.dvr s = .dvr t → S.dvr = some t ∨ ∃ c, (w₁.clients c).session = some t := by
    rintro t ⟨⟩
    exact .inl hS
  have h₂ := h₁.step (.send hp hcb ht (by rintro c ⟨⟩) hsend)
  obtain ⟨-, rfl⟩ | ⟨-, hres⟩ := hcase
  · exact h₂
  · exact h₂.onSmtsDvrClientSendPreview hS hloop hres

theorem Does.onConnectedToDvr {s : Nat} {status : Int} (hS : S.dvr = some s)
    (hloop : S.Loops w₀ s) (h : Does S w₀ w)
    (hr : w.onConnectedToDvr fuel s status = some w') : Does S w₀ w' := by
  rw [Server.onConnectedToDvr] at hr
  split at hr
  · exact (h.setExitCode (.inl hS) _).stopMediaSession hloop hr
  · obtain ⟨⟨w₁, r⟩, hprev, hr⟩ := Option.bind_eq_some_iff.mp hr
    have h₁ := h.smtsDvrClientPreview hS hloop hprev
    dsimp only at hr
    split at hr
    · exact (h₁.setExitCode (.inl hS) _).stopMediaSession hloop hr
    · obtain rfl := Option.some.inj hr
      exact h₁

/-! ## Starting a preview -/

theorem Does.tcpClientConnect {s : Nat} {r : Int} (hS : S.join ≠ none) (h : Does S w₀ w)
    (hr : w.tcpClientConnect s = (w', r)) : Does S w₀ w' := by
  obtain rfl := (congrArg Prod.fst hr).symm
  have h₀ : Does S w₀ (w.emit (.uvInit (.dvr s))) := h.step (.emit rfl rfl (fun _ _ => .inl hS) (by rintro x ⟨⟩))
  have h₁ := h₀.step (.uvCall rfl)
  have h₂ := h₁.step (.uvCall rfl)
  have h₃ := h₂.step (.uvCall rfl)
  have h₄ := h₃.step (.uvCall rfl)
  have h₅ := h₄.step (.uvCall rfl)
  rw [Server.tcpClientConnect]
  dsimp only
  split
  · exact h₁
  split
  · exact h₂
  split
  · exact h₃
  split
  · exact h₄
  split
  · exact h₅
  · refine h₅.step (.touch ?_)
    exact ⟨.inr (.inr hS), rfl, rfl, id, .inr ⟨rfl, rfl, rfl⟩, .inr (.inl hS), .inr (.inl hS)⟩

theorem Does.initSmtsDvrClient {s : Nat} {r : Int} (hS : S.join ≠ none) (h : Does S w₀ w)
    (hr : w.initSmtsDvrClient s = (w', r)) : Does S w₀ w' := by
  obtain rfl := (congrArg Prod.fst hr).symm
  have h₁ : Does S w₀ (w.emit (.uvInit (.dvr s))) := h.step (.emit rfl rfl (fun _ _ => .inl hS) (by rintro x ⟨⟩))
  have h₂ := h₁.step (.uvCall rfl)
  rw [Server.initSmtsDvrClient]
  dsimp only
  split <;> exact h₂

/-- How the new session `s` of the client `c` can turn out. -/
inductive Starts (fuel : Nat) (w : Server) (s c : Nat) : Server → Int → Prop where
  | initFails {w₁ : Server} {r : Int} (hinit : w.initSmtsDvrClient s = (w₁, r)) (hr : r ≠ 0) :
      Starts fuel w s c (w₁.initSessionError s c) r
  | addFails {w₁ : Server} {m : SessionManager} {r : Int}
      (hinit : w.initSmtsDvrClient s = (w₁, 0))
      (hadd : w₁.manager.addSession w₁.keyOf fuel (some s) = some (m, r)) (hr : r ≠ 0) :
      Starts fuel w s c ({ w₁ with manager := m }.initSessionError s c) r
  | connectFails {w₁ w₂ w₃ : Server} {m : SessionManager} {r : Int}
      (hinit : w.initSmtsDvrClient s = (w₁, 0))
      (hadd : w₁.manager.addSession w₁.keyOf fuel (some s) = some (m, 0))
      (hconn : { w₁ with manager := m }.tcpClientConnect s = (w₂, r)) (hr : r ≠ 0)
      (hdel : w₂.deleteSession fuel s = some w₃) :
      Starts fuel w s c (w₃.initSessionError s c) r
  | connects {w₁ w₂ : Server} {m : SessionManager}
      (hinit : w.initSmtsDvrClient s = (w₁, 0))
      (hadd : w₁.manager.addSession w₁.keyOf fuel (some s) = some (m, 0))
      (hconn : { w₁ with manager := m }.tcpClientConnect s = (w₂, 0)) :
      Starts fuel w s c w₂ 0

/-- A session is started when there is none with the key. -/
theorem mediaClientStartPreview_new {c : Nat} {key : SessionKey} {r : Int}
    (hget : w.manager.getSession w.keyOf fuel key = some none)
    (hr : w.mediaClientStartPreview fuel c key = some (w', r)) :
    Starts fuel ((w.initMediaSession key).addSmtsClient w.nSessions c) w.nSessions c w' r := by
  rw [Server.mediaClientStartPreview, hget] at hr
  simp only [Option.bind_eq_bind, Option.bind_some] at hr
  generalize hinit : ((w.initMediaSession key).addSmtsClient w.nSessions c).initSmtsDvrClient
    w.nSessions = init at hr
  obtain ⟨w₁, r₁⟩ := init
  dsimp only at hr
  -- each of the three calls may fail, and the first that does ends the start
  split at hr
  next hne =>
    obtain ⟨rfl, rfl⟩ := Prod.mk.inj (Option.some.inj hr)
    exact .initFails hinit hne
  next hz =>
    obtain rfl := not_not.mp hz
    obtain ⟨⟨m, r₂⟩, hadd, hr⟩ := Option.bind_eq_some_iff.mp hr
    dsimp only at hr
    split at hr
    next hne =>
      obtain ⟨rfl, rfl⟩ := Prod.mk.inj (Option.some.inj hr)
      exact .addFails hinit hadd hne
    next hz =>
      obtain rfl := not_not.mp hz
      generalize hconn : ({ w₁ with manager := m } : Server).tcpClientConnect w.nSessions = conn
        at hr
      obtain ⟨w₂, r₂⟩ := conn
      dsimp only at hr
      split at hr
      next hne =>
        obtain ⟨w₃, hdel, hr⟩ := Option.bind_eq_some_iff.mp hr
        obtain ⟨rfl, rfl⟩ := Prod.mk.inj (Option.some.inj hr)
        exact .connectFails hinit hadd hconn hne hdel
      next hz =>
        obtain ⟨rfl, rfl⟩ := Prod.mk.inj (Option.some.inj hr)
        obtain rfl := not_not.mp hz
        exact .connects hinit hadd hconn

/-- When there is a session with the key, the client joins it and is answered. -/
theorem mediaClientStartPreview_found {c s : Nat} {key : SessionKey} {r : Int}
    (hget : w.manager.getSession w.keyOf fuel key = some (some s))
    (hr : w.mediaClientStartPreview fuel c key = some (w', r)) :
    r = 0 ∧ (w.addSmtsClient s c).smtsClientSendPreviewRes c smtsOk = some w' := by
  rw [Server.mediaClientStartPreview, hget] at hr
  simp only [Option.bind_eq_bind, Option.bind_some] at hr
  obtain ⟨w₁, hres, hr⟩ := Option.bind_eq_some_iff.mp hr
  obtain ⟨rfl, rfl⟩ := Prod.mk.inj (Option.some.inj hr)
  exact ⟨rfl, hres⟩

theorem Does.starts {s c : Nat} {r : Int} (hS : S.join = some c) (h : Does S w₀ w)
    (hstart : Starts fuel w s c w' r) : Does S w₀ w' := by
  have hjoin : S.join ≠ none := by simp [hS]
  cases hstart with
  | initFails hinit _ => exact (h.initSmtsDvrClient hjoin hinit).step (.abort hS s)
  | addFails hinit _ _ =>
      exact ((h.initSmtsDvrClient hjoin hinit).step (.manage hjoin _)).step (.abort hS s)
  | @connectFails _ _ _ m _ hinit _ hconn _ hdel =>
      have h₁ := (h.initSmtsDvrClient hjoin hinit).step (.manage hjoin m)
      exact ((h₁.tcpClientConnect hjoin hconn).step (.delete hdel)).step (.abort hS s)
  | connects hinit _ hconn =>
      exact ((h.initSmtsDvrClient hjoin hinit).step (.manage hjoin _)).tcpClientConnect hjoin hconn

theorem Does.mediaClientStartPreview {c : Nat} {key : SessionKey} {r : Int}
    (hS : S.join = some c) (hv : S.Reaches c) (h : Does S w₀ w)
    (hr : w.mediaClientStartPreview fuel c key = some (w', r)) : Does S w₀ w' := by
  have hjoin : S.join ≠ none := by simp [hS]
  obtain ⟨found, hget, -⟩ := Option.bind_eq_some_iff.mp hr
  cases found with
  | none =>
      have h₁ := (h.step (.initSession hjoin key)).step (.attach hS w.nSessions)
      exact h₁.starts hS (mediaClientStartPreview_new hget hr)
  | some s =>
      obtain ⟨-, hres⟩ := mediaClientStartPreview_found hget hr
      exact (h.step (.attach hS s)).smtsClientSendPreviewRes hv hres

/-- The end of `smts_start_preview`, when the preview could not be started. -/
theorem Does.errorPreviewRes {c : Nat} {r : Int} (hv : S.Reaches c) (h : Does S w₀ w)
    {w₁ : Server} (henc : w.encodeNew (w.previewRes r) = some w₁) :
    let send := w₁.tcpClientSendMsg (.client c) w.nCmds .errorPreviewRes
    Does S w₀ send.1 ∧ Does S w₀ (send.1.protoCmdDestroy w.nCmds) := by
  have h₁ : Does S w₀ w₁ :=
    h.encodeNew (show previewCmdRes ∈ payloadFreeTypes by decide) rfl henc
  have hp : S.Owns w₀ w₁ w.nCmds := .inr ⟨h.grows.nCmds, by rw [encodeNew_nCmds henc]; omega⟩
  have hcb : SendCb.errorPreviewRes ≠ .previewResSlient := by decide
  have h₂ := h₁.step (.send (t := .client c) hp hcb (by rintro s ⟨⟩) (by rintro d ⟨⟩; exact hv)
    (Prod.eta _).symm)
  refine ⟨h₂, h₂.step (.destroy (hp.mono ?_))⟩
  rw [tcpClientSendMsg_fst_nCmds]

/-- When the preview could not be started, a response is all that follows. -/
theorem smtsStartPreview_cases {c p : Nat} (hr : w.smtsStartPreview fuel c p = some w') :
    ∃ w₁ r, w.mediaClientStartPreview fuel c (playKey (w.cmds p)) = some (w₁, r) ∧
      ((r = 0 ∧ w' = w₁) ∨
        (r ≠ 0 ∧ ∃ w₂ w₃ r', w₁.encodeNew (w₁.previewRes r) = some w₂ ∧
          w₂.tcpClientSendMsg (.client c) w₁.nCmds .errorPreviewRes = (w₃, r') ∧
          (w' = w₃ ∨ w' = w₃.protoCmdDestroy w₁.nCmds))) := by
  obtain ⟨⟨w₁, r⟩, hstart, hr⟩ := Option.bind_eq_some_iff.mp hr
  refine ⟨w₁, r, hstart, ?_⟩
  dsimp only at hr
  split at hr
  next hne =>
    obtain ⟨w₂, henc, hr⟩ := Option.bind_eq_some_iff.mp hr
    refine .inr ⟨hne, w₂, _, _, henc, (Prod.eta _).symm, ?_⟩
    split at hr
    · exact .inr (Option.some.inj hr).symm
    · exact .inl (Option.some.inj hr).symm
  next hz => exact .inl ⟨not_not.mp hz, (Option.some.inj hr).symm⟩

theorem Does.smtsStartPreview {c p : Nat} (hS : S.join = some c) (hv : S.Reaches c)
    (h : Does S w₀ w) (hr : w.smtsStartPreview fuel c p = some w') : Does S w₀ w' := by
  obtain ⟨w₁, r, hstart, ⟨-, rfl⟩ | ⟨-, w₂, w₃, r', henc, hsend, hw'⟩⟩ := smtsStartPreview_cases hr
  · exact h.mediaClientStartPreview hS hv hstart
  · have h₁ := (h.mediaClientStartPreview hS hv hstart).errorPreviewRes hv henc
    rw [hsend] at h₁
    rcases hw' with rfl | rfl
    · exact h₁.1
    · exact h₁.2

/-! ## The transparent channel -/

theorem Does.mediaClientSendCmd {c p : Nat} (hp : S.Owns w₀ w p) (h : Does S w₀ w) :
    Does S w₀ (w.mediaClientSendCmd c p).1 := by
  rw [Server.mediaClientSendCmd]
  cases hs : (w.clients c).session with
  | none => exact h
  | some s =>
      have hcb : SendCb.sendCmdToDvr ≠ .previewResSlient := by decide
      have ht : ∀ t, Target.dvr s = .dvr t →
          S.dvr = some t ∨ ∃ c, ((w.protoCmdIncreaseRef p).clients c).session = some t := by
        rintro t ⟨⟩
        exact .inr ⟨c, hs⟩
      have hp₁ : S.Owns w₀ (w.protoCmdIncreaseRef p) p := hp.mono le_rfl
      have h₁ := (h.step (.increaseRef hp)).step (.send hp₁ hcb ht (by rintro d ⟨⟩)
        (Prod.eta _).symm)
      dsimp only
      split
      · refine h₁.step (.destroy (hp₁.mono ?_))
        rw [tcpClientSendMsg_fst_nCmds]
      · exact h₁

theorem Does.commonRes {c : Nat} {garbage : Values NvmpName} (hv : S.Reaches c) (h : Does S w₀ w)
    {w₁ : Server} (henc : w.encodeNew (Cmd.init commonRes garbage) = some w₁) :
    let send := w₁.tcpClientSendMsg (.client c) w.nCmds .commonRes
    Does S w₀ send.1 ∧ Does S w₀ (send.1.protoCmdDestroy w.nCmds) := by
  have h₁ : Does S w₀ w₁ :=
    h.encodeNew (show Smts.commonRes ∈ payloadFreeTypes by decide) rfl henc
  have hp : S.Owns w₀ w₁ w.nCmds := .inr ⟨h.grows.nCmds, by rw [encodeNew_nCmds henc]; omega⟩
  have hcb : SendCb.commonRes ≠ .previewResSlient := by decide
  have h₂ := h₁.step (.send (t := .client c) hp hcb (by rintro s ⟨⟩) (by rintro d ⟨⟩; exact hv)
    (Prod.eta _).symm)
  refine ⟨h₂, h₂.step (.destroy (hp.mono ?_))⟩
  rw [tcpClientSendMsg_fst_nCmds]

theorem Does.msgChannel {c p : Nat} (hp : S.Owns w₀ w p) (hv : S.Reaches c) (h : Does S w₀ w)
    (hr : w.msgChannel c p = some w') : Does S w₀ w' := by
  have h₁ := h.mediaClientSendCmd (c := c) hp
  rw [Server.msgChannel] at hr
  dsimp only at hr
  obtain ⟨w₂, henc, hr⟩ := Option.bind_eq_some_iff.mp hr
  have h₂ := h₁.commonRes hv henc
  split at hr
  · obtain rfl := Option.some.inj hr
    exact h₂.2
  · obtain rfl := Option.some.inj hr
    exact h₂.1

/-! ## The callbacks -/

theorem Does.clientOnConnection (hS : S.connection = true) (h : Does S w₀ w) :
    Does S w₀ w.clientOnConnection := by
  have h₁ := (h.step (.initClient hS)).step (.uvCall rfl)
  have h₂ := h₁.step (.uvCall rfl)
  rw [Server.clientOnConnection]
  dsimp only
  split
  · exact h₁.step (.close hS (by simp))
  split
  · exact h₂.step (.close hS (by simp))
  · exact h₂.step (.startRead hS _)

theorem dispatchDecode_spec {read : Reader} {base : Ptr} {len : BitVec 64}
    {garbage : Values NvmpName} {t : NvmpCmd} {imp : Option CmdImp}
    (h : dispatchDecode read base len garbage = some (some (t, imp))) :
    ∃ T, (T, imp) ∈ protocolMap ∧ decodeInt32 read 4 = some T.cmd ∧
      (Cmd.init T garbage).decode read base len = some t := by
  obtain ⟨cmd, hcmd, h⟩ := Option.bind_eq_some_iff.mp h
  cases hfind : protocolMap.find? fun e => e.1.cmd == cmd with
  | none => simp [hfind] at h
  | some e =>
      rw [hfind] at h
      obtain ⟨t', hdec, h⟩ := Option.bind_eq_some_iff.mp h
      obtain ⟨rfl, rfl⟩ := Prod.mk.inj (Option.some.inj (Option.some.inj h))
      have hec : e.1.cmd = cmd := by simpa using List.find?_some hfind
      exact ⟨e.1, List.mem_of_find?_eq_some hfind, by rw [hcmd, hec], hdec⟩

/-- A packet with a command of `PROTOCOL_MAP` is decoded: it is not taken for an
unknown one. -/
theorem dispatchDecode_known {read : Reader} {base : Ptr} {len : BitVec 64}
    {garbage : Values NvmpName} {cmd : BitVec 32} (hcmd : decodeInt32 read 4 = some cmd)
    (hknown : (protocolMap.find? fun e => e.1.cmd == cmd).isSome) :
    dispatchDecode read base len garbage ≠ some none := by
  obtain ⟨e, he⟩ := Option.isSome_iff_exists.mp hknown
  intro h
  rw [dispatchDecode, hcmd] at h
  simp only [Option.bind_eq_bind, Option.bind_some, he] at h
  obtain ⟨t, -, h⟩ := Option.bind_eq_some_iff.mp h
  cases h

/-- Only a preview request is given to `smts_start_preview`. -/
theorem smtsStartPreview_cmd : ∀ e ∈ protocolMap,
    e.2 = some .smtsStartPreview → e.1.cmd = previewCmdNo := by
  decide

theorem previewCmd_imp : ∀ e ∈ protocolMap,
    e.1.cmd = previewCmdNo → e.2 = some .smtsStartPreview := by
  decide

/-- What is decoded is destroyed when its handler returns. -/
theorem dispatchPacket_cases {c : Nat} {bytes : List Byte} {junk : Int → Byte}
    (hr : w.dispatchPacket fuel c bytes junk = some w') :
    let decoded := dispatchDecode (Reader.beyond bytes junk) (w.heap.receive bytes).2
      (BitVec.ofNat 64 bytes.length) (w.garbage w.nCmds)
    (decoded = some none ∧ w' = (w.setHeap (w.heap.receive bytes).1).emit
      (.free (.block (w.heap.receive bytes).2))) ∨
    ∃ t imp w₁, decoded = some (some (t, imp)) ∧
      ((w.setHeap (w.heap.receive bytes).1).addCmd t).callImp fuel c w.nCmds imp = some w₁ ∧
      w' = w₁.protoCmdDestroy w.nCmds := by
  obtain ⟨found, hdec, hr⟩ := Option.bind_eq_some_iff.mp hr
  cases found with
  | none => exact .inl ⟨hdec, (Option.some.inj hr).symm⟩
  | some p =>
      obtain ⟨w₁, himp, hr⟩ := Option.bind_eq_some_iff.mp hr
      exact .inr ⟨p.1, p.2, w₁, hdec, himp, (Option.some.inj hr).symm⟩

theorem Does.dispatchPacket {c : Nat} {bytes : List Byte} {junk : Int → Byte}
    (hS : S.join = (Event.packet c bytes junk).preview) (hv : S.reader = some c)
    (h : Does S w₀ w) (hr : w.dispatchPacket fuel c bytes junk = some w') : Does S w₀ w' := by
  obtain ⟨-, rfl⟩ | ⟨t, imp, w₂, hdec, himp, rfl⟩ := dispatchPacket_cases hr
  · exact h.step (.drop bytes)
  · obtain ⟨T, hT, hcmd, hdec⟩ := dispatchDecode_spec hdec
    have h₁ := h.step (.receive (b := bytes) hdec)
    have hpre : (Event.packet c bytes junk).preview
        = if T.cmd = previewCmdNo then some c else none := by
      simp only [Event.preview, hcmd, Option.some.injEq]
    cases imp with
    | none =>
        obtain rfl := Option.some.inj himp
        exact h₁.step (.destroy (.inr ⟨h.grows.nCmds, by simp⟩))
    | some imp =>
        cases imp with
        | smtsStartPreview =>
            have hno := smtsStartPreview_cmd _ hT rfl
            rw [if_pos hno] at hpre
            have hjoin := hS.trans hpre
            refine (h₁.smtsStartPreview hjoin (.inr (.inl hv)) himp).step (.destroy (.inr ?_))
            -- nothing is unallocated on the way
            let own : Scope := { join := some c }
            have hstart : Does own ((w.setHeap (w.heap.receive bytes).1).addCmd t)
              ((w.setHeap (w.heap.receive bytes).1).addCmd t) := .start
            have hg := hstart.smtsStartPreview rfl (.inl trivial) himp
            exact ⟨h.grows.nCmds, lt_of_lt_of_le (Nat.lt_succ_self _) hg.grows.nCmds⟩
        | mockDvrPreviewImpl => cases himp
        | msgChannel =>
            have hp : S.Owns w₀ ((w.setHeap (w.heap.receive bytes).1).addCmd t) w.nCmds :=
              .inr ⟨h.grows.nCmds, by simp⟩
            have himp : ((w.setHeap (w.heap.receive bytes).1).addCmd t).msgChannel c w.nCmds
                = some w₂ := himp
            refine (h₁.msgChannel hp (.inr (.inl hv)) himp).step (.destroy (hp.mono ?_))
            let own : Scope := { write := some ⟨0, .client 0, w.nCmds, .commonRes⟩ }
            have hown : own.Owns ((w.setHeap (w.heap.receive bytes).1).addCmd t)
                ((w.setHeap (w.heap.receive bytes).1).addCmd t) w.nCmds := .inl ⟨_, rfl, rfl⟩
            have hg := Does.start.msgChannel hown (.inl trivial) himp
            exact hg.grows.nCmds

theorem Event.preview_packet {c d : Nat} {bytes : List Byte} {junk : Int → Byte}
    (h : (Event.packet c bytes junk).preview = some d) :
    decodeInt32 (Reader.beyond bytes junk) 4 = some previewCmdNo := by
  rw [Event.preview] at h
  split at h
  next hno => exact hno
  next => cases h

/-- A preview request goes to `smts_start_preview`. -/
theorem dispatchPacket_preview {c : Nat} {bytes : List Byte} {junk : Int → Byte}
    (hprev : (Event.packet c bytes junk).preview = some c)
    (hr : w.dispatchPacket fuel c bytes junk = some w') :
    ∃ t w₁, ((w.setHeap (w.heap.receive bytes).1).addCmd t).smtsStartPreview fuel c w.nCmds
        = some w₁ ∧ w' = w₁.protoCmdDestroy w.nCmds := by
  have hno := Event.preview_packet hprev
  obtain ⟨hdec, -⟩ | ⟨t, imp, w₁, hdec, himp, rfl⟩ := dispatchPacket_cases hr
  · exact absurd hdec (dispatchDecode_known hno (by decide))
  · obtain ⟨T, hT, hcmd, -⟩ := dispatchDecode_spec hdec
    obtain rfl : imp = some .smtsStartPreview :=
      previewCmd_imp _ hT (Option.some.inj (hcmd.symm.trans hno))
    exact ⟨t, w₁, himp, rfl⟩

theorem Event.preview_eq_some {e : Event} {c : Nat} (h : e.preview = some c) :
    ∃ bytes junk, e = .packet c bytes junk := by
  cases e with
  | packet d bytes junk =>
      rw [Event.preview] at h
      split at h
      · obtain rfl := Option.some.inj h
        exact ⟨bytes, junk, rfl⟩
      · cases h
  | _ => cases h

/-- A frame is made of the packet, which stays for it. -/
theorem onDvrClientReadFrameCb_cases {s : Nat} {bytes : List Byte} {junk : Int → Byte}
    (hr : w.onDvrClientReadFrameCb fuel s bytes junk = some w') :
    ∃ t, dvrDecode (Reader.beyond bytes junk) ⟨w.heap.blocks.length, 0⟩
        (BitVec.ofNat 64 bytes.length) (w.garbage w.nCmds) = some t ∧
      let w₁ := ((w.setHeap (w.heap.receive bytes).1).addCmd t).addFrame (smtsFrameOf w.nCmds t)
      ((w₁.protoCmdIncreaseRef w.nCmds).protoCmdDestroy w.nCmds).onSmtsDvrClientRecvFrame fuel s
        (some w.nFrames) 0 = some w' :=
  Option.bind_eq_some_iff.mp hr

theorem Does.onDvrClientReadFrameCb {s : Nat} {bytes : List Byte} {junk : Int → Byte}
    (hS : S.relay = true) (hloop : S.Loops w₀ s) (h : Does S w₀ w)
    (hr : w.onDvrClientReadFrameCb fuel s bytes junk = some w') : Does S w₀ w' := by
  obtain ⟨t, hdec, hr⟩ := onDvrClientReadFrameCb_cases hr
  let w₁ := ((w.setHeap (w.heap.receive bytes).1).addCmd t).addFrame (smtsFrameOf w.nCmds t)
  have hp : S.Owns w₀ w₁ w.nCmds := .inr ⟨h.grows.nCmds, Nat.lt_succ_self _⟩
  have h₁ : Does S w₀ w₁ := (h.step (.receive (b := bytes) (T := mockDvrFrame) hdec)).step
    (.addFrame (x := smtsFrameOf w.nCmds t) h.grows.nCmds (Nat.lt_succ_self _))
  have hinc : Action S w₀ w₁ (w₁.protoCmdIncreaseRef w.nCmds) := .increaseRef hp
  have h₂ := (h₁.step hinc).step (.destroy (hp.mono hinc.grows.nCmds))
  refine h₂.onSmtsDvrClientRecvFrame hS hloop h.grows.nFrames (by simp [w₁]) (fun p hbase => ?_) hr
  obtain ⟨t', hdec', hu⟩ := dvrDecode_beyond bytes junk ⟨w.heap.blocks.length, 0⟩
    (BitVec.ofNat 64 bytes.length) (w.garbage w.nCmds)
  obtain rfl := Option.some.inj (hdec.symm.trans hdec')
  have hframe : ((w₁.protoCmdIncreaseRef w.nCmds).protoCmdDestroy w.nCmds).frames w.nFrames
      = smtsFrameOf w.nCmds t := Function.update_self ..
  rw [hframe, smtsFrameOf, hu] at hbase
  obtain rfl := Option.some.inj hbase
  exact ⟨h.grows.blocks, by simp [w₁, Heap.receive]⟩

theorem Does.onDvrClientReadError {s : Nat} (hS : S.dvr = some s) (hloop : S.Loops w₀ s)
    (h : Does S w₀ w) (hr : w.onDvrClientReadError fuel s = some w') : Does S w₀ w' := by
  rw [Server.onDvrClientReadError] at hr
  refine Does.recvError (by decide) hS hloop (h.step ?_) hr
  exact .touch ⟨.inl hS, rfl, rfl, id, .inr ⟨rfl, rfl, rfl⟩, .inl hS, .inr (.inr rfl)⟩

theorem Does.tcpClientSendMsgCb {k : Nat} {status : Int}
    (hS : S.write = w.writes[k]?)
    (hreq : S.request = w.writes[k]?.map fun req => .writeReq req.id)
    (hdvr : S.dvr = w.writes[k]?.bind fun req => req.client.dvr?)
    (hloop : ∀ s, S.dvr = some s → S.Loops w₀ s) (h : Does S w₀ w)
    (hr : w.tcpClientSendMsgCb fuel k status = some w') : Does S w₀ w' := by
  obtain ⟨req, hk, hr⟩ := Option.bind_eq_some_iff.mp hr
  obtain ⟨w₁, hcb, hr⟩ := Option.bind_eq_some_iff.mp hr
  obtain rfl := Option.some.inj hr
  refine Does.step (w := w₁) ?_ (.emit rfl rfl (by rintro t ⟨⟩) (by rintro x ⟨⟩; rw [hreq, hk]; rfl))
  rw [hk] at hS hdvr
  have hp : ∀ w₁ : Server, S.Owns w₀ w₁ req.packet := fun _ => .inl ⟨req, hS, rfl⟩
  obtain ⟨id, target, p, cb⟩ := req
  -- all callbacks but one begin with the completed write and its packet
  have hdone : cb ≠ .previewResSlient → Does S w₀ ((w.eraseWrite k).protoCmdDestroy p) :=
    fun hne => (h.step (.complete hk hS hne)).step (.destroy (hp _))
  cases cb with
  | previewResSlient =>
      cases target with
      | client c =>
          obtain rfl := Option.some.inj hcb
          exact h.step (.previewResDone hk hS rfl rfl)
      | dvr s => cases hcb
  | errorPreviewRes =>
      cases target with
      | client c =>
          obtain rfl := Option.some.inj hcb
          exact (hdone (by decide)).step (.stop (.inr (.inr ⟨_, hS, rfl⟩)))
      | dvr s => cases hcb
  | sendFrame =>
      cases target with
      | client c =>
          obtain ⟨w₂, hdrop, hcb⟩ := Option.bind_eq_some_iff.mp hcb
          have h₂ := (h.step (.complete hk hS (by simp))).step (.dropRef (hp _) hdrop)
          split at hcb
          · obtain rfl := Option.some.inj hcb
            exact h₂.step (.stop (.inr (.inr ⟨_, hS, rfl⟩)))
          · obtain rfl := Option.some.inj hcb
            exact h₂
      | dvr s => cases hcb
  | commonRes =>
      cases target with
      | client c =>
          obtain rfl := Option.some.inj hcb
          exact hdone (by decide)
      | dvr s => cases hcb
  | dvrPreview =>
      cases target with
      | client c => cases hcb
      | dvr s => exact (hdone (by decide)).onSmtsDvrClientSendPreview hdvr (hloop s hdvr) hcb
  | sendCmdToDvr =>
      cases target with
      | client c => cases hcb
      | dvr s =>
          obtain rfl := Option.some.inj hcb
          exact hdone (by decide)

theorem Does.onTcpClientConnectCb {s : Nat} {status : Int} (hS : S.dvr = some s)
    (hreq : S.request = some (.connectReq s)) (hloop : S.Loops w₀ s) (h : Does S w₀ w)
    (hr : w.onTcpClientConnectCb fuel s status = some w') : Does S w₀ w' := by
  obtain ⟨w₁, hconn, hr⟩ := Option.bind_eq_some_iff.mp hr
  obtain rfl := Option.some.inj hr
  refine Does.step (Does.onConnectedToDvr hS hloop (h.step ?_) hconn)
    (.emit rfl rfl (by rintro t ⟨⟩) (by rintro x ⟨⟩; exact hreq))
  exact .touch ⟨.inl hS, rfl, rfl, id, .inr ⟨rfl, rfl, rfl⟩, .inl hS, .inl hreq⟩

theorem Does.onDvrClientCloseCb {s : Nat} (hS : S.exit = some s) (h : Does S w₀ w) :
    Does S w₀ (w.onDvrClientCloseCb s) := by
  have h₁ : Does S w₀ (w.emit (.uvClosed (.dvr s))) :=
    h.step (.emit rfl rfl (by rintro t ⟨⟩; exact .inr hS) (by rintro x ⟨⟩))
  refine Does.step (h₁.step ?_) (.emit rfl rfl (by rintro t ⟨⟩; exact .inr hS) (by rintro x ⟨⟩))
  exact .touch ⟨.inr (.inl hS), rfl, rfl, fun _ => rfl, .inl hS, .inr (.inr ⟨id, id⟩), .inr (.inr rfl)⟩

end Handlers

/-- **Every callback is a sequence of actions** in its scope, if `R` are
clients its loops stay within. -/
theorem handle_does {w w' : Server} {fuel : Nat} {e : Event} (R : Nat → Prop)
    (hloop : ∀ s, (w.scope e).dvr = some s → { w.scope e with reach := R }.Loops w s)
    (hen : w.Enabled e) (h : w.handle fuel e = some w') :
    Does { w.scope e with reach := R } w w' := by
  cases e with
  | connection =>
      obtain rfl := Option.some.inj h
      exact Does.start.clientOnConnection rfl
  | packet c bytes junk => exact Does.start.dispatchPacket rfl rfl h
  | readError c status =>
      obtain rfl := Option.some.inj h
      exact Does.start.step (.stop (.inr (.inl rfl)))
  | dvrConnected s status => exact Does.start.onTcpClientConnectCb rfl rfl (hloop s rfl) h
  | dvrPacket s bytes junk => exact Does.start.onDvrClientReadFrameCb rfl (hloop s rfl) h
  | dvrReadError s status => exact Does.start.onDvrClientReadError rfl (hloop s rfl) h
  | writeDone k status => exact Does.start.tcpClientSendMsgCb rfl rfl rfl hloop h
  | timer s => exact Does.start.sessionExitCb rfl h
  | clientClosed c =>
      obtain rfl := Option.some.inj h
      exact Does.start.step (.closed hen.1)
  | dvrClosed s =>
      obtain rfl := Option.some.inj h
      exact Does.start.onDvrClientCloseCb rfl

/-- `handle_does` without the invariant of the rings: the callback may reach any
client. -/
theorem handle_does_any {w w' : Server} {fuel : Nat} {e : Event} (hen : w.Enabled e)
    (h : w.handle fuel e = some w') : Does { w.scope e with reach := fun _ => True } w w' :=
  handle_does _ (fun s _ => Scope.loops_of_forall (fun _ => trivial) w s) hen h

/-- The client a callback's preview request is from. -/
theorem scope_join (w : Server) (e : Event) : (w.scope e).join = e.preview := by
  cases e <;> rfl

end Server

end Smts
