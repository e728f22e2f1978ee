import Smts.Server.Wire

/-!
# Server — what a DVR hears

A session's DVR is sent the preview command, which its one connect can cause
once, and the commands of clients: each at most once, in the order in which
they came, and as they came.
-/

namespace Smts

open Circular

/-! ## Commands -/

/-- The packet, if it is one that `msg_channel` handles. -/
def Event.command? : Event → Option (List Byte)
  | .packet _ bytes junk =>
      if decodeInt32 (Reader.beyond bytes junk) 4 = some testPTZCmd.cmd then some bytes else none
  | _ => none

/-- The commands that clients have sent for their DVRs, in the order in which
they were read. -/
def commands (es : List Event) : List (List Byte) := es.filterMap Event.command?

/-- The bytes of what was queued, if it is a command that is passed on. -/
def commandIn (x : SendCb × List Byte) : Option (List Byte) :=
  if x.1 = .sendCmdToDvr then some x.2 else none

/-- The commands that were queued for the DVR of `s`. -/
def commandsTo (s : Nat) (log : List Obs) : List (List Byte) :=
  (hears (.dvr s) log).filterMap commandIn

/-- How often the preview command was queued for it. -/
def previewsTo (s : Nat) (log : List Obs) : Nat :=
  (hears (.dvr s) log).countP fun x => x.1 = .dvrPreview

section Logs

variable {s : Nat} {l m : List Obs}

@[simp]
theorem commands_append (es es' : List Event) : commands (es ++ es') = commands es ++ commands es' :=
  List.filterMap_append

@[simp]
theorem commandsTo_append (s : Nat) (l m : List Obs) :
    commandsTo s (l ++ m) = commandsTo s l ++ commandsTo s m := by
  rw [commandsTo, hears_append, List.filterMap_append]
  rfl

@[simp]
theorem previewsTo_append (s : Nat) (l m : List Obs) :
    previewsTo s (l ++ m) = previewsTo s l + previewsTo s m := by
  rw [previewsTo, hears_append, List.countP_append]
  rfl

/-- Only what is written to a DVR matters for it. -/
theorem hears_filter_toDvr (s : Nat) (m : List Obs) : hears (.dvr s) (m.filter Obs.toDvr) = hears (.dvr s) m := by
  rw [hears, hears, List.filterMap_filter]
  refine List.filterMap_congr fun o ho => ?_
  split
  next => rfl
  next hno =>
    cases htaken : o.taken (.dvr s) with
    | none => rfl
    | some x =>
        obtain ⟨p, rfl⟩ := Obs.taken_eq_some htaken
        exact absurd rfl hno

theorem hears_eq_nil_of_toDvr (h : m.filter Obs.toDvr = []) (s : Nat) : hears (.dvr s) m = [] := by
  rw [← hears_filter_toDvr, h]
  rfl

end Logs

namespace Server

variable {K : Target → SendCb → List Byte → Prop} {w w' v : Server} {fuel s c p : Nat} {r status : Int}
  {bytes : List Byte} {junk : Int → Byte} {e : Event} {es : List Event} {uv : Nat → Int}
  {garbage : Nat → Values NvmpName}

/-- If all that a callback wrote is as `K` says, then so is what anybody hears
of it. -/
theorem Writes.hears_forall (h : Writes K w w') : ∃ m, w'.log = w.log ++ m ∧
    ∀ t, ∀ x ∈ hears t m, K t x.1 x.2 := by
  obtain ⟨m, hm, hmo⟩ := h
  refine ⟨m, hm, fun t x hx => ?_⟩
  obtain ⟨o, ho, htaken⟩ := List.mem_filterMap.mp hx
  obtain ⟨q, rfl⟩ := Obs.taken_eq_some htaken
  obtain ⟨b, hb, hK⟩ := (hmo _ ho).1 _ _ _ _ _ rfl
  obtain rfl := Option.some.inj hb
  exact hK

/-! ## One callback -/

/-- A frame is not written to a DVR. -/
theorem onDvrClientReadFrameCb_toDvr (hr : w.onDvrClientReadFrameCb fuel s bytes junk = some w') :
    ∃ m, w'.log = w.log ++ m ∧ m.filter Obs.toDvr = [] := by
  have htrans : ∀ {a b d : Server}, (∃ m, b.log = a.log ++ m ∧ m.filter Obs.toDvr = []) →
      (∃ m, d.log = b.log ++ m ∧ m.filter Obs.toDvr = []) →
      ∃ m, d.log = a.log ++ m ∧ m.filter Obs.toDvr = [] := fun h h' => by
    obtain ⟨l, hl, hlo⟩ := h
    obtain ⟨m, hm, hmo⟩ := h'
    exact ⟨l ++ m, by rw [hm, hl, List.append_assoc], by rw [List.filter_append, hlo, hmo]; rfl⟩
  obtain ⟨t, -, hrecv⟩ := onDvrClientReadFrameCb_eq w s bytes junk
  rw [hrecv] at hr
  obtain ⟨-, u, henc, hloop⟩ | ⟨-, rfl⟩ := onSmtsDvrClientRecvFrame_cases hr
  · have hlog : u.log = w.log ++ [.recvFrame s w.nFrames] := encodeNew_log henc
    refine Links.forEach_within (P := fun _ => True)
      (I := fun x => ∃ m, x.log = w.log ++ m ∧ m.filter Obs.toDvr = []) (fun _ _ => ⟨?_, ?_⟩)
      (fun q a b _ ha hb => ?_) trivial ⟨_, hlog, rfl⟩ hloop
    · simp
    · simp
    · cases q with
      | head t => cases hb
      | client c =>
          obtain ⟨m, hm, -, hmo⟩ := (Sends.smtsClientSendFrame hb).log
          refine htrans ha ⟨m, hm, List.filter_eq_nil_iff.mpr fun o ho hto => ?_⟩
          cases o with
          | uvWrite t q cb b r =>
              obtain ⟨d, r', heq⟩ := hmo _ ho rfl
              rw [heq] at hto
              cases hto
          | _ => cases hto
  · have hrecv : ∃ m, ((w.arrived bytes t).emit (.recvFrame s w.nFrames)).log = w.log ++ m ∧
        m.filter Obs.toDvr = [] := ⟨_, rfl, rfl⟩
    exact htrans (htrans hrecv (protoCmdDestroy_toDvr ..)) ⟨_, rfl, rfl⟩

/-- A command is written once to the DVR of the client's session, if it has one. -/
theorem dispatchPacket_commands (hmax : bytes.length ≤ maxPacketLen)
    (hprev : (Event.packet c bytes junk).preview = none)
    (hr : w.dispatchPacket fuel c bytes junk = some w') :
    ∃ m, w'.log = w.log ++ m ∧
      ∀ s, (commandsTo s m).Sublist (commands [.packet c bytes junk]) := by
  have hnone : (∃ m, w'.log = w.log ++ m ∧ ∀ s, hears (.dvr s) m = []) →
      ∃ m, w'.log = w.log ++ m ∧ ∀ s, (commandsTo s m).Sublist (commands [.packet c bytes junk]) := by
    rintro ⟨m, hm, hmo⟩
    refine ⟨m, hm, fun s => ?_⟩
    rw [commandsTo, hmo]
    exact List.nil_sublist _
  -- a client that is in no session has no DVR to write to
  cases hs : (w.clients c).session with
  | none =>
      have hw := dispatchPacket_wire (K := fun t _ _ => ∀ s, t ≠ .dvr s) hmax hprev (by simp)
        (fun _ s hc => by rw [hs] at hc; cases hc) hr
      obtain ⟨m, hm, hmo⟩ := hw.hears_forall
      exact hnone ⟨m, hm, fun s => List.eq_nil_iff_forall_not_mem.mpr fun x hx => hmo _ x hx s rfl⟩
  | some t =>
      obtain ⟨-, rfl⟩ | ⟨d, imp, v, hdec, himp, rfl⟩ := dispatchPacket_cases hr
      · exact hnone ⟨[.free (.block (w.heap.receive bytes).2)], rfl, fun _ => rfl⟩
      · obtain ⟨T, hT, hno, hdecode⟩ := dispatchDecode_spec hdec
        obtain ⟨m', hm', hmo'⟩ := protoCmdDestroy_toDvr v w.nCmds
        cases imp with
        | none =>
            obtain rfl := Option.some.inj himp
            exact hnone ⟨m', hm', hears_eq_nil_of_toDvr hmo'⟩
        | some imp =>
            cases imp with
            | smtsStartPreview =>
                rw [Event.preview, hno, smtsStartPreview_cmd _ hT rfl, if_pos rfl] at hprev
                cases hprev
            | mockDvrPreviewImpl => cases himp
            | msgChannel =>
                let u := (w.setHeap (w.heap.receive bytes).1).addCmd d
                have himp : u.msgChannel c w.nCmds = some v := himp
                obtain ⟨m, hm, hmo, -⟩ := msgChannel_toDvr (w := u) hs himp
                -- the packet that was received has the bytes it was decoded from
                have hwire : (u.cmds w.nCmds).wire u.heap = some bytes := by
                  have hflat : d.wire (w.heap.receive bytes).1 = some bytes := by
                    refine decode_wire (b := w.heap.blocks.length) (by simp [Heap.receive]) ?_ hdecode
                    exact lt_of_le_of_lt hmax (by decide)
                  simpa only [u, addCmd_cmds, setHeap_nCmds, Function.update_self, addCmd_heap,
                    setHeap_heap] using hflat
                refine ⟨m ++ m', by rw [hm', hm, List.append_assoc]; rfl, fun s => ?_⟩
                rw [commandsTo, hears_append, hears_eq_nil_of_toDvr hmo', List.append_nil,
                  ← hears_filter_toDvr, hmo, hwire]
                have hptz := hno.trans (congrArg some (msgChannel_cmd _ hT rfl))
                have hone : commands [.packet c bytes junk] = [bytes] := by
                  simp only [commands, List.filterMap_cons, Event.command?, if_pos hptz, List.filterMap_nil]
                rw [hone]
                -- the command is one of those written to `s` if `s` is its session, and
                -- `uv_write` took it
                by_cases hst : t = s ∧ u.uv u.nUv = 0
                · simp [hears, Obs.taken, hst, commandIn]
                · simp [hears, Obs.taken, hst]

/-- Whatever is written to a DVR is one or the other. -/
theorem step_toDvr (hstep : Step w e w') : ∃ m, w'.log = w.log ++ m ∧ ∀ s,
    (commandsTo s m).Sublist (commands [e]) ∧
      ∀ x ∈ hears (.dvr s) m, x.1 = .sendCmdToDvr ∨ x = (.dvrPreview, dvrPreviewPacket) := by
  by_cases hrelay : (w.scope e).relay = true
  · cases e with
    | dvrPacket t bytes junk =>
        obtain ⟨-, fuel, hr⟩ := hstep
        obtain ⟨m, hm, hmo⟩ := onDvrClientReadFrameCb_toDvr hr
        refine ⟨m, hm, fun s => ?_⟩
        rw [commandsTo, hears_eq_nil_of_toDvr hmo]
        exact ⟨List.nil_sublist _, by simp⟩
    | _ => cases hrelay
  · obtain ⟨m, hm, hmo⟩ := (step_writes (Bool.eq_false_iff.mpr hrelay) hstep).hears_forall
    have hkind : ∀ s, ∀ x ∈ hears (.dvr s) m,
        x.1 = .sendCmdToDvr ∨ x = (.dvrPreview, dvrPreviewPacket) := fun s x hx => by
      have hsays := hmo _ x hx
      obtain ⟨cb, b⟩ := x
      cases e with
      | packet c bytes junk =>
          rcases hsays with ⟨ht, -⟩ | ⟨ht, -⟩ | ⟨t, -, hcb, -⟩
          · cases ht
          · cases ht
          · exact .inl hcb
      | dvrConnected t status =>
          rcases hsays with ⟨c, r, ht, -⟩ | ⟨-, rfl, rfl⟩
          · cases ht
          · exact .inr rfl
      | dvrPacket t bytes junk => exact absurd rfl hrelay
      | _ =>
          obtain ⟨c, r, ht, -⟩ := hsays
          cases ht
    have hnone : (∀ cb, cb = .sendCmdToDvr → ∀ s b, ¬ Says e (.dvr s) cb b) →
        ∀ s, (commandsTo s m).Sublist (commands [e]) := fun hno s => by
      have hnil : commandsTo s m = [] := List.filterMap_eq_nil_iff.mpr fun x hx =>
        if_neg fun hcb => hno x.1 hcb s x.2 (hmo _ x hx)
      rw [hnil]
      exact List.nil_sublist _
    cases e with
    | packet c bytes junk =>
        cases hprev : (Event.packet c bytes junk).preview with
        | none =>
            obtain ⟨⟨-, -, -, -, hmax, -⟩, fuel, hr⟩ := hstep
            obtain ⟨m', hm', hmo'⟩ := dispatchPacket_commands hmax hprev hr
            obtain rfl := List.append_cancel_left (hm.symm.trans hm')
            exact ⟨m, hm, fun s => ⟨hmo' s, hkind s⟩⟩
        | some d =>
            -- the same packet is not a command
            refine ⟨m, hm, fun s => ⟨hnone ?_ s, hkind s⟩⟩
            rintro cb rfl t b (⟨ht, -⟩ | ⟨ht, -⟩ | ⟨t', -, -, -, hptz⟩)
            · cases ht
            · cases ht
            · rw [Event.preview, hptz, if_neg (by decide)] at hprev
              cases hprev
    | dvrConnected t status =>
        refine ⟨m, hm, fun s => ⟨hnone ?_ s, hkind s⟩⟩
        rintro cb rfl u b (⟨c, r, ht, -⟩ | ⟨-, hcb, -⟩)
        · cases ht
        · cases hcb
    | dvrPacket t bytes junk => exact absurd rfl hrelay
    | _ =>
        refine ⟨m, hm, fun s => ⟨hnone ?_ s, hkind s⟩⟩
        rintro cb rfl u b ⟨c, r, ht, -⟩
        cases ht

/-- What is written to a DVR has bytes that are defined, whatever a frame was. -/
theorem step_toDvr_written (hstep : Step w e w') {b : Option (List Byte)} {cb : SendCb}
    (ho : .uvWrite (.dvr s) p cb b r ∈ w'.log) :
    .uvWrite (.dvr s) p cb b r ∈ w.log ∨ ∃ bytes, b = some bytes := by
  by_cases hrelay : (w.scope e).relay = true
  · cases e with
    | dvrPacket t bytes junk =>
        obtain ⟨-, fuel, hr⟩ := hstep
        obtain ⟨m, hm, hmo⟩ := onDvrClientReadFrameCb_toDvr hr
        rw [hm] at ho
        refine .inl ((List.mem_append.mp ho).resolve_right fun ho => ?_)
        exact List.filter_eq_nil_iff.mp hmo _ ho rfl
    | _ => cases hrelay
  · obtain ⟨m, hm, hmo⟩ := step_writes (Bool.eq_false_iff.mpr hrelay) hstep
    rw [hm] at ho
    refine (List.mem_append.mp ho).imp_right fun ho => ?_
    obtain ⟨bytes, hb, -⟩ := (hmo _ ho).1 _ _ _ _ _ rfl
    exact ⟨bytes, hb⟩

/-! ## The preview command -/

theorem Writes.previewsTo_eq (h : Writes K w w') (hK : ∀ t b, ¬ K t .dvrPreview b) (s : Nat) :
    previewsTo s w'.log = previewsTo s w.log := by
  obtain ⟨m, hm, hmo⟩ := h.hears_forall
  have hzero : previewsTo s m = 0 := List.countP_eq_zero.mpr fun x hx hcb => by
    have hcb : x.1 = .dvrPreview := by simpa using hcb
    exact hK _ x.2 (hcb ▸ hmo _ x hx)
  rw [hm, previewsTo_append, hzero, Nat.add_zero]

/-- At most one preview command is sent, to the session's own DVR. -/
theorem smtsDvrClientPreview_previews (hr : w.smtsDvrClientPreview fuel s = some (w', r)) (t : Nat) :
    previewsTo t w'.log ≤ previewsTo t w.log + if t = s then 1 else 0 := by
  obtain ⟨w₁, w₂, henc, hsend, hcase⟩ := smtsDvrClientPreview_cases hr
  have hone : previewsTo t w₂.log ≤ previewsTo t w.log + if t = s then 1 else 0 := by
    rw [tcpClientSendMsg_log hsend, encodeNew_log henc, previewsTo_append]
    refine Nat.add_le_add_left ?_ _
    by_cases hts : t = s
    · rw [if_pos hts]
      exact (List.countP_le_length ..).trans (List.length_filterMap_le ..)
    · have hnil : hears (.dvr t) [.uvWrite (.dvr s) w.nCmds .dvrPreview
          ((w₁.cmds w.nCmds).wire w₁.heap) r] = [] := by
        simp [hears, Obs.taken, Ne.symm hts]
      rw [if_neg hts, previewsTo, hnil]
      rfl
  obtain ⟨-, rfl⟩ | ⟨-, hres⟩ := hcase
  · exact hone
  · have hw := onSmtsDvrClientSendPreview_wire (K := fun _ cb _ => cb ≠ .dvrPreview)
      (fun _ _ => by simp) hres
    rw [hw.previewsTo_eq (by simp)]
    exact hone

theorem onTcpClientConnectCb_previews (hr : w.onTcpClientConnectCb fuel s status = some w') (t : Nat) :
    previewsTo t w'.log ≤ previewsTo t w.log + if t = s then 1 else 0 := by
  obtain ⟨v, hconn, hr⟩ := Option.bind_eq_some_iff.mp hr
  obtain rfl := Option.some.inj hr
  have hemit : Writes (fun _ _ _ => False) v (v.emit (.free (.connectReq s))) := .emit v rfl (by simp)
  rw [hemit.previewsTo_eq (by simp)]
  have hconn : (w.connectDone s).onConnectedToDvr fuel s status = some v := hconn
  have htear : ∀ {u u' : Server} {r : Int}, (u.setExitCode s r).stopMediaSession fuel s = some u' →
      previewsTo t u'.log = previewsTo t u.log := fun h =>
    (tearDown_wire (K := fun _ cb _ => cb ≠ .dvrPreview) (fun _ _ => by simp) h).previewsTo_eq
      (by simp) t
  have hsame : previewsTo t (w.connectDone s).log = previewsTo t w.log := rfl
  rw [onConnectedToDvr] at hconn
  split at hconn
  · rw [htear hconn, hsame]
    exact Nat.le_add_right ..
  · obtain ⟨⟨u, r⟩, hprev, hconn⟩ := Option.bind_eq_some_iff.mp hconn
    have hone := smtsDvrClientPreview_previews hprev t
    dsimp only at hconn
    split at hconn
    · rw [htear hconn]
      exact hone
    · obtain rfl := Option.some.inj hconn
      exact hone

/-- The request of a connect is freed by its callback. -/
theorem connectReq_step (hstep : Step w e w') (hs : ∀ status, e ≠ .dvrConnected s status) :
    w'.log.count (.free (.connectReq s)) = w.log.count (.free (.connectReq s)) := by
  obtain ⟨hen, fuel, hr⟩ := hstep
  have hd := handle_does_any hen hr
  have hzero : ∀ {m : List Obs}, (∀ o ∈ m, o.request? = none) → m.count (.free (.connectReq s)) = 0 :=
    fun hm => List.count_eq_zero.mpr fun hmem => by cases hm _ hmem
  cases e with
  | dvrConnected t status =>
      obtain ⟨w₁, hbody, rfl⟩ := onTcpClientConnectCb_asks hr
      obtain ⟨m, hm, hmo⟩ := hbody.request rfl rfl
      have hts : t ≠ s := fun heq => hs status (by rw [heq])
      rw [emit_log, hm, List.count_append, List.count_append, hzero hmo]
      simp [hts]
  | writeDone k status =>
      obtain ⟨req, v, w₁, S, -, hu, -, -, ⟨-, hwrite, hrequest⟩, hbody, rfl⟩ := tcpClientSendMsgCb_asks hr
      obtain ⟨m, hm, hmo⟩ := hu.log
      obtain ⟨m', hm', hmo'⟩ := hbody.request hwrite hrequest
      rw [eraseWrite_log] at hm
      rw [emit_log, hm', hm, List.count_append, List.count_append, List.count_append,
        hzero fun o ho => (hmo o ho).2, hzero hmo']
      simp
  | _ =>
      obtain ⟨m, hm, hmo⟩ := hd.request rfl rfl
      rw [hm, List.count_append, hzero hmo, Nat.add_zero]

/-- The preview command is sent when the connect's request is freed. -/
theorem step_previews (hstep : Step w e w') (s : Nat) :
    previewsTo s w'.log + w.log.count (.free (.connectReq s))
      ≤ previewsTo s w.log + w'.log.count (.free (.connectReq s)) := by
  by_cases he : ∃ status, e = .dvrConnected s status
  · obtain ⟨status, rfl⟩ := he
    obtain ⟨-, fuel, hr⟩ := hstep
    have hone := onTcpClientConnectCb_previews hr s
    obtain ⟨w₁, hbody, rfl⟩ := onTcpClientConnectCb_asks hr
    obtain ⟨m, hm, -⟩ := hbody.request rfl rfl
    rw [if_pos rfl] at hone
    have hcount : w.log.count (.free (.connectReq s)) + 1
        ≤ (w₁.emit (.free (.connectReq s))).log.count (.free (.connectReq s)) := by
      rw [emit_log, hm, setSession_log, List.count_append, List.count_append, List.count_singleton_self]
      omega
    omega
  · have hcount := connectReq_step (s := s) hstep fun status heq => he ⟨status, heq⟩
    have hsame : previewsTo s w'.log ≤ previewsTo s w.log := by
      cases e with
      | dvrConnected t status =>
          obtain ⟨-, fuel, hr⟩ := hstep
          have hone := onTcpClientConnectCb_previews hr s
          rwa [if_neg fun heq => he ⟨status, by rw [heq]⟩] at hone
      | dvrPacket t bytes junk =>
          obtain ⟨-, fuel, hr⟩ := hstep
          obtain ⟨m, hm, hmo⟩ := onDvrClientReadFrameCb_toDvr hr
          rw [hm, previewsTo_append, previewsTo, previewsTo, hears_eq_nil_of_toDvr hmo]
          exact le_rfl
      | packet c bytes junk =>
          exact ((step_writes rfl hstep).previewsTo_eq (by simp [Says]) s).le
      | _ => exact ((step_writes rfl hstep).previewsTo_eq (by simp [Says]) s).le
    omega

/-! ## Whole runs -/

/-- The request of a session's connect is freed at most once in a run. -/
theorem connectReqs_of_run (h : Transition.Run Step (init uv garbage) es w) (s : Nat) :
    w.log.count (.free (.connectReq s)) ≤ 1 := by
  have hinv : Requests w ∧ ∀ s < w.nSessions, w.connectFrees s ≤ 1 := by
    refine h.invariant (I := fun w => Requests w ∧ ∀ s < w.nSessions, w.connectFrees s ≤ 1) ?_
      ⟨init_requests uv garbage, fun s hs => absurd hs (Nat.not_lt_zero s)⟩
    rintro w e w' ⟨hreq, hle⟩ hstep
    refine ⟨hreq.step hstep, fun s hs => ?_⟩
    by_cases hold : s < w.nSessions
    · exact (connectFrees_step hold hstep).trans_le (hle s hold)
    · have hcount := connectReq_step (s := s) hstep fun status heq => by
        subst heq
        exact hold hstep.1.1
      rw [connectFrees, hcount, hreq.fresh s (not_lt.mp hold)]
      split <;> omega
  by_cases hs : s < w.nSessions
  · exact (Nat.le_add_right ..).trans (hinv.2 s hs)
  · rw [hinv.1.fresh s (not_lt.mp hs)]
    exact Nat.zero_le 1

/-- **Commands reach a DVR as they came**: those queued for it are among those
that clients have sent, in the same order and none of them twice. -/
theorem commandsTo_of_run (h : Transition.Run Step (init uv garbage) es w) (s : Nat) :
    (commandsTo s w.log).Sublist (commands es) := by
  induction h with
  | refl => exact List.nil_sublist _
  | snoc hrun hstep ih =>
      obtain ⟨m, hm, hmo⟩ := step_toDvr hstep
      rw [hm, commandsTo_append, commands_append]
      exact ih.append (hmo s).1

theorem previewsTo_of_run (h : Transition.Run Step (init uv garbage) es w) (s : Nat) :
    previewsTo s w.log ≤ 1 := by
  have hpreviews : previewsTo s w.log ≤ w.log.count (.free (.connectReq s)) := by
    refine h.invariant (I := fun w => previewsTo s w.log ≤ w.log.count (.free (.connectReq s)))
      (fun v e v' hv hstep => ?_) le_rfl
    have hone := step_previews hstep s
    omega
  exact hpreviews.trans (connectReqs_of_run h s)

theorem toDvr_of_run (h : Transition.Run Step (init uv garbage) es w) (s : Nat) :
    ∀ x ∈ hears (.dvr s) w.log, x.1 = .sendCmdToDvr ∨ x = (.dvrPreview, dvrPreviewPacket) := by
  refine h.invariant (I := fun w => ∀ x ∈ hears (.dvr s) w.log,
    x.1 = .sendCmdToDvr ∨ x = (.dvrPreview, dvrPreviewPacket)) (fun v e v' hv hstep x hx => ?_)
    (fun x hx => absurd hx List.not_mem_nil)
  obtain ⟨m, hm, hmo⟩ := step_toDvr hstep
  rw [hm, hears_append] at hx
  exact (List.mem_append.mp hx).elim (hv x) ((hmo s).2 x)

/-- **What a DVR hears**, in every run: the preview command of its session, at
most once, and commands that clients have sent, no one twice, in the order in
which they came and byte for byte as they came. Nothing is written to it whose
bytes are not defined. -/
theorem dvr_hears_of_run (h : Transition.Run Step (init uv garbage) es w) (s : Nat) :
    (∀ x ∈ hears (.dvr s) w.log, x.1 = .sendCmdToDvr ∨ x = (.dvrPreview, dvrPreviewPacket)) ∧
      previewsTo s w.log ≤ 1 ∧ (commandsTo s w.log).Sublist (commands es) ∧
      ∀ p cb b r, .uvWrite (.dvr s) p cb b r ∈ w.log → ∃ bytes, b = some bytes := by
  refine ⟨toDvr_of_run h s, previewsTo_of_run h s, commandsTo_of_run h s, fun p cb b r => ?_⟩
  refine h.invariant (I := fun w => .uvWrite (.dvr s) p cb b r ∈ w.log → ∃ bytes, b = some bytes)
    (fun v e v' hv hstep ho => ?_) (fun ho => by cases ho)
  exact (step_toDvr_written hstep ho).elim hv id

/-- A client's command waits for the connect, as the preview command does. -/
theorem dvr_hears_of_run_zeroPTZCmd :
    ∃ w, Transition.Run Step (init (fun _ => 0) fun _ => Values.zero)
        [.connection, preview0, .packet 0 zeroPTZCmd fun _ => 0, .dvrConnected 0 0] w ∧
      hears (.dvr 0) w.log = [(.sendCmdToDvr, zeroPTZCmd), (.dvrPreview, dvrPreviewPacket)] ∧
      previewsTo 0 w.log ≤ 1 ∧ (commandsTo 0 w.log).Sublist [zeroPTZCmd] := by
  have hval : ((init (fun _ => 0) fun _ => Values.zero).follow 2
      [.connection, preview0, .packet 0 zeroPTZCmd fun _ => 0, .dvrConnected 0 0]).map (fun w =>
        hears (.dvr 0) w.log)
      = some [(.sendCmdToDvr, zeroPTZCmd), (.dvrPreview, dvrPreviewPacket)] := by
    decide +kernel
  obtain ⟨w, hw, hval⟩ := Option.map_eq_some_iff.mp hval
  obtain ⟨-, hpreviews, hcommands, -⟩ := dvr_hears_of_run (run_of_follow hw) 0
  exact ⟨w, run_of_follow hw, hval, hpreviews, hcommands⟩

end Server

end Smts
