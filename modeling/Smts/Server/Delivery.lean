import Smts.Server.Channel
import Smts.Server.Reuse
import Smts.Server.Stream

/-!
# Server — the frames a client gets, in whole runs

Where the clients stand is followed through every callback, and from there
through every run: each client gets a block of the frames its session
received.
-/

namespace Smts

namespace Server

/-! ## A preview request -/

section Preview

variable {A : Nat → Prop} {w w' : Server} {fuel c s p : Nat} {key : SessionKey} {r : Int}

/-- A client that was never in a session is in none now. -/
theorem At.fresh (h : At w c []) (hsess : (w.clients c).session = none)
    (hfresh : ∀ t, .attach c t ∉ w.log) (hopen : (w.clients c).closing = false) :
    (w.clients c).status ≠ .onSendFrames ∧ ¬ w.Slient c ∧ .stop c ∉ w.log ∧
      .previewResDone c ∉ w.log ∧ sent c w.log = [] := by
  cases h with
  | outside session status slient stop done sent =>
      refine ⟨status, slient, fun hstop => ?_, done, sent⟩
      rw [(stop hstop).1] at hopen
      cases hopen
  | waiting session _ _ _ _ _ =>
      rw [hsess] at session
      cases session
  | streaming session _ _ _ _ _ _ _ =>
      rw [hsess] at session
      cases session
  | @stopped s _ _ _ _ _ _ _ _ _ _ attach => exact absurd ((attach s).mpr rfl) (hfresh s)

/-- From now on it waits for its preview response. -/
theorem Standing.addSmtsClient (h : Standing w fun _ => []) (hsess : (w.clients c).session = none)
    (hfresh : ∀ t, .attach c t ∉ w.log) (hopen : (w.clients c).closing = false)
    (hlt : c < w.nClients) : Standing (w.addSmtsClient s c) fun _ => [] := by
  obtain ⟨hstatus, -, hstop, hdone, hsent⟩ := (h.clients c).fresh hsess hfresh hopen
  have hat : At (w.addSmtsClient s c) c [] := by
    refine .waiting (s := s) (by simp) (by simpa using hstatus) (by simpa using hstop)
      (by simpa using hdone) ?_ fun t => by simp [hfresh t, eq_comm]
    rw [addSmtsClient_log, sent_append, hsent]
    rfl
  have hothers : ∀ d, d ≠ c → Calm d w (w.addSmtsClient s c) := fun d hd =>
    .update (Ne.symm hd) rfl le_rfl (fun _ hreq => hreq) rfl (by simp [Silent, Obs.concerns, Ne.symm hd])
  exact (h.update hat hothers (fun _ hreq => .inl hreq) le_rfl hlt).settled

/-- A session that could not be started leaves its client where it was. -/
theorem Standing.starts (h : Standing w fun _ => []) (hsess : (w.clients c).session = none)
    (hfresh : ∀ t, .attach c t ∉ w.log) (hopen : (w.clients c).closing = false)
    (hlt : c < w.nClients)
    (hstarts : Starts fuel ((w.initMediaSession key).addSmtsClient w.nSessions c) w.nSessions c w' r) :
    Standing w' fun _ => [] := by
  have hinit : Still w (w.initMediaSession key) :=
    .of_clients_eq rfl rfl rfl (m := [.uvInit (.timer w.nSessions)]) rfl fun d => by
      simp [Silent, Obs.concerns]
  let v := (w.initMediaSession key).addSmtsClient w.nSessions c
  have hv : Standing v fun _ => [] :=
    (h.still hinit).addSmtsClient hsess (by simpa using hfresh) hopen hlt
  obtain ⟨⟨k, hlog⟩, -, hwrites, -⟩ := hstarts.spec
  rw [List.append_assoc] at hlog
  have hsilent : ∀ d, Silent d (List.replicate k (.uvInit (.dvr w.nSessions)) ++
      if r = 0 then [] else [.free (.session w.nSessions)]) := fun d o ho => by
    rcases List.mem_append.mp ho with ho | ho
    · rw [List.eq_of_mem_replicate ho]
      rfl
    · split at ho
      · cases ho
      · rw [List.mem_singleton.mp ho]
        rfl
  obtain ⟨w₁, m, hq, ⟨-, hw', -⟩ | ⟨-, -, hw'⟩⟩ := hstarts.outcome
  · obtain ⟨hstatus, hslient, hstop, hdone, hsent⟩ := (h.clients c).fresh hsess hfresh hopen
    have hclients : w'.clients = Function.update v.clients c { v.clients c with session := none } := by
      rw [hw', show v.clients = w₁.clients from hq.clients.symm]
      rfl
    have hn : w'.nClients = v.nClients := by
      rw [hw']
      exact hq.nClients
    have hmem : ∀ {o : Obs}, o.concerns c = true → (o ∈ w'.log ↔ o ∈ v.log) := fun ho => by
      rw [hlog, List.mem_append, or_iff_left ((hsilent c).notMem ho)]
    -- the client is back outside: nothing was sent to it on the way
    have hat : At w' c [] := by
      refine .outside (by simp [hclients]) ?_ ?_ (fun h => ?_) (fun h => ?_) ?_
      · simpa [hclients, v] using hstatus
      · exact fun h => hslient (.of_writes (fun _ hreq => hwrites ▸ hreq) h)
      · exact absurd ((hmem (by simp [Obs.concerns])).mp h) (by simpa [v] using hstop)
      · exact absurd ((hmem (by simp [Obs.concerns])).mp h) (by simpa [v] using hdone)
      · rw [hlog, sent_append, (hsilent c).sent, List.append_nil, addSmtsClient_log, initMediaSession_log,
          sent_append, sent_append, hsent]
        rfl
    have hothers : ∀ d, d ≠ c → Calm d v w' := fun d hd =>
      .update (Ne.symm hd) hclients hn.ge (fun _ hreq => hwrites ▸ hreq) hlog (hsilent d)
    exact (hv.update hat hothers (fun _ hreq => .inl (hwrites ▸ hreq)) hn.ge hlt).settled
  · refine hv.still (.of_clients_eq ?_ ?_ hwrites hlog hsilent)
    · rw [hw']
      exact hq.clients
    · rw [hw']
      exact hq.nClients

theorem mediaClientStartPreview_nClients (hr : w.mediaClientStartPreview fuel c key = some (w', r)) :
    w'.nClients = w.nClients := by
  obtain ⟨found, hget, -⟩ := Option.bind_eq_some_iff.mp hr
  cases found with
  | none =>
      obtain ⟨w₁, m, hq, ⟨-, rfl, -⟩ | ⟨-, -, rfl⟩⟩ := (mediaClientStartPreview_new hget hr).outcome
      · exact hq.nClients
      · exact hq.nClients
  | some s => exact (smtsClientSendPreviewRes_nClients (mediaClientStartPreview_found hget hr).2).trans rfl

theorem Standing.mediaClientStartPreview (h : Standing w fun _ => [])
    (hsess : (w.clients c).session = none) (hfresh : ∀ t, .attach c t ∉ w.log)
    (hopen : (w.clients c).closing = false) (hlt : c < w.nClients)
    (hr : w.mediaClientStartPreview fuel c key = some (w', r)) : Standing w' fun _ => [] := by
  obtain ⟨found, hget, -⟩ := Option.bind_eq_some_iff.mp hr
  cases found with
  | none => exact h.starts hsess hfresh hopen hlt (mediaClientStartPreview_new hget hr)
  | some s =>
      obtain ⟨-, hres⟩ := mediaClientStartPreview_found hget hr
      exact (h.addSmtsClient hsess hfresh hopen hlt).smtsClientSendPreviewRes (s := s) (by simp) hlt hres

theorem Standing.dispatchPreview (h : Standing w fun _ => []) {bytes : List Byte}
    {junk : Int → Byte} (hen : w.Enabled (.packet c bytes junk))
    (hprev : (Event.packet c bytes junk).preview = some c) (hsess : (w.clients c).session = none)
    (hfresh : ∀ t, .attach c t ∉ w.log) (hr : w.dispatchPacket fuel c bytes junk = some w') :
    Standing w' fun _ => [] := by
  obtain ⟨hlt, -, hopen, -⟩ := hen
  obtain ⟨t, w₁, hstart, rfl⟩ := dispatchPacket_preview hprev hr
  refine Standing.still (w := w₁) ?_ (.of_memOnly (.protoCmdDestroy w₁ _) fun _ hreq => hreq)
  let w₀ := (w.setHeap (w.heap.receive bytes).1).addCmd t
  have h₀ : Standing w₀ fun _ => [] :=
    h.still (.of_memOnly ((MemOnly.setHeap w _).trans (.addCmd _ t)) fun _ hreq => hreq)
  obtain ⟨w₂, r, hmedia, hcase⟩ := smtsStartPreview_cases hstart
  have h₂ : Standing w₂ fun _ => [] := h₀.mediaClientStartPreview hsess hfresh hopen hlt hmedia
  obtain ⟨-, rfl⟩ | ⟨-, w₃, w₄, r', henc, hsend, hw⟩ := hcase
  · exact h₂
  -- the error response is no preview response of the session's
  · have h₃ : Standing w₃ fun _ => [] :=
      h₂.still (.of_memOnly (.encodeNew henc) fun _ hreq => encodeNew_writes henc ▸ hreq)
    have hn : w₃.nClients = w₀.nClients :=
      (MemOnly.encodeNew henc).nClients.trans (mediaClientStartPreview_nClients hmedia)
    have hto : ∀ d, Target.client c = .client d → d < w₃.nClients := fun d hd => by
      rw [hn, ← Target.client.inj hd]
      exact hlt
    have h₄ : Standing w₄ fun _ => [] := h₃.still (.tcpClientSendMsg (by decide) hto hsend)
    rcases hw with rfl | rfl
    · exact h₄
    · exact h₄.still (.of_memOnly (.protoCmdDestroy w₄ _) fun _ hreq => hreq)

end Preview

/-! ## The other callbacks -/

section Callbacks

variable {A : Nat → Prop} {w w' : Server} {fuel c s : Nat} {e : Event}

theorem clientOnConnection_spec (w : Server) :
    ∃ x m, w.clientOnConnection.clients = Function.update w.clients w.nClients x ∧ x.session = none ∧
      x.status = .onInit ∧ w.clientOnConnection.nClients = w.nClients + 1 ∧
      w.clientOnConnection.writes = w.writes ∧ w.clientOnConnection.log = w.log ++ m ∧
      ∀ c, Silent c m := by
  let x : SmtsClient :=
    { session := none, status := .onInit, reading := false, closing := false, freed := false }
  have hclose : ∀ v : Server, v.clients = Function.update w.clients w.nClients x →
      (v.closeClient w.nClients).clients
        = Function.update w.clients w.nClients { x with closing := true } := fun v hv => by
    funext d
    simp [hv, x]
  have hread : ∀ v : Server, v.clients = Function.update w.clients w.nClients x →
      (v.setClient w.nClients { v.clients w.nClients with reading := true }).clients
        = Function.update w.clients w.nClients { x with reading := true } := fun v hv => by
    funext d
    simp [hv, x]
  rw [clientOnConnection]
  dsimp only
  split
  · exact ⟨{ x with closing := true }, [.uvInit (.client w.nClients), .uvClose (.client w.nClients)],
      hclose _ rfl, rfl, rfl, rfl, rfl, List.append_assoc .., by simp [Silent, Obs.concerns]⟩
  · split
    · exact ⟨{ x with closing := true }, [.uvInit (.client w.nClients), .uvClose (.client w.nClients)],
        hclose _ rfl, rfl, rfl, rfl, rfl, List.append_assoc .., by simp [Silent, Obs.concerns]⟩
    · exact ⟨{ x with reading := true }, [.uvInit (.client w.nClients)], hread _ rfl, rfl, rfl, rfl,
        rfl, rfl, by simp [Silent, Obs.concerns]⟩

/-- The client at an address that had none. -/
theorem Standing.clientOnConnection (h : Standing w fun _ => []) (hring : RingInv A w) :
    Standing w.clientOnConnection fun _ => [] := by
  obtain ⟨x, m, hclients, hsession, hstatus, hn, hwrites, hlog, hm⟩ := clientOnConnection_spec w
  generalize w.clientOnConnection = w' at *
  have hle : w.nClients ≤ w'.nClients := by omega
  have hw : ∀ req ∈ w'.writes, req ∈ w.writes := fun _ hreq => hwrites ▸ hreq
  refine ⟨fun c => ?_, fun req hreq c hc => (h.written req (hw req hreq) c hc).trans_le hle⟩
  by_cases hc : c = w.nClients
  · subst hc
    have hlast : ∀ s, (w.clients w.nClients).session ≠ some s := fun s hs =>
      absurd (hring.attached _ s hs).1 (lt_irrefl _)
    have hx : w'.clients w.nClients = x := by rw [hclients, Function.update_self]
    have hmem : ∀ {o : Obs}, o.concerns w.nClients = true → (o ∈ w'.log ↔ o ∈ w.log) := fun ho => by
      rw [hlog, List.mem_append, or_iff_left ((hm _).notMem ho)]
    cases h.clients w.nClients with
    | outside session status slient stop done sent =>
        refine .outside (hx ▸ hsession) (by simp [hx, hstatus])
          (fun h => slient (.of_writes hw h)) (fun h => ?_)
          (fun h => done ((hmem (by simp [Obs.concerns])).mp h)) ?_
        · exact absurd (stop ((hmem (by simp [Obs.concerns])).mp h)).2 (lt_irrefl _)
        · rw [hlog, sent_append, sent, (hm _).sent, List.append_nil]
    | waiting session _ _ _ _ _ => exact absurd session (hlast _)
    | streaming session _ _ _ _ _ _ _ => exact absurd session (hlast _)
    | @stopped s session l₁ l₂ log stop after lost lost_le frames aired attach =>
        refine .stopped (a := l₁) (b := l₂ ++ m) (hx ▸ hsession) ?_ stop ?_ lost_le frames aired
          fun t => (hmem (by simp [Obs.concerns])).trans (attach t)
        · rw [hlog, log, List.append_assoc, List.cons_append]
        · rw [sent_append, after, (hm _).sent, List.append_nil]
  · exact (h.clients c).calm (.update (Ne.symm hc) hclients hle hw hlog (hm c))

theorem Still.mediaClientSendCmd (w : Server) (c p : Nat) : Still w (w.mediaClientSendCmd c p).1 := by
  cases hs : (w.clients c).session with
  | none =>
      rw [mediaClientSendCmd_none hs]
      exact .refl w
  | some s =>
      obtain ⟨w₁, hsend, hres⟩ := mediaClientSendCmd_some hs (p := p)
      have hinc : Still w (w.protoCmdIncreaseRef p) := .of_memOnly (.setCmd w p _) fun _ hreq => hreq
      have h₁ := hinc.trans (.tcpClientSendMsg (t := .dvr s) (by decide)
        (fun d hd => nomatch hd) hsend)
      rw [hres]
      split
      · exact h₁
      · exact h₁.trans (.of_memOnly (.protoCmdDestroy w₁ p) fun _ hreq => hreq)

theorem Still.msgChannel {p : Nat} (hlt : c < w.nClients) (hr : w.msgChannel c p = some w') :
    Still w w' := by
  have h₁ := Still.mediaClientSendCmd w c p
  rw [Server.msgChannel] at hr
  generalize w.mediaClientSendCmd c p = sent at h₁ hr
  obtain ⟨w₁, r₁⟩ := sent
  obtain ⟨w₂, henc, hr⟩ := Option.bind_eq_some_iff.mp hr
  have h₂ := h₁.trans (.of_memOnly (.encodeNew henc) fun _ hreq => encodeNew_writes henc ▸ hreq)
  generalize hsend : w₂.tcpClientSendMsg (.client c) w₁.nCmds .commonRes = send at hr
  obtain ⟨w₃, r₃⟩ := send
  have hto : ∀ d, Target.client c = .client d → d < w₂.nClients := fun d hd => by
    rw [h₂.nClients, ← Target.client.inj hd]
    exact hlt
  have h₃ := h₂.trans (.tcpClientSendMsg (by decide) hto hsend)
  dsimp only at hr
  split at hr
  · obtain rfl := Option.some.inj hr
    exact h₃.trans (.of_memOnly (.protoCmdDestroy w₃ _) fun _ hreq => hreq)
  · obtain rfl := Option.some.inj hr
    exact h₃

/-- What is no preview request is answered, or passed on. -/
theorem Still.dispatchPacket {bytes : List Byte} {junk : Int → Byte}
    (hprev : (Event.packet c bytes junk).preview = none) (hlt : c < w.nClients)
    (hr : w.dispatchPacket fuel c bytes junk = some w') : Still w w' := by
  have hheap : Still w (w.setHeap (w.heap.receive bytes).1) :=
    .of_memOnly (.setHeap w _) fun _ hreq => hreq
  obtain ⟨-, rfl⟩ | ⟨t, imp, w₁, hdec, himp, rfl⟩ := dispatchPacket_cases hr
  · exact hheap.trans (.of_memOnly (.emit _ rfl) fun _ hreq => hreq)
  · have hadd := hheap.trans (.of_memOnly (.addCmd _ t) fun _ hreq => hreq)
    have hnot : imp ≠ some .smtsStartPreview := by
      rintro rfl
      obtain ⟨T, hT, hcmd, -⟩ := dispatchDecode_spec hdec
      rw [Event.preview, hcmd, smtsStartPreview_cmd _ hT rfl, if_pos rfl] at hprev
      cases hprev
    have hdestroy : Still w₁ (w₁.protoCmdDestroy w.nCmds) :=
      .of_memOnly (.protoCmdDestroy w₁ _) fun _ hreq => hreq
    cases imp with
    | none =>
        obtain rfl := Option.some.inj himp
        exact hadd.trans hdestroy
    | some imp =>
        cases imp with
        | smtsStartPreview => exact absurd rfl hnot
        | mockDvrPreviewImpl => cases himp
        | msgChannel =>
            have himp : ((w.setHeap (w.heap.receive bytes).1).addCmd t).msgChannel c w.nCmds
                = some w₁ := himp
            exact (hadd.trans (.msgChannel hlt himp)).trans hdestroy

/-- The preview response of `c` has been written. -/
theorem Standing.previewResDone (h : Standing w fun _ => []) {k : Nat} {req : WriteReq}
    (hk : w.writes[k]? = some req) (hcb : req.cb = .previewResSlient) (hc : req.client = .client c) :
    Standing ((((w.eraseWrite k).protoCmdDestroy req.packet).emit
      (.previewResDone c)).setClient c { w.clients c with status := .onSendFrames }) fun _ => [] := by
  have hreq : req ∈ w.writes := List.mem_of_getElem? hk
  let v := (w.eraseWrite k).protoCmdDestroy req.packet
  have hdestroy : MemOnly w v := (MemOnly.eraseWrite w k).trans (.protoCmdDestroy _ _)
  obtain ⟨m, hm, hmo⟩ := hdestroy.log
  have hsilent : ∀ d, Silent d m := fun d o ho => Obs.concerns_of_ofStream (hmo o ho) d
  let w' := (v.emit (.previewResDone c)).setClient c { w.clients c with status := .onSendFrames }
  have hlog : w'.log = w.log ++ (m ++ [.previewResDone c]) := by
    rw [← List.append_assoc, ← hm]
    rfl
  have hclients : w'.clients = Function.update w.clients c { w.clients c with status := .onSendFrames } :=
    rfl
  have hx : w'.clients c = { w.clients c with status := .onSendFrames } := by
    rw [hclients, Function.update_self]
  have hw : ∀ req ∈ w'.writes, req ∈ w.writes := fun _ ho => List.mem_of_mem_eraseIdx ho
  have hmem : ∀ {o : Obs}, o.concerns c = true → o ≠ .previewResDone c → (o ∈ w'.log ↔ o ∈ w.log) :=
    fun ho hne => by
      rw [hlog, List.mem_append, List.mem_append, List.mem_singleton, or_iff_left (b := _ ∨ _)]
      exact not_or.mpr ⟨(hsilent c).notMem ho, hne⟩
  have hstop : .stop c ∈ w'.log ↔ .stop c ∈ w.log := hmem (by simp [Obs.concerns]) (by simp)
  have hattach : ∀ t, .attach c t ∈ w'.log ↔ .attach c t ∈ w.log := fun t =>
    hmem (by simp [Obs.concerns]) (by simp)
  have hquiet : sent c (m ++ [.previewResDone c]) = [] ∧
      ∀ s, received s (m ++ [.previewResDone c]) = [] := by
    refine ⟨?_, fun s => ?_⟩
    · rw [sent_append, (hsilent c).sent]
      rfl
    · rw [received_append, (hsilent c).received]
      rfl
  -- a client that waited begins to stream; one that streams or was stopped goes on as it was
  have hat : At w' c [] := by
    cases h.clients c with
    | outside _ _ slient _ _ _ => exact absurd ⟨req, hreq, hcb, hc⟩ slient
    | waiting session status stop done sent attach =>
        refine .streaming (a := w.log ++ m) (b := []) (by rw [hx]; exact session) (by rw [hx])
          (fun h => stop (hstop.mp h)) (hlog.trans (List.append_assoc ..).symm) (fun h => ?_) ?_ rfl
          fun t => (hattach t).trans (attach t)
        · exact (List.mem_append.mp h).elim done (hsilent c).previewResDone
        · rw [sent_append, sent, (hsilent c).sent, List.append_nil]
    | @streaming s session status stop l₁ l₂ log done before frames attach =>
        refine .streaming (a := l₁) (b := l₂ ++ (m ++ [.previewResDone c])) (by rw [hx]; exact session)
          (by rw [hx]) (fun h => stop (hstop.mp h)) ?_ done before ?_ fun t => (hattach t).trans (attach t)
        · rw [hlog, log, List.append_assoc, List.cons_append]
        · rw [received_append, sent_append, hquiet.1, hquiet.2, frames]
    | @stopped s session l₁ l₂ log stop after lost lost_le frames aired attach =>
        refine .stopped (a := l₁) (b := l₂ ++ (m ++ [.previewResDone c])) (by rw [hx]; exact session) ?_
          stop ?_ lost_le frames aired fun t => (hattach t).trans (attach t)
        · rw [hlog, log, List.append_assoc, List.cons_append]
        · rw [sent_append, after, hquiet.1, List.append_nil]
  have hothers : ∀ d, d ≠ c → Calm d w w' := fun d hd =>
    .update (Ne.symm hd) hclients le_rfl hw hlog
      ((hsilent d).append (by simp [Silent, Obs.concerns, Ne.symm hd]))
  exact (h.update hat hothers (fun _ ho => .inl (hw _ ho)) le_rfl (h.written req hreq c hc)).settled

theorem Standing.tcpClientSendMsgCb (h : Standing w fun _ => []) (hring : RingInv A w) {k : Nat}
    {status : Int} (hen : w.Enabled (.writeDone k status))
    (hr : w.tcpClientSendMsgCb fuel k status = some w') : Standing w' fun _ => [] := by
  obtain ⟨req, hk, hr⟩ := Option.bind_eq_some_iff.mp hr
  obtain ⟨w₁, hcb, hr⟩ := Option.bind_eq_some_iff.mp hr
  obtain rfl := Option.some.inj hr
  refine Standing.still (w := w₁) ?_ (.of_memOnly (.emit w₁ rfl) fun _ ho => ho)
  have hreq : req ∈ w.writes := List.mem_of_getElem? hk
  have hto : ∀ c, req.client = .client c → c < w.nClients := h.written req hreq
  have herase : Still w (w.eraseWrite k) :=
    .of_memOnly (.eraseWrite w k) fun _ ho => List.mem_of_mem_eraseIdx ho
  have hdestroy : Still w ((w.eraseWrite k).protoCmdDestroy req.packet) :=
    herase.trans (.of_memOnly (.protoCmdDestroy _ _) fun _ ho => ho)
  obtain ⟨id, target, p, cb⟩ := req
  cases cb with
  | previewResSlient =>
      cases target with
      | client c =>
          obtain rfl := Option.some.inj hcb
          exact h.previewResDone hk rfl rfl
      | dvr s => cases hcb
  | errorPreviewRes =>
      cases target with
      | client c =>
          obtain rfl := Option.some.inj hcb
          exact ((h.still hdestroy).stop (Nat.zero_le _) (hto c rfl)).settled
      | dvr s => cases hcb
  | sendFrame =>
      cases target with
      | client c =>
          obtain ⟨w₂, hdrop, hcb⟩ := Option.bind_eq_some_iff.mp hcb
          have hstill := herase.trans (.onSmtsClientSendFrame hdrop)
          split at hcb
          · obtain rfl := Option.some.inj hcb
            exact ((h.still hstill).stop (Nat.zero_le _) (hstill.nClients.symm ▸ hto c rfl)).settled
          · obtain rfl := Option.some.inj hcb
            exact h.still hstill
      | dvr s => cases hcb
  | commonRes =>
      cases target with
      | client c =>
          obtain rfl := Option.some.inj hcb
          exact h.still hdestroy
      | dvr s => cases hcb
  | dvrPreview =>
      cases target with
      | client c => cases hcb
      | dvr s =>
          have hdvr : (w.scope (.writeDone k status)).dvr = some s := by
            simp [scope, hk, Target.dvr?]
          obtain ⟨hs, hA⟩ := hring.scope_dvr hen hdvr
          have hring₁ : RingInv A ((w.eraseWrite k).protoCmdDestroy p) :=
            hring.sameNet ((MemOnly.eraseWrite w k).trans (.protoCmdDestroy _ _)).toSameNet
              fun _ ho _ _ => .inl (List.mem_of_mem_eraseIdx ho)
          exact (h.still hdestroy).onSmtsDvrClientSendPreview hring₁ hs hA hcb
  | sendCmdToDvr =>
      cases target with
      | client c => cases hcb
      | dvr s =>
          obtain rfl := Option.some.inj hcb
          exact h.still hdestroy

theorem Still.sessionExitCb (hr : w.sessionExitCb fuel s = some w') : Still w w' := by
  obtain ⟨-, m, rfl⟩ | ⟨-, rfl⟩ := sessionExitCb_cases hr
  · exact .of_clients_eq rfl rfl rfl (m := [.uvClose (.dvr s)]) rfl fun c => by simp [Silent, Obs.concerns]
  · exact (Still.setSession w s _).trans (.setSession _ s _)

theorem Still.clientCloseCb (w : Server) (d : Nat) : Still w (w.clientCloseCb d) := by
  have hsame : ∀ c, ((w.clientCloseCb d).clients c).session = (w.clients c).session ∧
      ((w.clientCloseCb d).clients c).status = (w.clients c).status ∧
      ((w.clientCloseCb d).clients c).closing = (w.clients c).closing := fun c => by
    by_cases hc : c = d
    · subst hc
      simp
    · simp [Function.update_of_ne hc]
  refine ⟨rfl, fun c => ?_, fun _ hreq _ _ => .inl hreq⟩
  obtain ⟨hsession, hstatus, hclosing⟩ := hsame c
  exact ⟨hsession, by rw [hstatus], by rw [hclosing]; exact id, le_rfl,
    fun _ => .of_writes fun _ hreq => hreq, [.uvClosed (.client d), .free (.client d)],
    List.append_assoc .., by simp [Silent, Obs.concerns]⟩

/-- **One turn of the event loop** keeps every client standing where it should. -/
theorem Standing.step (h : Standing w fun _ => []) (hring : RingInv A w) (he : w.JoinsOnce e)
    (hfresh : ∀ c, e.preview = some c → ∀ t, .attach c t ∉ w.log) (hstep : Step w e w') :
    Standing w' fun _ => [] := by
  obtain ⟨hen, fuel, hr⟩ := hstep
  cases e with
  | connection =>
      obtain rfl := Option.some.inj hr
      exact h.clientOnConnection hring
  | packet c bytes junk =>
      -- a packet that asks for no preview attaches nobody
      by_cases hprev : (Event.packet c bytes junk).preview = none
      · exact h.still (.dispatchPacket hprev hen.1 hr)
      · obtain ⟨d, hd⟩ := Option.ne_none_iff_exists'.mp hprev
        obtain ⟨bytes', junk', heq⟩ := Event.preview_eq_some hd
        obtain rfl : c = d := (Event.packet.inj heq).1
        exact h.dispatchPreview hen hd (he c hd) (hfresh c hd) hr
  | readError c status =>
      obtain rfl := Option.some.inj hr
      exact (h.stop (Nat.zero_le _) hen.1).settled
  | dvrConnected s status =>
      obtain ⟨hs, hA⟩ := hring.scope_dvr hen rfl
      exact h.onTcpClientConnectCb hring hs hA hr
  | dvrPacket s bytes junk =>
      obtain ⟨hs, hA⟩ := hring.scope_dvr hen rfl
      exact (h.onDvrClientReadFrameCb hring hs hA hr).1
  | dvrReadError s status =>
      obtain ⟨hs, hA⟩ := hring.scope_dvr hen rfl
      exact h.onDvrClientReadError hring hs hA hr
  | writeDone k status => exact h.tcpClientSendMsgCb hring hen hr
  | timer s => exact h.still (.sessionExitCb hr)
  | clientClosed c =>
      obtain rfl := Option.some.inj hr
      exact h.still (.clientCloseCb w c)
  | dvrClosed s =>
      obtain rfl := Option.some.inj hr
      exact h.still (.of_clients_eq (m := [.uvClosed (.dvr s), .free (.session s)]) rfl rfl rfl
        (List.append_assoc ..) fun c => by simp [Silent, Obs.concerns])

end Callbacks

/-! ## Whole runs -/

/-- Who is attached asked for it, and a frame is received when one is passed on. -/
def Scope.Logs (S : Scope) : Obs → Prop
  | .attach c _ => S.join = some c
  | .recvFrame .. => S.relay = true
  | _ => True

section Logged

variable {S : Scope} {w₀ w w' : Server} {o : Obs}

theorem Scope.logs_of_ofStream (S : Scope) (h : o.ofStream = false) : S.Logs o := by
  cases o <;> trivial

theorem Action.logs (ha : Action S w₀ w w') :
    ∃ m, w'.log = w.log ++ m ∧ ∀ o ∈ m, S.Logs o := by
  have hmem : ∀ {a b : Server}, MemOnly a b → ∃ m, b.log = a.log ++ m ∧ ∀ o ∈ m, S.Logs o := fun h => by
    obtain ⟨m, hlog, hm⟩ := h.log
    exact ⟨m, hlog, fun o ho => S.logs_of_ofStream (hm o ho)⟩
  have hsame : ∀ {b : Server}, b.log = w.log → ∃ m, b.log = w.log ++ m ∧ ∀ o ∈ m, S.Logs o := fun h =>
    ⟨[], by rw [h, List.append_nil], fun _ ho => nomatch ho⟩
  cases ha with
  | uvCall hr => exact hmem (.uvCall hr)
  | @emit o _ hstream _ _ => exact ⟨[o], rfl, by simpa using S.logs_of_ofStream hstream⟩
  | encodeNew _ _ _ hr => exact hmem (.encodeNew hr)
  | receive _ => exact hsame rfl
  | drop bytes => exact hmem ((MemOnly.setHeap w _).trans (.emit _ rfl))
  | addFrame _ _ => exact hsame rfl
  | increaseRef _ => exact hsame rfl
  | addRef _ _ => exact hsame rfl
  | destroy _ => exact hmem (.protoCmdDestroy w _)
  | dropRef _ hr => exact hmem (.onSmtsClientSendFrame hr)
  | destroyFrame _ _ => exact hmem (.destroySmtsFrame w _)
  | send _ _ _ _ hr => exact hmem (.tcpClientSendMsg hr)
  | sendPreviewRes _ _ _ hr =>
      obtain ⟨m, hlog, hm⟩ := hmem (.tcpClientSendMsg hr)
      exact ⟨m, hlog, hm⟩
  | complete _ _ _ => exact hsame rfl
  | @previewResDone k req c _ _ _ _ =>
      obtain ⟨m, hlog, hm⟩ := hmem (MemOnly.protoCmdDestroy (w.eraseWrite k) req.packet)
      refine ⟨m ++ [.previewResDone c], ?_, fun o ho => ?_⟩
      · rw [← List.append_assoc]
        exact congrArg (· ++ [.previewResDone c]) hlog
      · rcases List.mem_append.mp ho with ho | ho
        · exact hm o ho
        · rw [List.mem_singleton.mp ho]
          trivial
  | @relay o hS ho =>
      refine ⟨[o], rfl, fun x hx => ?_⟩
      rw [List.mem_singleton.mp hx]
      -- a frame is received of the session in the scope only
      obtain ⟨s, f, rfl⟩ | ⟨c, f, rfl⟩ | ⟨c, p, rfl, -⟩ := ho
      · exact hS
      · trivial
      · trivial
  | @stop c _ =>
      obtain ⟨-, h⟩ | ⟨-, -, h⟩ | ⟨-, s, -, h⟩ := stopSmtsClient_cases w c
      · exact hsame (by rw [h])
      · exact ⟨[.stop c, .uvClose (.client c)], by rw [h], by simp [Scope.Logs]⟩
      · exact ⟨[.stop c, .uvClose (.client c)], by rw [h], by simp [Scope.Logs]⟩
  | touch _ => exact hsame rfl
  | delete hr =>
      obtain ⟨m, rfl⟩ := deleteSession_eq hr
      exact hsame rfl
  | initClient _ => exact ⟨_, initSmtsClient_log w, by simp [Scope.Logs]⟩
  | startRead _ c => exact hsame rfl
  | @close _ c _ => exact ⟨[.uvClose (.client c)], rfl, by simp [Scope.Logs]⟩
  | @closed c _ =>
      exact ⟨[.uvClosed (.client c), .free (.client c)], List.append_assoc .., by simp [Scope.Logs]⟩
  | initSession _ key => exact ⟨_, initMediaSession_log w key, by simp [Scope.Logs]⟩
  | @attach c hS s => exact ⟨[.attach c s], rfl, by simpa [Scope.Logs] using hS⟩
  | manage _ m => exact hsame rfl
  | abort _ s => exact ⟨[.free (.session s)], rfl, by simp [Scope.Logs]⟩

theorem Does.logs (hd : Does S w₀ w) : ∃ m, w.log = w₀.log ++ m ∧ ∀ o ∈ m, S.Logs o := by
  induction hd with
  | start => exact ⟨[], (List.append_nil _).symm, fun _ ho => nomatch ho⟩
  | step _ ha ih =>
      obtain ⟨m, hm, hmo⟩ := ih
      obtain ⟨m', hm', hmo'⟩ := ha.logs
      exact ⟨m ++ m', by rw [hm', hm, List.append_assoc], fun o ho =>
        (List.mem_append.mp ho).elim (hmo o) (hmo' o)⟩

/-- No frame is received in the other callbacks. -/
theorem Does.received (hd : Does S w₀ w) (hrelay : S.relay = false) (s : Nat) :
    received s w.log = received s w₀.log := by
  obtain ⟨m, hlog, hm⟩ := hd.logs
  have hnone : Smts.received s m = [] := List.filterMap_eq_nil_iff.mpr fun o ho => by
    have hfit := hm o ho
    cases o <;> first | rfl | simp_all [Scope.Logs]
  rw [hlog, received_append, hnone, List.append_nil]

theorem attach_of_run {es : List Event} {c t : Nat} (h : Transition.Run Step w es w')
    (ho : .attach c t ∈ w'.log) : .attach c t ∈ w.log ∨ ∃ e ∈ es, e.preview = some c := by
  induction h with
  | refl => exact .inl ho
  | @snoc es e w₁ w₂ _ hstep ih =>
      obtain ⟨hen, fuel, hr⟩ := hstep
      obtain ⟨m, hlog, hm⟩ := (handle_does_any hen hr).logs
      rw [hlog] at ho
      rcases List.mem_append.mp ho with ho | ho
      · obtain hold | ⟨a, ha, hac⟩ := ih ho
        · exact .inl hold
        · exact .inr ⟨a, List.mem_append_left _ ha, hac⟩
      · exact .inr ⟨e, by simp, (scope_join ..).symm.trans (hm _ ho)⟩

end Logged

/-- Whoever asks for a preview has not been in a session before. -/
def AttachesOnce (w : Server) (e : Event) : Prop :=
  ∀ c, e.preview = some c → ∀ t, .attach c t ∉ w.log

/-- What holds of all frames and clients between two callbacks. -/
structure Flows (w : Server) : Prop where
  ring : ∃ A, RingInv A w
  standing : Standing w fun _ => []
  nodup : ∀ s, (received s w.log).Nodup
  below : ∀ s, ∀ f ∈ received s w.log, f < w.nFrames

section Runs

variable {uv : Nat → Int} {garbage : Nat → Values NvmpName} {es : List Event} {w w' : Server}
  {e : Event} {c s : Nat}

theorem init_flows (uv : Nat → Int) (garbage : Nat → Values NvmpName) : Flows (init uv garbage) where
  ring := ⟨_, init_ringInv uv garbage⟩
  standing := by
    refine ⟨fun c => .outside rfl (fun h => nomatch h) ?_ (fun h => nomatch h) (fun h => nomatch h) rfl,
      fun req hreq => nomatch hreq⟩
    rintro ⟨req, hreq, -⟩
    cases hreq
  nodup _ := List.nodup_nil
  below _ _ hf := nomatch hf

theorem Flows.step (h : Flows w) (he : w.JoinsOnce e) (hfresh : w.AttachesOnce e)
    (hstep : Step w e w') : Flows w' := by
  obtain ⟨A, hring⟩ := h.ring
  have hstanding := h.standing.step hring he hfresh hstep
  have hring' := hring.step he hstep
  obtain ⟨hen, fuel, hr⟩ := hstep
  have hd := handle_does_any hen hr
  by_cases hrelay : (w.scope e).relay = true
  · cases e with
    | dvrPacket s bytes junk =>
        obtain ⟨hs, hA⟩ := hring.scope_dvr hen rfl
        obtain ⟨-, hframes, hrecv⟩ := h.standing.onDvrClientReadFrameCb hring hs hA hr
        refine ⟨hring', hstanding, fun t => ?_, fun t f hf => ?_⟩
        · rw [hrecv]
          split
          · exact List.nodup_append'.mpr ⟨h.nodup t, List.nodup_singleton _, by
              simpa using fun hf => lt_irrefl _ (h.below t _ hf)⟩
          · rw [List.append_nil]
            exact h.nodup t
        · rw [hrecv, List.mem_append] at hf
          rcases hf with hf | hf
          · have := h.below t f hf
            omega
          · split at hf
            · rw [List.mem_singleton.mp hf]
              omega
            · cases hf
    | _ => cases hrelay
  · have hsame := hd.received (Bool.eq_false_iff.mpr hrelay)
    refine ⟨hring', hstanding, fun t => hsame t ▸ h.nodup t, fun t f hf => ?_⟩
    rw [hsame] at hf
    exact (h.below t f hf).trans_le hd.grows.nFrames

theorem flows_of_run (hone : PreviewsOnce es) (h : Transition.Run Step (init uv garbage) es w) :
    Flows w := by
  have hrun := hone.run (P := fun _ _ => True) (Q := fun w e => w.JoinsOnce e ∧ w.AttachesOnce e)
    (fun hrun hnew => ⟨fun c hc => session_none_of_run hrun (hnew c hc) rfl, fun c hc t ho => by
      obtain hold | ⟨a, ha, hac⟩ := attach_of_run hrun ho
      · cases hold
      · exact hnew c hc a ha hac⟩)
    (h.mono fun _ _ _ hs => ⟨trivial, hs⟩)
  exact hrun.invariant (fun w e w' hw hs => hw.step hs.1.1 hs.1.2 hs.2.2) (init_flows uv garbage)

/-- Whatever happens before, or on the air, or after it. -/
theorem received_onAir (s c : Nat) (log : List Obs) : ∃ before after,
    received s log = before ++ received s (onAir c log) ++ after ∧ (.stop c ∉ log → after = []) := by
  let p : Obs → Bool := fun o => decide (o ≠ .stop c)
  let q : Obs → Bool := fun o => decide (o ≠ .previewResDone c)
  refine ⟨received s ((log.takeWhile p).takeWhile q), received s (log.dropWhile p), ?_, fun hstop => ?_⟩
  · change _ = _ ++ received s ((log.takeWhile p).dropWhile q) ++ _
    rw [← received_append, ← received_append, List.takeWhile_append_dropWhile,
      List.takeWhile_append_dropWhile]
  · have hnil : log.dropWhile p = [] :=
      List.dropWhile_eq_nil_iff.mpr fun o ho => by simpa [p] using ne_of_mem_of_not_mem ho hstop
    rw [hnil]
    rfl

theorem onAir_of_notMem {log : List Obs} (hdone : .previewResDone c ∉ log) : onAir c log = [] :=
  dropWhile_of_previewResDone_notMem fun h => hdone ((List.takeWhile_sublist _).subset h)

/-- The stream of a client that was in the session `s`. -/
theorem At.onAir (h : At w c []) (hs : .attach c s ∈ w.log) :
    sent c (onAir c w.log) = sent c w.log ∧ ∃ lost : List Nat, lost.length ≤ 1 ∧
      received s (onAir c w.log) = sent c w.log ++ lost ∧ (.stop c ∉ w.log → lost = []) := by
  cases h with
  | outside session status slient stop done hsent =>
      rw [onAir_of_notMem done, hsent]
      exact ⟨rfl, [], Nat.zero_le _, rfl, fun _ => rfl⟩
  | waiting session status stop done hsent attach =>
      rw [onAir_of_notMem done, hsent]
      exact ⟨rfl, [], Nat.zero_le _, rfl, fun _ => rfl⟩
  | @streaming t session status stop l₁ l₂ log done before frames attach =>
      obtain rfl := (attach s).mp hs
      have hair : Smts.onAir c w.log = .previewResDone c :: l₂ := by
        rw [Smts.onAir, takeWhile_of_stop_notMem stop, log, dropWhile_previewResDone done]
      have hsent : sent c w.log = sent c l₂ := by
        rw [log, sent_append, before, sent_previewResDone, List.nil_append]
      rw [hair, received_previewResDone, sent_previewResDone, hsent, frames]
      exact ⟨rfl, [], Nat.zero_le _, rfl, fun _ => rfl⟩
  | @stopped t session l₁ l₂ log stop after lost lost_le frames aired attach =>
      obtain rfl := (attach s).mp hs
      have hair : Smts.onAir c w.log = l₁.dropWhile fun o => o ≠ .previewResDone c := by
        rw [Smts.onAir, log, takeWhile_stop stop]
      have hsent : sent c w.log = sent c l₁ := by
        rw [log, sent_append, show sent c (.stop c :: l₂) = [] from after, List.append_nil]
      rw [hair, hsent]
      refine ⟨aired, lost, lost_le, frames, fun h => absurd ?_ h⟩
      rw [log]
      simp

end Runs

/-- What `c` is sent of the frames that its session `s` received. -/
structure StreamOk (w : Server) (c s : Nat) : Prop where
  nodup : (received s w.log).Nodup
  /-- `lost` is the frame in whose distribution the client was stopped -/
  block : ∃ before lost after, received s w.log = before ++ (sent c w.log ++ lost) ++ after ∧
    received s (onAir c w.log) = sent c w.log ++ lost ∧ lost.length ≤ 1 ∧
    (.stop c ∉ w.log → lost = [] ∧ after = [])
  aired : sent c (onAir c w.log) = sent c w.log

theorem streamOk_of_run {uv : Nat → Int} {garbage : Nat → Values NvmpName} {es : List Event}
    {w : Server} (hone : PreviewsOnce es) (h : Transition.Run Step (init uv garbage) es w) (c : Nat) :
    ((∀ s, .attach c s ∉ w.log) → sent c w.log = []) ∧
      ∀ s, .attach c s ∈ w.log → StreamOk w c s := by
  have hflows := flows_of_run hone h
  have hat := hflows.standing.clients c
  refine ⟨fun hno => ?_, fun s hs => ?_⟩
  · cases hat with
    | outside _ _ _ _ _ hsent => exact hsent
    | waiting _ _ _ _ hsent _ => exact hsent
    | @streaming s _ _ _ _ _ _ _ _ _ attach => exact absurd ((attach s).mpr rfl) (hno s)
    | @stopped s _ _ _ _ _ _ _ _ _ _ attach => exact absurd ((attach s).mpr rfl) (hno s)
  · obtain ⟨haired, lost, hle, hframes, hlost⟩ := hat.onAir hs
    obtain ⟨before, after, hblock, hafter⟩ := received_onAir s c w.log
    rw [hframes] at hblock
    exact ⟨hflows.nodup s, ⟨before, lost, after, hblock, hframes, hle, fun hstop =>
      ⟨hlost hstop, hafter hstop⟩⟩, haired⟩

/-- **Every client gets a block of its session's frames**, without a gap and
without a frame sent twice: all that come between the callback of its preview
response and its stop, in every run in which each connection sends at most one
preview command and no session is deleted in place of another. A client that was
in no session gets none. -/
theorem streamOk_of_recycling {uv : Nat → Int} {garbage : Nat → Values NvmpName} {es : List Event}
    {w : Server} (hone : PreviewsOnce es)
    (h : Transition.Run (fun w e w' => (w.DeletesOwn e ∧ ¬ e.Mocks) ∧ AllocStep w e w')
      (init uv garbage) es w) (c : Nat) :
    ((∀ s, .attach c s ∉ w.log) → sent c w.log = []) ∧
      ∀ s, .attach c s ∈ w.log → StreamOk w c s := by
  obtain ⟨u, m, hrun, rfl⟩ := run_of_recycling (proper_of_recycling hone h)
  obtain ⟨hno, hstream⟩ := streamOk_of_run hone (hrun.mono fun _ _ _ hs => hs.2) c
  refine ⟨hno, fun s hs => ?_⟩
  obtain ⟨hnodup, hblock, haired⟩ := hstream s hs
  exact ⟨hnodup, hblock, haired⟩

/-- The second client has been answered when the first frame comes, and the first
client has not; the write of the third frame to the second one fails. -/
def twoClients : List Event :=
  [.connection, previewOf 0 0, .connection, previewOf 1 0, .dvrConnected 0 0, .writeDone 1 0,
    .writeDone 0 0, frameOf 0, .writeDone 0 0, frameOf 0, frameOf 0]

theorem streamOk_of_recycling_twoClients :
    ∃ w, Transition.Run (fun w e w' => (w.DeletesOwn e ∧ ¬ e.Mocks) ∧ AllocStep w e w')
        (init (fun n => if n = 17 then -32 else 0) fun _ => Values.zero) twoClients w ∧
      sent 0 w.log = [1, 2] ∧ sent 1 w.log = [0, 1] ∧ .stop 1 ∈ w.log ∧
      StreamOk w 0 0 ∧ StreamOk w 1 0 := by
  have hval : ((init (fun n => if n = 17 then -32 else 0) fun _ => Values.zero).followAlloc
      (fun w e => w.DeletesOwn e ∧ ¬ e.Mocks) 3 (twoClients.map (none, ·))).map (fun w =>
        (sent 0 w.log, sent 1 w.log, w.log.contains (.stop 1), w.log.contains (.attach 0 0),
          w.log.contains (.attach 1 0)))
      = some ([1, 2], [0, 1], true, true, true) := by
    decide +kernel
  have hone : twoClients.filterMap Event.preview = [0, 1] := by decide +kernel
  obtain ⟨w, hw, hval⟩ := Option.map_eq_some_iff.mp hval
  obtain ⟨hsent, hsent', hstop, hattach, hattach'⟩ := by simpa using hval
  have hrun := run_of_followAlloc hw
  rw [List.map_map, show Prod.snd ∘ (fun e : Event => ((none, e) : Occasion)) = id from rfl,
    List.map_id] at hrun
  have hone : PreviewsOnce twoClients := previewsOnce_of_nodup (by rw [hone]; decide)
  exact ⟨w, hrun, hsent, hsent', hstop, (streamOk_of_recycling hone hrun 0).2 0 hattach,
    (streamOk_of_recycling hone hrun 1).2 0 hattach'⟩

/-- What comes after `staleTimer`. The exit timer of 1 puts 0, which was freed, back
on the manager's ring, where the next client finds it. One more session is
started, in the memory of 1, and the ring is emptied when the session 2 is
deleted in its place. The last client's session gets the memory of 0: there is
one client more in it now than in its ring. When that one leaves, the ring is
empty. -/
def sharedMemory : List Occasion :=
  (staleTimer ++ [.timer 1, .dvrClosed 1, .connection, previewOf 3 0, .connection]).map (none, ·) ++
    [(some 1, previewOf 4 1), (none, .dvrConnected 2 (-111)), (none, .connection),
      (some 0, previewOf 5 2), (none, .dvrConnected 4 0), (none, .writeDone 3 0),
      (none, .writeDone 3 0), (none, frameOf 4), (none, .readError 3 (-4095)), (none, frameOf 4)]

/-- Of its session's two frames the last client gets one, and is not stopped. -/
theorem not_streamOk_sharedMemory :
    ∃ w, PreviewsOnce (sharedMemory.map Prod.snd) ∧
      Transition.Run AllocStep (init (fun _ => 0) fun _ => Values.zero) (sharedMemory.map Prod.snd) w ∧
      .attach 5 4 ∈ w.log ∧ received 4 w.log = [0, 1] ∧ sent 5 w.log = [0] ∧ .stop 5 ∉ w.log ∧
      ¬ StreamOk w 5 4 := by
  have hval : ((init (fun _ => 0) fun _ => Values.zero).followAlloc (fun _ _ => True) 7
      sharedMemory).map (fun w => (w.log.contains (.attach 5 4), received 4 w.log, sent 5 w.log,
        w.log.contains (.stop 5)))
      = some (true, [0, 1], [0], false) := by
    decide +kernel
  have hone : (sharedMemory.map Prod.snd).filterMap Event.preview = [0, 1, 2, 3, 4, 5] := by
    decide +kernel
  obtain ⟨w, hw, hval⟩ := Option.map_eq_some_iff.mp hval
  obtain ⟨hattach, hreceived, hsent, hstop⟩ := by simpa using hval
  refine ⟨w, previewsOnce_of_nodup (by rw [hone]; decide),
    (run_of_followAlloc hw).mono fun _ _ _ hs => hs.2, hattach, hreceived, hsent, hstop, ?_⟩
  rintro ⟨-, ⟨before, lost, after, hblock, -, -, hnostop⟩, -⟩
  obtain ⟨rfl, rfl⟩ := hnostop hstop
  rw [hreceived, hsent, List.append_nil, List.append_nil] at hblock
  have hlast : [0, 1].getLast? = (before ++ [0]).getLast? := congrArg List.getLast? hblock
  rw [List.getLast?_concat] at hlast
  cases hlast

end Server

end Smts
