import Smts.Server.Channel
import Smts.Server.Ledger

/-!
# Server — received packets

A packet that arrives is `dispatch_packet`'s, and also the write's when it is
passed on to a DVR. `ref` counts its owners but one, so whoever comes last
frees it, in whatever order they come.
-/

namespace Smts

/-- A packet and the buffer it came in. -/
def Objects.received (p b : Nat) : Objects := ⟨(· = p), fun _ => False, (· = b)⟩

/-- The part of memory that is the one buffer `b`, without a packet. -/
def Objects.buffer (b : Nat) : Objects := ⟨fun _ => False, fun _ => False, (· = b)⟩

/-- A packet given to `uv_write` for a DVR. -/
def Obs.toDvr : Obs → Bool
  | .uvWrite (.dvr _) .. => true
  | _ => false

namespace Server

/-! ## Owners -/

/-- What is freed with the packet `p` in buffer `b`. -/
def objects (p b : Nat) : List Obj := [.block ⟨b, 0⟩, .slots p, .cmd p]

/-- The packet `p` in buffer `b` has `n` owners besides the writes of it. -/
structure Owned (w : Server) (p b n : Nat) : Prop
    extends Counted (.received p b) p (objects p b) w n where
  frees : (w.cmds p).frees = [.block ⟨b, 0⟩, .slots, .struct]
  ref : ∀ k, n + (w.writesOf p).length = k + 1 → (w.cmds p).ref = k
  sends : ∀ req ∈ w.writesOf p, ∃ s, req.client = .dvr s ∧ req.cb = .sendCmdToDvr

section Owned

variable {w w' : Server} {p b n : Nat}

theorem objects_received {x : Obj} (hx : x ∈ objects p b) :
    (Obs.free x).ofMemory = true ∧ (Objects.received p b).Within (.free x) := by
  simp only [objects, List.mem_cons, List.not_mem_nil, or_false] at hx
  rcases hx with rfl | rfl | rfl <;> exact ⟨rfl, rfl⟩

/-- The last owner frees the packet and its buffer. -/
theorem Counted.destroy (h : Counted (.received p b) p (Server.objects p b) w 1)
    (hfrees : (w.cmds p).frees = [.block ⟨b, 0⟩, .slots, .struct]) (href : (w.cmds p).ref = 0)
    (hnil : w.writesOf p = []) :
    Counted (.received p b) p (Server.objects p b) (w.protoCmdDestroy p) 0 := by
  have heq : w.protoCmdDestroy p = { w with log := w.log ++ (Server.objects p b).map .free } := by
    rw [protoCmdDestroy_last href, hfrees]
    rfl
  rw [heq]
  refine h.last hnil rfl ?_ rfl (fun x hx => ?_) (by simp) (fun q hq _ => ?_)
  · refine h.apart.own rfl rfl rfl (fun _ _ => rfl) rfl h.apart.written rfl fun o ho => ?_
    obtain ⟨x, hx, rfl⟩ := List.mem_map.mp ho
    exact (objects_received hx).2.mono (fun q hq => ⟨h.apart.packets q hq, id⟩)
      (fun _ => False.elim) fun q hq => ⟨h.apart.blocks q hq, id⟩
  · simp only [Server.objects, List.mem_cons, List.not_mem_nil, or_false] at hx
    rcases hx with rfl | rfl | rfl <;> simp [Server.objects]
  · obtain rfl : q = ⟨b, 0⟩ := by simpa [Server.objects] using hq
    rfl

/-- A packet that has just been made, in a buffer of its own, is its maker's. -/
theorem Apart.made (h : Apart .none w) (block : List (Option Byte)) (t : NvmpCmd) :
    Counted (.received w.nCmds w.heap.blocks.length) w.nCmds (objects w.nCmds w.heap.blocks.length)
        ((w.setHeap ⟨w.heap.blocks ++ [block]⟩).addCmd t) 1 ∧
      ((w.setHeap ⟨w.heap.blocks ++ [block]⟩).addCmd t).writesOf w.nCmds = [] := by
  have hg : Grows w ((w.setHeap ⟨w.heap.blocks ++ [block]⟩).addCmd t) :=
    ⟨le_rfl, Nat.le_succ _, le_rfl, by simp⟩
  have hnone : ((w.setHeap ⟨w.heap.blocks ++ [block]⟩).addCmd t).writesOf w.nCmds = [] :=
    List.filter_eq_nil_iff.mpr fun req hreq => by simpa using (h.written req hreq).ne
  have happart : Apart (.received w.nCmds w.heap.blocks.length)
      ((w.setHeap ⟨w.heap.blocks ++ [block]⟩).addCmd t) := by
    refine h.since hg (fun q => ?_) (fun f => ?_) (fun q => ?_)
      (fun q hq => Function.update_of_ne hq.ne ..) (fun _ _ => rfl)
      (fun req hreq => (h.written req hreq).trans_le hg.nCmds) fun o ho => hg.rest _ (h.logged o ho)
    · change q = w.nCmds ↔ w.nCmds ≤ q ∧ q < w.nCmds + 1
      omega
    · exact ⟨False.elim, fun hf => absurd hf.2 (not_lt.mpr hf.1)⟩
    · simp only [Objects.received, addCmd_heap, setHeap_heap, List.length_append,
        List.length_singleton]
      omega
  exact ⟨.fresh h (fun _ hq => hq.ge) (fun _ => False.elim) (fun _ hq => hq.ge) happart rfl
    (fun _ => objects_received) (List.append_nil _).symm (by simp) (by simp), hnone⟩

theorem Owned.spares (h : Owned w p b n) (hs : Spares (.received p b) w w') : Owned w' p b n := by
  have hcmd : w'.cmds p = w.cmds p := hs.kept.cmds p rfl
  have hwrites : w'.writesOf p = w.writesOf p := hs.kept.writes p rfl
  refine ⟨h.toCounted.spares hs, hcmd ▸ h.frees, fun k hk => ?_, hwrites ▸ h.sends⟩
  rw [hcmd]
  exact h.ref k (hwrites ▸ hk)

theorem Owned.increaseRef (h : Owned w p b (n + 1)) :
    Owned (w.protoCmdIncreaseRef p) p b (n + 2) := by
  have hcmd : (w.protoCmdIncreaseRef p).cmds p = { w.cmds p with ref := (w.cmds p).ref + 1 } :=
    Function.update_self ..
  have href := h.ref (n + (w.writesOf p).length) (by omega)
  refine ⟨h.toCounted.setRef (by omega), ?_, fun k hk => ?_, h.sends⟩
  · rw [hcmd]
    exact h.frees
  · have hk : n + 2 + (w.writesOf p).length = k + 1 := hk
    simp only [hcmd]
    omega

/-- A destroy takes one owner from the packet, and frees it with the last. -/
theorem Owned.destroy (h : Owned w p b (n + 1)) : Owned (w.protoCmdDestroy p) p b n := by
  have href := h.ref (n + (w.writesOf p).length) (by omega)
  by_cases hz : (w.cmds p).ref = 0
  · obtain rfl : n = 0 := by omega
    have hnil : w.writesOf p = [] := List.eq_nil_of_length_eq_zero (by omega)
    have hc := h.toCounted.destroy h.frees hz hnil
    rw [protoCmdDestroy_last hz] at hc ⊢
    refine ⟨hc, h.frees, fun k hk => ?_, h.sends⟩
    have hk : 0 + (w.writesOf p).length = k + 1 := hk
    omega
  · rw [protoCmdDestroy_shared hz]
    refine ⟨h.toCounted.setRef (by omega), ?_, fun k hk => ?_, h.sends⟩
    · rw [setCmd_cmds, Function.update_self]
      exact h.frees
    · have hk : n + (w.writesOf p).length = k + 1 := hk
      simp only [setCmd_cmds, Function.update_self]
      omega

theorem Owned.send {s : Nat} {r : Int} (h : Owned w p b (n + 1))
    (hr : w.tcpClientSendMsg (.dvr s) p .sendCmdToDvr = (w', r)) :
    (r = 0 → Owned w' p b n) ∧ (r ≠ 0 → Owned w' p b (n + 1)) := by
  have hcmds : w'.cmds = w.cmds := by
    obtain ⟨-, rfl⟩ | ⟨-, rfl⟩ := tcpClientSendMsg_cases hr <;> rfl
  obtain ⟨hqueued, hfailed⟩ := h.toCounted.send hr
  refine ⟨fun hz => ?_, fun hne => ?_⟩
  · obtain ⟨hc, i, hwrites⟩ := hqueued hz
    refine ⟨hc, hcmds ▸ h.frees, fun k hk => ?_, fun req hreq => ?_⟩
    · rw [hwrites, List.length_append, List.length_singleton] at hk
      rw [hcmds]
      exact h.ref k (by omega)
    · rw [hwrites] at hreq
      rcases List.mem_append.mp hreq with hreq | hreq
      · exact h.sends req hreq
      · obtain rfl := List.mem_singleton.mp hreq
        exact ⟨s, rfl, rfl⟩
  · obtain ⟨hc, hwrites⟩ := hfailed hne
    exact ⟨hc, hcmds ▸ h.frees, fun k hk => hcmds ▸ h.ref k (hwrites ▸ hk), hwrites ▸ h.sends⟩

theorem Owned.eraseWrite {k : Nat} {req : WriteReq} (h : Owned w p b n)
    (hk : w.writes[k]? = some req) (hreq : req.packet = p) :
    Owned (w.eraseWrite k) p b (n + 1) := by
  have hlen : ((w.eraseWrite k).writesOf p).length + 1 = (w.writesOf p).length :=
    length_filter_eraseIdx hk (by simpa using hreq)
  exact ⟨h.toCounted.eraseWrite hk hreq, h.frees, fun j hj => h.ref j (by omega),
    fun req hreq => h.sends req (((List.eraseIdx_sublist ..).filter _).subset hreq)⟩

/-! ## Through a run -/

theorem Owned.msgChannel {c : Nat} (h : Owned w p b 1) (hr : w.msgChannel c p = some w') :
    Owned w' p b 1 := by
  have h₁ : Owned (w.mediaClientSendCmd c p).1 p b 1 := by
    cases hs : (w.clients c).session with
    | none =>
        rw [mediaClientSendCmd_none hs]
        exact h
    | some s =>
        obtain ⟨w₁, hsend, hres⟩ := mediaClientSendCmd_some hs (p := p)
        obtain ⟨hz, hne⟩ := h.increaseRef.send hsend
        rw [hres]
        dsimp only
        split
        next huv => exact hz huv
        next huv => exact (hne huv).destroy
  rw [Server.msgChannel] at hr
  dsimp only at hr
  obtain ⟨w₂, henc, hr⟩ := Option.bind_eq_some_iff.mp hr
  have hd := (Does.start (S := { reader := some c })).commonRes (.inr (.inl rfl)) henc
  split at hr
  · obtain rfl := Option.some.inj hr
    exact h₁.spares (h₁.apart.does (by rintro req ⟨⟩) hd.2)
  · obtain rfl := Option.some.inj hr
    exact h₁.spares (h₁.apart.does (by rintro req ⟨⟩) hd.1)

/-- What has just been decoded is the dispatcher's. -/
theorem Apart.owned (h : Apart .none w) {T : NvmpType} {garbage : Values NvmpName} {read : Reader}
    {bytes : List Byte} {len : BitVec 64} {t : NvmpCmd}
    (hdec : (Cmd.init T garbage).decode read (w.heap.receive bytes).2 len = some t) :
    Owned ((w.setHeap (w.heap.receive bytes).1).addCmd t) w.nCmds w.heap.blocks.length 1 := by
  obtain ⟨href, -, hfrees, -⟩ := decode_ledger hdec
  obtain ⟨hc, hnone⟩ := h.made (bytes.map some) t
  have hnone : ((w.setHeap (w.heap.receive bytes).1).addCmd t).writesOf w.nCmds = [] := hnone
  refine ⟨hc, ?_, fun k hk => ?_, fun req hreq => ?_⟩
  · rw [addCmd_cmds, setHeap_nCmds, Function.update_self, hfrees]
    rfl
  · rw [hnone] at hk
    obtain rfl : k = 0 := by simpa using hk.symm
    simpa using href
  · rw [hnone] at hreq
    cases hreq

/-- The dispatcher gives up its part, whatever the handler did. -/
theorem Owned.callImp {fuel c : Nat} {imp : Option CmdImp} (h : Owned w p b 1)
    (hr : w.callImp fuel c p imp = some w') : Owned (w'.protoCmdDestroy p) p b 0 := by
  refine Owned.destroy ?_
  cases imp with
  | none =>
      obtain rfl := Option.some.inj hr
      exact h
  | some imp =>
      cases imp with
      | smtsStartPreview =>
          have hd := (Does.start (S := { join := some c, reader := some c })).smtsStartPreview rfl
            (.inr (.inl rfl)) hr
          exact h.spares (h.apart.does (by rintro req ⟨⟩) hd)
      | mockDvrPreviewImpl => cases hr
      | msgChannel => exact h.msgChannel hr

/-- Later only a write of it concerns the packet. -/
theorem Owned.step {e : Event} (h : Owned w p b 0) (hstep : Step w e w') : Owned w' p b 0 := by
  by_cases he : Completes (.received p b) w e
  · obtain ⟨k, status, req, rfl, hk, rfl⟩ := he
    obtain ⟨-, fuel, hr⟩ := hstep
    obtain ⟨req', hk', hr⟩ := Option.bind_eq_some_iff.mp hr
    obtain rfl := Option.some.inj (hk.symm.trans hk')
    obtain ⟨w₁, hcb, hr⟩ := Option.bind_eq_some_iff.mp hr
    obtain rfl := Option.some.inj hr
    have hmem : req ∈ w.writesOf req.packet :=
      List.mem_filter.mpr ⟨List.mem_of_getElem? hk, by simp⟩
    obtain ⟨s, hs, hcmd⟩ := h.sends req hmem
    rw [sendCb, hs, hcmd] at hcb
    obtain rfl := Option.some.inj hcb
    have h₁ := (h.eraseWrite hk rfl).destroy
    exact h₁.spares (h₁.apart.emit trivial)
  · exact h.spares (h.apart.step he hstep)

end Owned

/-! ## What is not known -/

/-- A buffer that nothing points to was freed. -/
structure Dropped (w : Server) (b : Nat) : Prop where
  apart : Apart (.buffer b) w
  freed : w.log.count (.free (.block ⟨b, 0⟩)) = 1
  start : ∀ q, .free (.block q) ∈ w.log → q.block = b → q = ⟨b, 0⟩

theorem Apart.dropped {w : Server} (h : Apart .none w) (bytes : List Byte) :
    Dropped ((w.setHeap (w.heap.receive bytes).1).emit
      (.free (.block (w.heap.receive bytes).2))) w.heap.blocks.length := by
  have hold : ∀ q, .free (.block q) ∈ w.log → q.block ≠ w.heap.blocks.length := fun q hq heq =>
    absurd (h.logged _ hq).1 (by simp [heq])
  have hg : Grows w ((w.setHeap (w.heap.receive bytes).1).emit
      (.free (.block (w.heap.receive bytes).2))) :=
    ⟨le_rfl, le_rfl, le_rfl, by simp [Heap.receive]⟩
  refine ⟨h.since hg ?_ ?_ ?_ (fun _ _ => rfl) (fun _ _ => rfl) h.written fun o ho => ?_, ?_,
    fun q hq hb => ?_⟩
  · exact fun _ => ⟨False.elim, fun hp => absurd hp.2 (not_lt.mpr hp.1)⟩
  · exact fun _ => ⟨False.elim, fun hf => absurd hf.2 (not_lt.mpr hf.1)⟩
  · intro q
    simp only [Objects.buffer, emit_heap, setHeap_heap, Heap.receive, List.length_append,
      List.length_singleton]
    omega
  · rcases List.mem_append.mp ho with ho | ho
    · exact hg.rest _ (h.logged o ho)
    · obtain rfl := List.mem_singleton.mp ho
      exact ⟨by simp [Heap.receive], id⟩
  · have hnone : w.log.count (.free (.block ⟨w.heap.blocks.length, 0⟩)) = 0 :=
      List.count_eq_zero.mpr fun hmem => hold _ hmem rfl
    simp [hnone, Heap.receive]
  · rcases List.mem_append.mp hq with hq | hq
    · exact absurd hb (hold q hq)
    · simpa [Heap.receive] using hq

theorem Dropped.step {w w' : Server} {b : Nat} {e : Event} (h : Dropped w b)
    (hstep : Step w e w') : Dropped w' b := by
  have hs := h.apart.step (fun ⟨_, _, _, _, _, hV⟩ => hV) hstep
  obtain ⟨m, hlog, hm⟩ := hs.kept.log
  have hnone : m.count (.free (.block ⟨b, 0⟩)) = 0 :=
    List.count_eq_zero.mpr fun hmem => (hm _ hmem).2 rfl
  refine ⟨hs.apart, ?_, fun q hq hb => ?_⟩
  · rw [hlog, List.count_append, h.freed, hnone]
  · rcases List.mem_append.mp (hlog ▸ hq) with hq | hq
    · exact h.start q hq hb
    · exact absurd hb (hm _ hq).2

/-! ## What is passed on -/

/-- The command that is passed on to the DVR: `msg_channel` is its handler. -/
theorem testPTZCmd_imp : ∀ e ∈ protocolMap, e.1.cmd = testPTZCmd.cmd → e.2 = some .msgChannel := by
  decide

section Forward

variable {w w' : Server} {c p : Nat}

theorem protoCmdDestroy_toDvr (w : Server) (p : Nat) :
    ∃ m, (w.protoCmdDestroy p).log = w.log ++ m ∧ m.filter Obs.toDvr = [] :=
  ⟨_, protoCmdDestroy_log w p, by simp [Obs.toDvr]⟩

/-- The packet itself is written to the DVR, once, and nothing else. -/
theorem msgChannel_toDvr {s : Nat} (hs : (w.clients c).session = some s)
    (hr : w.msgChannel c p = some w') :
    ∃ m, w'.log = w.log ++ m ∧ m.filter Obs.toDvr
      = [.uvWrite (.dvr s) p .sendCmdToDvr ((w.cmds p).wire w.heap) (w.uv w.nUv)] ∧
      (w.uv w.nUv = 0 → ⟨w.nWrites, .dvr s, p, .sendCmdToDvr⟩ ∈ w'.writes) := by
  obtain ⟨w₁, hsend, hres⟩ := mediaClientSendCmd_some hs (p := p)
  have hwire : (((w.protoCmdIncreaseRef p).cmds p).wire (w.protoCmdIncreaseRef p).heap)
      = (w.cmds p).wire w.heap := by
    rw [protoCmdIncreaseRef_cmds, Function.update_self]
    rfl
  have hlog₁ := tcpClientSendMsg_log hsend
  rw [hwire] at hlog₁
  -- a write that failed is undone, which writes nothing
  obtain ⟨m₂, hlog₂, hm₂⟩ : ∃ m, (w.mediaClientSendCmd c p).1.log = w₁.log ++ m ∧
      m.filter Obs.toDvr = [] := by
    rw [hres]
    dsimp only
    split
    · exact ⟨[], by simp⟩
    · exact protoCmdDestroy_toDvr w₁ p
  have hwrites : w.uv w.nUv = 0 →
      ⟨w.nWrites, .dvr s, p, .sendCmdToDvr⟩ ∈ (w.mediaClientSendCmd c p).1.writes := fun hz => by
    obtain ⟨-, hw⟩ | ⟨hne, -⟩ := tcpClientSendMsg_cases hsend
    · simp [hres, hz, hw]
    · exact absurd hz hne
  rw [Server.msgChannel] at hr
  dsimp only at hr
  obtain ⟨w₃, henc, hr⟩ := Option.bind_eq_some_iff.mp hr
  generalize hsend₄ : w₃.tcpClientSendMsg (.client c) _ .commonRes = send at hr
  obtain ⟨w₄, r₄⟩ := send
  have hlog₄ := tcpClientSendMsg_log hsend₄
  have hwrites₄ : w₃.writes ⊆ w₄.writes := by
    obtain ⟨-, rfl⟩ | ⟨-, rfl⟩ := tcpClientSendMsg_cases hsend₄
    · exact List.subset_append_left ..
    · exact List.Subset.refl _
  obtain ⟨m₅, hlog₅, hm₅, hwrites₅⟩ : ∃ m, w'.log = w₄.log ++ m ∧ m.filter Obs.toDvr = [] ∧
      w'.writes = w₄.writes := by
    split at hr <;> obtain rfl := Option.some.inj hr
    · obtain ⟨m, hm, hmo⟩ := protoCmdDestroy_toDvr w₄ (w.mediaClientSendCmd c p).1.nCmds
      exact ⟨m, hm, hmo, rfl⟩
    · exact ⟨[], by simp⟩
  let sent : Obs := .uvWrite (.dvr s) p .sendCmdToDvr ((w.cmds p).wire w.heap) (w.uv w.nUv)
  let ack : Obs := .uvWrite (.client c) (w.mediaClientSendCmd c p).1.nCmds .commonRes
    ((w₃.cmds (w.mediaClientSendCmd c p).1.nCmds).wire w₃.heap) r₄
  refine ⟨[sent] ++ m₂ ++ [ack] ++ m₅, ?_, ?_, fun hz => ?_⟩
  · rw [hlog₅, hlog₄, encodeNew_log henc, hlog₂, hlog₁]
    simp [sent, ack]
  · simp only [List.filter_append, hm₂, hm₅]
    rfl
  · rw [hwrites₅]
    exact hwrites₄ (encodeNew_writes henc ▸ hwrites hz)

end Forward

/-! ## Freed once -/

/-- Of the objects `xs`, with the buffer `b`, each is freed once, when the
last write that refers to them has completed and not before. -/
structure FreedOnce (w : Server) (xs : List Obj) (b : Nat) (refers : WriteReq → Prop) : Prop where
  pending : (∃ req ∈ w.writes, refers req) → ∀ x ∈ xs, w.log.count (.free x) = 0
  done : (∀ req ∈ w.writes, ¬ refers req) → ∀ x ∈ xs, w.log.count (.free x) = 1
  start : ∀ q, .free (.block q) ∈ w.log → q.block = b → q = ⟨b, 0⟩

theorem Owned.freedOnce {w : Server} {p b : Nat} (h : Owned w p b 0) :
    FreedOnce w (objects p b) b fun req => req.packet = p ∨ (w.cmds req.packet).Uses b := by
  have hiff : ∀ req ∈ w.writes, (req.packet = p ∨ (w.cmds req.packet).Uses b) →
      req ∈ w.writesOf p := fun req hreq hrefers => by
    refine List.mem_filter.mpr ⟨hreq, ?_⟩
    rcases hrefers with heq | huses
    · simpa using heq
    · have heq : req.packet = p := h.apart.uses_of_write hreq rfl huses
      simpa using heq
  refine ⟨fun ⟨req, hreq, hrefers⟩ x hx => ?_, fun hnone x hx => ?_, fun q hq hb => ?_⟩
  · have hpos := List.length_pos_of_mem (hiff req hreq hrefers)
    rw [h.freed x hx, if_neg (by omega)]
  · have hnil : w.writesOf p = [] := List.filter_eq_nil_iff.mpr fun req hreq heq =>
      hnone req hreq (.inl (by simpa using heq))
    rw [h.freed x hx, hnil]
    rfl
  · have hoff := h.start q hq hb
    rw [← hb, ← hoff]

theorem Dropped.freedOnce {w : Server} {b : Nat} (h : Dropped w b) :
    FreedOnce w [.block ⟨b, 0⟩] b fun req => (w.cmds req.packet).Uses b := by
  refine ⟨fun ⟨req, hreq, huses⟩ => (h.apart.uses_of_write hreq rfl huses).elim,
    fun _ x hx => ?_, h.start⟩
  obtain rfl := List.mem_singleton.mp hx
  exact h.freed

/-- **A received packet is freed once**, not before the writes that refer to
it have completed, whatever its handler did and whatever happens later; and
what is passed on to a DVR is what was received. -/
theorem received_freedOnce {uv : Nat → Int} {garbage : Nat → Values NvmpName} {es es' : List Event}
    {w w₁ w₂ : Server} {c : Nat} {bytes : List Byte} {junk : Int → Byte}
    (h : Transition.Run Step (init uv garbage) es w) (hstep : Step w (.packet c bytes junk) w₁)
    (hrun : Transition.Run Step w₁ es' w₂) :
    let p := w.nCmds
    let b := w.heap.blocks.length
    let decoded := dispatchDecode (Reader.beyond bytes junk) (w.heap.receive bytes).2
      (BitVec.ofNat 64 bytes.length) (w.garbage p)
    ((decoded = some none ∧
        FreedOnce w₂ [.block ⟨b, 0⟩] b fun req => (w₂.cmds req.packet).Uses b) ∨
      ∃ t imp, decoded = some (some (t, imp)) ∧
        FreedOnce w₂ (objects p b) b fun req => req.packet = p ∨ (w₂.cmds req.packet).Uses b) ∧
    ∀ s, decodeInt32 (Reader.beyond bytes junk) 4 = some testPTZCmd.cmd →
      (w.clients c).session = some s →
      ∃ m r, w₁.log = w.log ++ m ∧
        m.filter Obs.toDvr = [.uvWrite (.dvr s) p .sendCmdToDvr (some bytes) r] ∧
        (r = 0 → ⟨w.nWrites, .dvr s, p, .sendCmdToDvr⟩ ∈ w₁.writes) := by
  intro p b decoded
  have hapart := apart_of_run h
  obtain ⟨⟨-, -, -, -, hmax, -⟩, fuel, hr⟩ := hstep
  obtain ⟨hdec, rfl⟩ | ⟨t, imp, w', hdec, himp, rfl⟩ := dispatchPacket_cases hr
  · refine ⟨.inl ⟨hdec, ?_⟩, fun s hptz _ => absurd hdec (dispatchDecode_known hptz (by decide))⟩
    exact (hrun.invariant (I := fun w => Dropped w b) (fun _ _ _ hd hstep => hd.step hstep)
      (hapart.dropped bytes)).freedOnce
  · obtain ⟨T, hT, hcmd, hdecode⟩ := dispatchDecode_spec hdec
    have howned := hapart.owned hdecode
    refine ⟨.inr ⟨t, imp, hdec, ?_⟩, fun s hptz hs => ?_⟩
    · exact (hrun.invariant (I := fun w => Owned w p b 0) (fun _ _ _ ho hstep => ho.step hstep)
        (howned.callImp himp)).freedOnce
    -- the handler of the PTZ command is the transparent channel
    · obtain rfl : imp = some .msgChannel :=
        testPTZCmd_imp _ hT (Option.some.inj (hcmd.symm.trans hptz))
      have himp : ((w.setHeap (w.heap.receive bytes).1).addCmd t).msgChannel c w.nCmds = some w' :=
        himp
      have hs : (((w.setHeap (w.heap.receive bytes).1).addCmd t).clients c).session = some s := hs
      obtain ⟨m, hlog, hm, hqueue⟩ := msgChannel_toDvr hs himp
      obtain ⟨m', hlog', hm'⟩ := protoCmdDestroy_toDvr w' w.nCmds
      have hwire : t.wire (w.heap.receive bytes).1 = some bytes := by
        refine decode_wire (b := w.heap.blocks.length) (by simp [Heap.receive]) ?_ hdecode
        exact lt_of_le_of_lt hmax (by decide)
      have hlog : w'.log = w.log ++ m := hlog
      simp only [addCmd_cmds, setHeap_nCmds, Function.update_self, addCmd_heap, setHeap_heap, hwire]
        at hm
      refine ⟨m ++ m', w.uv w.nUv, ?_, ?_, hqueue⟩
      · rw [hlog', hlog, List.append_assoc]
      · rw [List.filter_append, hm, hm', List.append_nil]
        rfl

/-- A client that has asked for a preview sends a command: it waits for the
DVR, and its buffer with it. -/
theorem received_freedOnce_zeroPTZCmd :
    ∃ w w₁, connected0.handle 2 preview0 = some w ∧
      w.handle 2 (.packet 0 zeroPTZCmd fun _ => 0) = some w₁ ∧
      ∃ m r, w₁.log = w.log ++ m ∧ m.filter Obs.toDvr
        = [.uvWrite (.dvr 0) w.nCmds .sendCmdToDvr (some zeroPTZCmd) r] := by
  obtain ⟨w, hw⟩ : ∃ w, connected0.handle 2 preview0 = some w :=
    Option.isSome_iff_exists.mp (by decide +kernel)
  obtain ⟨w₁, hw₁⟩ : ∃ w₁, w.handle 2 (.packet 0 zeroPTZCmd fun _ => 0) = some w₁ := by
    have hsome : ((connected0.handle 2 preview0).bind fun w =>
        w.handle 2 (.packet 0 zeroPTZCmd fun _ => 0)).isSome := by
      decide +kernel
    rw [hw, Option.bind_some] at hsome
    exact Option.isSome_iff_exists.mp hsome
  have hval : (connected0.handle 2 preview0).map (fun w =>
      (w.nClients, (w.clients 0).reading, (w.clients 0).closing, (w.clients 0).session))
      = some (1, true, false, some 0) := by
    decide +kernel
  rw [hw] at hval
  obtain ⟨hn, hreading, hclosing, hs⟩ := by simpa using hval
  have hrun : Transition.Run Step (init (fun _ => 0) fun _ => Values.zero) [.connection, preview0] w :=
    .snoc (.snoc .refl connected0_step) ⟨connected0_enabled, 2, hw⟩
  have hstep : Step w (.packet 0 zeroPTZCmd fun _ => 0) w₁ :=
    ⟨⟨by omega, hreading, hclosing, by decide +kernel, by decide +kernel, by decide +kernel⟩, 2, hw₁⟩
  obtain ⟨m, r, hlog, hm, -⟩ := (received_freedOnce hrun hstep .refl).2 0 (by decide +kernel) hs
  exact ⟨w, w₁, hw, hw₁, m, r, hlog, hm⟩

end Server

end Smts
