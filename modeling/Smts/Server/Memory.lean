import Smts.Server.Frames
import Smts.Server.Requests
import Smts.Server.Reuse
import Smts.Server.Startup

/-!
# Server — what becomes of memory

What a callback allocates for packets and frames falls into groups: the packet
that was received with its buffer, a response with its buffer, a frame with
the packet it came in and the response that carries it. Nothing outside a
group points into it but the writes of its packets, so that each group can be
followed on its own to its end, and together they are all there is.
-/

namespace Smts

open Circular

/-- Packets, frames and buffers that there are in `P`. -/
def Objects.Has (P : Objects) : Obj → Prop
  | .slots p | .cmd p => P.packets p
  | .frame f => P.frames f
  | .block q => P.blocks q.block ∧ q.off = 0
  | _ => False

namespace Server

/-! ## What a packet keeps -/

/-- What a write of the packet `p` needs until it completes: the packet, the
frame it carries with the packet behind it, and the buffers of both. -/
def Holds (w : Server) (p : Nat) : Obj → Prop
  | .slots q | .cmd q => q = p ∨ ∃ f, (w.cmds p).data = some f ∧ (w.frames f).data = q
  | .frame f => (w.cmds p).data = some f
  | .block q => (w.cmds p).Uses q.block ∨
      ∃ f, (w.cmds p).data = some f ∧ (w.cmds (w.frames f).data).Uses q.block
  | _ => False

/-- The preview command `p` could not be written to the DVR. -/
def Failed (w : Server) (p : Nat) : Prop :=
  ∃ s bytes r, r ≠ 0 ∧ .uvWrite (.dvr s) p .dvrPreview bytes r ∈ w.log

/-- `p` was not given to `uv_write` or `smts_client_send_frame` on the way. -/
def Unused (p : Nat) (w w' : Server) : Prop :=
  ∃ m, w'.log = w.log ++ m ∧ ∀ o ∈ m, o.packet? ≠ some p

section Unused

variable {V : Objects} {w w' : Server} {p : Nat}

theorem Unused.failed_iff (h : Unused p w w') : w'.Failed p ↔ w.Failed p := by
  obtain ⟨m, hlog, hm⟩ := h
  constructor
  · intro ⟨s, bytes, r, hr, hmem⟩
    rw [hlog] at hmem
    rcases List.mem_append.mp hmem with hmem | hmem
    · exact ⟨s, bytes, r, hr, hmem⟩
    · exact absurd rfl (hm _ hmem)
  · intro ⟨s, bytes, r, hr, hmem⟩
    exact ⟨s, bytes, r, hr, hlog ▸ List.mem_append_left _ hmem⟩

theorem Unused.never (h : Unused p w w') (hp : ∀ o ∈ w.log, o.packet? ≠ some p) :
    ∀ o ∈ w'.log, o.packet? ≠ some p := by
  obtain ⟨m, hlog, hm⟩ := h
  intro o ho
  rw [hlog] at ho
  exact (List.mem_append.mp ho).elim (hp o) (hm o)

theorem Unused.trans {v : Server} (h : Unused p w v) (h' : Unused p v w') : Unused p w w' := by
  obtain ⟨m, hlog, hm⟩ := h
  obtain ⟨m', hlog', hm'⟩ := h'
  refine ⟨m ++ m', by rw [hlog', hlog, List.append_assoc], fun o ho => ?_⟩
  exact (List.mem_append.mp ho).elim (hm o) (hm' o)

theorem Spares.unused (h : Spares V w w') (hp : V.packets p) : Unused p w w' := by
  obtain ⟨m, hlog, hm⟩ := h.kept.log
  refine ⟨m, hlog, fun o ho heq => ?_⟩
  exact ((Objects.within_iff_packet _ heq).2.mp (hm o ho)).2 hp

theorem NetOnly.unused (h : NetOnly w w') (p : Nat) : Unused p w w' := by
  obtain ⟨m, hlog, hm⟩ := h.log
  refine ⟨m, hlog, fun o ho heq => ?_⟩
  have hmem := ((Objects.none).within_iff_packet heq).1
  rw [hm o ho] at hmem
  cases hmem

theorem protoCmdDestroy_unused (w : Server) (p q : Nat) : Unused q w (w.protoCmdDestroy p) := by
  refine ⟨_, protoCmdDestroy_log w p, fun o ho => ?_⟩
  obtain ⟨x, -, rfl⟩ := List.mem_map.mp ho
  simp [Obs.packet?]

theorem destroySmtsFrame_unused (w : Server) (f q : Nat) : Unused q w (w.destroySmtsFrame f) :=
  (protoCmdDestroy_unused w _ q).trans ⟨[.free (.frame f)], rfl, by simp [Obs.packet?]⟩

theorem onSmtsClientSendFrame_unused {q : Nat} (h : w.onSmtsClientSendFrame p = some w') :
    Unused q w w' := by
  have hset : Unused q w (w.setCmd p { w.cmds p with ref := (w.cmds p).ref - 1 }) :=
    ⟨[], by simp, by simp⟩
  obtain ⟨-, rfl⟩ | ⟨-, f, -, rfl⟩ := onSmtsClientSendFrame_cases h
  · exact hset
  · exact (hset.trans (protoCmdDestroy_unused _ p q)).trans (destroySmtsFrame_unused _ f q)

theorem tcpClientSendMsg_unused {t : Target} {cb : SendCb} {r : Int} {q : Nat} (hq : q ≠ p)
    (hr : w.tcpClientSendMsg t p cb = (w', r)) : Unused q w w' := by
  refine ⟨_, tcpClientSendMsg_log hr, fun o ho heq => ?_⟩
  obtain rfl := List.mem_singleton.mp ho
  exact hq (Option.some.inj heq).symm

/-- The log speaks of no packet that has not been made yet. -/
theorem Apart.unused_new (h : Apart .none w) (hp : w.nCmds ≤ p) : ∀ o ∈ w.log, o.packet? ≠ some p := by
  intro o ho heq
  have hlt := ((Objects.within_iff_packet _ heq).2.mp (h.logged o ho)).1
  exact absurd hlt (Nat.not_lt.mpr hp)

/-- A callback uses no packet but its own. -/
theorem Action.unused {S : Scope} {w₀ : Server} (ha : Action S w₀ w w') (hp : ¬ S.Owns w₀ w p) :
    Unused p w w' := by
  have hsame : ∀ {v : Server}, v.log = w.log → Unused p w v := fun hlog =>
    ⟨[], by rw [hlog, List.append_nil], by simp⟩
  cases ha with
  | uvCall hr => exact (NetOnly.uvCall hr).unused p
  | emit hmem _ _ _ => exact (NetOnly.emit w hmem).unused p
  | encodeNew _ _ _ hr => exact hsame (encodeNew_log hr)
  | receive _ => exact hsame (by simp)
  | drop bytes => exact ⟨[.free (.block (w.heap.receive bytes).2)], by simp, by simp [Obs.packet?]⟩
  | addFrame _ _ => exact hsame (by simp)
  | increaseRef _ => exact hsame (by simp)
  | addRef _ _ => exact hsame (by simp)
  | destroy _ => exact protoCmdDestroy_unused w _ p
  | dropRef _ hr => exact onSmtsClientSendFrame_unused hr
  | destroyFrame _ _ => exact destroySmtsFrame_unused w _ p
  | send hq _ _ _ hr =>
      -- what is written is the callback's own, and `p` is not
      refine ⟨_, tcpClientSendMsg_log hr, fun o ho heq => ?_⟩
      obtain rfl := List.mem_singleton.mp ho
      exact hp (Option.some.inj heq ▸ hq)
  | sendPreviewRes hq _ _ hr =>
      refine ⟨_, (tcpClientSendMsg_log hr).trans rfl, fun o ho heq => ?_⟩
      obtain rfl := List.mem_singleton.mp ho
      exact hp (Option.some.inj heq ▸ hq)
  | complete _ _ _ => exact hsame (by simp)
  | @previewResDone k req c _ _ _ _ =>
      have herase : Unused p w (w.eraseWrite k) := hsame (by simp)
      refine (herase.trans (protoCmdDestroy_unused _ req.packet p)).trans ?_
      exact ⟨[.previewResDone c], by simp, by simp [Obs.packet?]⟩
  | relay _ ho =>
      refine ⟨[_], rfl, fun o hmem heq => ?_⟩
      obtain rfl := List.mem_singleton.mp hmem
      obtain ⟨s, f, rfl⟩ | ⟨c, f, rfl⟩ | ⟨c, q, rfl, hq⟩ := ho
      · cases heq
      · cases heq
      · exact hp (Option.some.inj heq ▸ hq)
  | stop _ => exact (NetOnly.stopSmtsClient w _).unused p
  | touch _ => exact hsame (by simp)
  | delete hr => exact (NetOnly.deleteSession hr).unused p
  | initClient _ => exact (NetOnly.initSmtsClient w).unused p
  | startRead _ c => exact hsame (by simp)
  | close _ _ => exact (NetOnly.closeClient w _).unused p
  | closed _ => exact (NetOnly.clientCloseCb w _).unused p
  | initSession _ key => exact (NetOnly.initMediaSession w key).unused p
  | attach _ s => exact (NetOnly.addSmtsClient w s _).unused p
  | manage _ m => exact hsame rfl
  | abort _ s => exact (NetOnly.initSessionError w s _).unused p

theorem Does.unused {S : Scope} {w₀ : Server} (hd : Does S w₀ w) (hp : ¬ S.Owns w₀ w p) :
    Unused p w₀ w := by
  induction hd with
  | start => exact ⟨[], by simp, by simp⟩
  | @step v _ hd ha ih =>
      have hp' : ¬ S.Owns w₀ v p := fun howns => hp (howns.mono ha.grows.nCmds)
      exact (ih hp').trans (ha.unused hp')

/-- A callback that completes no write uses new packets only. -/
theorem Does.unused_old {S : Scope} {w₀ : Server} (hd : Does S w₀ w) (hS : S.write = none)
    (hp : p < w₀.nCmds) : Unused p w₀ w := by
  refine hd.unused fun howns => ?_
  obtain ⟨req, hreq, -⟩ | ⟨hge, -⟩ := howns
  · rw [hS] at hreq
    cases hreq
  · omega

theorem not_failed_of_unused (hp : ∀ o ∈ w.log, o.packet? ≠ some p) : ¬ w.Failed p := by
  intro ⟨_, _, _, _, hmem⟩
  exact hp _ hmem rfl

end Unused

/-! ## Responses -/

/-- The response `p` in buffer `b` has `n` owners besides the write of it. -/
structure Answered (w : Server) (p b n : Nat) : Prop
    extends Counted (.received p b) p (objects p b) w n where
  frees : (w.cmds p).frees = [.block ⟨b, 0⟩, .slots, .struct]
  ref : (w.cmds p).ref = 0
  sends : ∀ req ∈ w.writesOf p, ∃ c, req.client = .client c ∧
    (req.cb = .previewResSlient ∨ req.cb = .errorPreviewRes ∨ req.cb = .commonRes)
  owners : n + (w.writesOf p).length ≤ 1

section Answered

variable {w w' : Server} {p b n c : Nat}

theorem Answered.spares (h : Answered w p b n) (hs : Spares (.received p b) w w') :
    Answered w' p b n := by
  have hcmd : w'.cmds p = w.cmds p := hs.kept.cmds p rfl
  have hwrites : w'.writesOf p = w.writesOf p := hs.kept.writes p rfl
  exact ⟨h.toCounted.spares hs, hcmd ▸ h.frees, hcmd ▸ h.ref, hwrites ▸ h.sends, hwrites ▸ h.owners⟩

/-- Without a write it is freed at once. -/
theorem Answered.destroy (h : Answered w p b 1) : Answered (w.protoCmdDestroy p) p b 0 := by
  have howners := h.owners
  have hnil : w.writesOf p = [] := List.eq_nil_of_length_eq_zero (by omega)
  have hcmds : (w.protoCmdDestroy p).cmds = w.cmds := by rw [protoCmdDestroy_last h.ref]
  have hnil' : (w.protoCmdDestroy p).writesOf p = [] := hnil
  exact ⟨h.toCounted.destroy h.frees h.ref hnil, hcmds ▸ h.frees, hcmds ▸ h.ref, by simp [hnil'],
    by simp [hnil']⟩

theorem Answered.send {cb : SendCb} {r : Int} (h : Answered w p b 1)
    (hcb : cb = .previewResSlient ∨ cb = .errorPreviewRes ∨ cb = .commonRes)
    (hr : w.tcpClientSendMsg (.client c) p cb = (w', r)) :
    (r = 0 → Answered w' p b 0) ∧ (r ≠ 0 → Answered w' p b 1) := by
  have howners := h.owners
  have hnil : w.writesOf p = [] := List.eq_nil_of_length_eq_zero (by omega)
  have hcmds : w'.cmds = w.cmds := by
    obtain ⟨-, rfl⟩ | ⟨-, rfl⟩ := tcpClientSendMsg_cases hr <;> rfl
  obtain ⟨hqueued, hfailed⟩ := h.toCounted.send hr
  constructor
  · intro hz
    obtain ⟨hc, i, hwrites⟩ := hqueued hz
    rw [hnil, List.nil_append] at hwrites
    refine ⟨hc, hcmds ▸ h.frees, hcmds ▸ h.ref, fun req hreq => ?_, by simp [hwrites]⟩
    rw [hwrites] at hreq
    obtain rfl := List.mem_singleton.mp hreq
    exact ⟨c, rfl, hcb⟩
  · intro hne
    obtain ⟨hc, hwrites⟩ := hfailed hne
    exact ⟨hc, hcmds ▸ h.frees, hcmds ▸ h.ref, hwrites ▸ h.sends, hwrites ▸ h.owners⟩

/-- Later only the write of it concerns the response. -/
theorem Answered.step {e : Event} (h : Answered w p b 0) (hstep : Step w e w') :
    Answered w' p b 0 := by
  by_cases he : Completes (.received p b) w e
  · obtain ⟨k, status, req, rfl, hk, rfl⟩ := he
    obtain ⟨-, fuel, hr⟩ := hstep
    obtain ⟨req', hk', hr⟩ := Option.bind_eq_some_iff.mp hr
    obtain rfl := Option.some.inj (hk.symm.trans hk')
    obtain ⟨w₁, hcb, hr⟩ := Option.bind_eq_some_iff.mp hr
    obtain rfl := Option.some.inj hr
    have hmem : req ∈ w.writesOf req.packet :=
      List.mem_filter.mpr ⟨List.mem_of_getElem? hk, by simp⟩
    have hlen : ((w.eraseWrite k).writesOf req.packet).length + 1 = (w.writesOf req.packet).length :=
      length_filter_eraseIdx hk (by simp)
    have howners := h.owners
    have hnil : (w.eraseWrite k).writesOf req.packet = [] :=
      List.eq_nil_of_length_eq_zero (by omega)
    have herased : Answered (w.eraseWrite k) req.packet b 1 :=
      ⟨h.toCounted.eraseWrite hk rfl, h.frees, h.ref, by simp [hnil], by simp [hnil]⟩
    have h₁ := herased.destroy
    -- what follows in each of the callbacks is the client's business only
    have hnet : NetOnly ((w.eraseWrite k).protoCmdDestroy req.packet) w₁ ∧
        w₁.nSessions = w.nSessions := by
      obtain ⟨c, hc, hcb' | hcb' | hcb'⟩ := h.sends req hmem <;> rw [sendCb, hc, hcb'] at hcb <;>
        obtain rfl := Option.some.inj hcb
      · exact ⟨(NetOnly.emit _ rfl).trans (.setClient _ c _), rfl⟩
      · exact ⟨.stopSmtsClient _ c, stopSmtsClient_nSessions _ c⟩
      · exact ⟨⟨rfl, rfl, rfl, rfl, rfl, rfl, [], by simp, by simp⟩, rfl⟩
    have h₂ := h₁.spares (h₁.apart.netOnly hnet.1 hnet.2.ge)
    exact h₂.spares (h₂.apart.emit trivial)
  · exact h.spares (h.apart.step he hstep)

end Answered

/-! ## Groups -/

/-- A group of objects when no callback is at work on it, with what there is
in it to be freed. -/
inductive Group (w : Server) : Objects → List Obj → Prop
  | passed {p b : Nat} (h : Owned w p b 0) (hp : ¬ w.Failed p) :
      Group w (.received p b) (objects p b)
  | asked {p b n : Nat} (h : Previewed w p b n) (hp : n ≠ 0 ↔ w.Failed p) :
      Group w (.received p b) (objects p b)
  | answered {p b : Nat} (h : Answered w p b 0) (hp : ¬ w.Failed p) :
      Group w (.received p b) (objects p b)
  | relayed {d f b : Nat} (h : Shared w d f b 0) (hd : ∀ o ∈ w.log, o.packet? ≠ some d)
      (hp : ¬ w.Failed (d + 1)) : Group w (.relayed d f b) (resObjects d f b)
  | unshared {d f b : Nat} (h : Unshared w d f b) (hd : ∀ o ∈ w.log, o.packet? ≠ some d) :
      Group w (.arrived d f b) (frameObjects d f b)
  | dropped {b : Nat} (h : Dropped w b) : Group w (.buffer b) [.block ⟨b, 0⟩]

section Group

variable {V : Objects} {xs : List Obj} {w w' : Server} {e : Event}

theorem Group.apart (h : Group w V xs) : Apart V w := by
  cases h with
  | passed h _ => exact h.apart
  | asked h _ => exact h.apart
  | answered h _ => exact h.apart
  | relayed h _ _ => exact h.apart
  | unshared h _ => exact h.apart
  | dropped h => exact h.apart

theorem Dropped.spares {b : Nat} (h : Dropped w b) (hs : Spares (.buffer b) w w') :
    Dropped w' b := by
  obtain ⟨m, hlog, hm⟩ := hs.kept.log
  have hnone : ∀ q, .free (.block q) ∈ m → q.block ≠ b := fun q hq => (hm _ hq).2
  refine ⟨hs.apart, ?_, fun q hq hb => ?_⟩
  · rw [hlog, List.count_append, h.freed, List.count_eq_zero.mpr fun hmem => hnone _ hmem rfl]
  · rw [hlog] at hq
    rcases List.mem_append.mp hq with hq | hq
    · exact h.start q hq hb
    · exact absurd hb (hnone q hq)

theorem Group.spares (h : Group w V xs) (hs : Spares V w w') : Group w' V xs := by
  cases h with
  | passed h hp => exact .passed (h.spares hs) ((hs.unused rfl).failed_iff.not.mpr hp)
  | asked h hp => exact .asked (h.spares hs) (hp.trans (hs.unused rfl).failed_iff.symm)
  | answered h hp => exact .answered (h.spares hs) ((hs.unused rfl).failed_iff.not.mpr hp)
  | relayed h hd hp =>
      exact .relayed (h.spares hs) ((hs.unused (.inl rfl)).never hd)
        ((hs.unused (.inr rfl)).failed_iff.not.mpr hp)
  | unshared h hd =>
      have halone := (hs.kept.writes _ rfl).trans h.alone
      exact .unshared ⟨h.toCounted.spares hs, halone⟩ ((hs.unused rfl).never hd)
  | dropped h => exact .dropped (h.spares hs)

end Group

/-! ## What is made on the way -/

/-- What was made since `w` is in groups that were. -/
structure Grouped (w w' : Server) : Prop where
  packets : ∀ p, w.nCmds ≤ p → p < w'.nCmds →
    ∃ V xs, Group w' V xs ∧ (∀ q, V.packets q → w.nCmds ≤ q) ∧ V.packets p
  frames : ∀ f, w.nFrames ≤ f → f < w'.nFrames →
    ∃ V xs, Group w' V xs ∧ (∀ q, V.packets q → w.nCmds ≤ q) ∧ V.frames f
  blocks : ∀ b, w.heap.blocks.length ≤ b → b < w'.heap.blocks.length →
    ∃ V xs, Group w' V xs ∧ (∀ q, V.packets q → w.nCmds ≤ q) ∧ V.blocks b

/-- What was made is in groups, and no group that was there before has been
touched. -/
structure Tidy (w w' : Server) : Prop extends Grouped w w' where
  spares : ∀ V, Apart V w → Spares V w w'

section Tidy

variable {w v w' : Server}

/-- When nothing was allocated there is nothing to be grouped. -/
theorem Grouped.of_eq (hn : w'.nCmds = w.nCmds) (hf : w'.nFrames = w.nFrames)
    (hb : w'.heap = w.heap) : Grouped w w' where
  packets _ hge hlt := absurd (hn ▸ hlt) (Nat.not_lt.mpr hge)
  frames _ hge hlt := absurd (hf ▸ hlt) (Nat.not_lt.mpr hge)
  blocks _ hge hlt := absurd (hb ▸ hlt) (Nat.not_lt.mpr hge)

theorem Grouped.congr_left (h : Grouped v w') (hn : v.nCmds = w.nCmds) (hf : v.nFrames = w.nFrames)
    (hb : v.heap = w.heap) : Grouped w w' :=
  ⟨hn ▸ h.packets, by rw [← hn, ← hf]; exact h.frames, by rw [← hn, ← hb]; exact h.blocks⟩

/-- If all that a callback made is one group, it is grouped. -/
theorem Grouped.of_group {V : Objects} {xs : List Obj} (h : Group w' V xs)
    (hp : ∀ p, V.packets p ↔ w.nCmds ≤ p ∧ p < w'.nCmds)
    (hf : ∀ f, V.frames f ↔ w.nFrames ≤ f ∧ f < w'.nFrames)
    (hb : ∀ b, V.blocks b ↔ w.heap.blocks.length ≤ b ∧ b < w'.heap.blocks.length) :
    Grouped w w' where
  packets p hge hlt := ⟨V, xs, h, fun q hq => ((hp q).mp hq).1, (hp p).mpr ⟨hge, hlt⟩⟩
  frames f hge hlt := ⟨V, xs, h, fun q hq => ((hp q).mp hq).1, (hf f).mpr ⟨hge, hlt⟩⟩
  blocks b hge hlt := ⟨V, xs, h, fun q hq => ((hp q).mp hq).1, (hb b).mpr ⟨hge, hlt⟩⟩

/-- One packet is made, with a buffer, before all else. -/
theorem Grouped.received {xs : List Obj} (h : Grouped v w')
    (hV : Group w' (.received w.nCmds w.heap.blocks.length) xs) (hn : v.nCmds = w.nCmds + 1)
    (hf : v.nFrames = w.nFrames) (hb : v.heap.blocks.length = w.heap.blocks.length + 1) :
    Grouped w w' := by
  refine ⟨fun p hge hlt => ?_, fun f hge hlt => ?_, fun b hge hlt => ?_⟩
  · by_cases hp : p = w.nCmds
    · exact ⟨_, _, hV, fun _ hq => hq.ge, hp⟩
    · obtain ⟨W, ys, hW, hnew, hp⟩ := h.packets p (by omega) hlt
      exact ⟨W, ys, hW, fun q hq => by have := hnew q hq; omega, hp⟩
  · obtain ⟨W, ys, hW, hnew, hf⟩ := h.frames f (by omega) hlt
    exact ⟨W, ys, hW, fun q hq => by have := hnew q hq; omega, hf⟩
  · by_cases hb' : b = w.heap.blocks.length
    · exact ⟨_, _, hV, fun _ hq => hq.ge, hb'⟩
    · obtain ⟨W, ys, hW, hnew, hb⟩ := h.blocks b (by omega) hlt
      exact ⟨W, ys, hW, fun q hq => by have := hnew q hq; omega, hb⟩

theorem Grouped.trans (h : Grouped w v) (hle : w.nCmds ≤ v.nCmds) (h' : Grouped v w')
    (hspares : ∀ V xs, Group v V xs → (∀ q, V.packets q → w.nCmds ≤ q) → Spares V v w') :
    Grouped w w' := by
  have hkeep : ∀ {V xs}, Group v V xs → (∀ q, V.packets q → w.nCmds ≤ q) → Group w' V xs :=
    fun hV hnew => hV.spares (hspares _ _ hV hnew)
  refine ⟨fun p hge hlt => ?_, fun f hge hlt => ?_, fun b hge hlt => ?_⟩
  · by_cases hp : p < v.nCmds
    · obtain ⟨V, xs, hV, hnew, hp⟩ := h.packets p hge hp
      exact ⟨V, xs, hkeep hV hnew, hnew, hp⟩
    · obtain ⟨V, xs, hV, hnew, hp⟩ := h'.packets p (Nat.not_lt.mp hp) hlt
      exact ⟨V, xs, hV, fun q hq => hle.trans (hnew q hq), hp⟩
  · by_cases hf : f < v.nFrames
    · obtain ⟨V, xs, hV, hnew, hf⟩ := h.frames f hge hf
      exact ⟨V, xs, hkeep hV hnew, hnew, hf⟩
    · obtain ⟨V, xs, hV, hnew, hf⟩ := h'.frames f (Nat.not_lt.mp hf) hlt
      exact ⟨V, xs, hV, fun q hq => hle.trans (hnew q hq), hf⟩
  · by_cases hb : b < v.heap.blocks.length
    · obtain ⟨V, xs, hV, hnew, hb⟩ := h.blocks b hge hb
      exact ⟨V, xs, hkeep hV hnew, hnew, hb⟩
    · obtain ⟨V, xs, hV, hnew, hb⟩ := h'.blocks b (Nat.not_lt.mp hb) hlt
      exact ⟨V, xs, hV, fun q hq => hle.trans (hnew q hq), hb⟩

theorem Tidy.refl (w : Server) : Tidy w w := ⟨.of_eq rfl rfl rfl, fun _ h => .refl h⟩

theorem Tidy.netOnly (h : NetOnly w w') (hs : w.nSessions ≤ w'.nSessions) : Tidy w w' :=
  ⟨.of_eq h.nCmds h.nFrames h.heap, fun _ hV => hV.netOnly h hs⟩

theorem Grouped.tidy (h : Grouped w v) (hle : w.nCmds ≤ v.nCmds) (h' : Tidy v w') :
    Grouped w w' :=
  h.trans hle h'.toGrouped fun V _ hV _ => h'.spares V hV.apart

theorem Tidy.apart (h : Tidy w w') (hw : Apart .none w) : Apart .none w' := (h.spares _ hw).apart

theorem Tidy.trans (hw : Apart .none w) (h : Tidy w v) (h' : Tidy v w') : Tidy w w' where
  toGrouped := h.toGrouped.tidy (h.spares _ hw).grows.nCmds h'
  spares V hV := (h.spares V hV).trans (h'.spares V (h.spares V hV).apart)

/-- What a part of a callback leaves alone. -/
theorem Grouped.tidy_of_does {S : Scope} (h : Grouped w w') (hd : Does S w w')
    (hS : S.write = none) : Tidy w w' where
  toGrouped := h
  spares V hV := hV.does (by simp [hS]) hd

/-- A response is made and sent, or freed. -/
theorem Grouped.respond {t : NvmpCmd} {cb : SendCb} {c : Nat} {r : Int} {u : Server}
    (h : Apart .none w) (hT : t.type ∈ payloadFreeTypes) (henc : w.encodeNew t = some v)
    (hnet : NetOnly v u) (hs : v.nSessions ≤ u.nSessions)
    (hcb : cb = .previewResSlient ∨ cb = .errorPreviewRes ∨ cb = .commonRes)
    (hsend : u.tcpClientSendMsg (.client c) w.nCmds cb = (w', r)) :
    (r = 0 → Grouped w w') ∧ (r ≠ 0 → Grouped w (w'.protoCmdDestroy w.nCmds)) := by
  obtain ⟨block, t', rfl, -, -, href, hfrees, -⟩ := encodeNew_spec (payloadFree_spec hT).1 henc
  obtain ⟨hmade, hnone⟩ := h.made block t'
  let v := (w.setHeap ⟨w.heap.blocks ++ [block]⟩).addCmd t'
  have hcmd : v.cmds w.nCmds = t' := Function.update_self ..
  have hnone : v.writesOf w.nCmds = [] := hnone
  have hv : Answered v w.nCmds w.heap.blocks.length 1 :=
    ⟨hmade, by rw [hcmd, hfrees], by rw [hcmd, href], by simp [hnone], by simp [hnone]⟩
  have hu : Answered u w.nCmds w.heap.blocks.length 1 := hv.spares (hv.apart.netOnly hnet hs)
  obtain ⟨hz, hne⟩ := hu.send hcb hsend
  have hn : w'.nCmds = w.nCmds + 1 := (tcpClientSendMsg_nCmds hsend).trans hnet.nCmds
  have hf : w'.nFrames = w.nFrames := by
    obtain ⟨-, rfl⟩ | ⟨-, rfl⟩ := tcpClientSendMsg_cases hsend <;> exact hnet.nFrames
  have hb : w'.heap.blocks.length = w.heap.blocks.length + 1 := by
    have hheap : w'.heap = v.heap := by
      obtain ⟨-, rfl⟩ | ⟨-, rfl⟩ := tcpClientSendMsg_cases hsend <;> exact hnet.heap
    rw [hheap]
    exact List.length_append
  -- what was written of it was written to a client
  have hp : ¬ w'.Failed w.nCmds := by
    have hunused : ∀ o ∈ u.log, o.packet? ≠ some w.nCmds :=
      (hnet.unused _).never (h.unused_new le_rfl)
    rintro ⟨s, bytes, r', -, hmem⟩
    rw [tcpClientSendMsg_log hsend] at hmem
    rcases List.mem_append.mp hmem with hmem | hmem
    · exact hunused _ hmem rfl
    · simp at hmem
  have hnil : Grouped w' w' := .of_eq rfl rfl rfl
  refine ⟨fun hr => hnil.received (.answered (hz hr) hp) hn hf hb, fun hr => ?_⟩
  have hp' := (protoCmdDestroy_unused w' w.nCmds w.nCmds).failed_iff.not.mpr hp
  have hnil : Grouped w' (w'.protoCmdDestroy w.nCmds) := .of_eq rfl rfl rfl
  exact hnil.received (.answered (hne hr).destroy hp') hn hf hb

end Tidy

/-! ## The handlers -/

section Handlers

variable {w w' : Server} {fuel s c p : Nat} {status r : Int}

theorem smtsClientSendPreviewRes_tidy (h : Apart .none w)
    (hr : w.smtsClientSendPreviewRes c status = some w') : Tidy w w' := by
  refine Grouped.tidy_of_does (S := {}) ?_ (Does.start.smtsClientSendPreviewRes (.inl trivial) hr) rfl
  obtain ⟨-, w₁, w₂, r, henc, hsend, hcase⟩ | ⟨-, ⟨-, rfl⟩ | ⟨-, rfl⟩⟩ :=
    smtsClientSendPreviewRes_cases hr
  · obtain ⟨hz, hne⟩ := Grouped.respond h (show previewCmdRes ∈ payloadFreeTypes by decide) henc
      (.setClient w₁ c _) le_rfl (.inl rfl) hsend
    obtain ⟨hsent, rfl⟩ | ⟨hfail, rfl⟩ := hcase
    · exact hz hsent
    · have hn : w₂.nCmds = w.nCmds + 1 := by
        rw [tcpClientSendMsg_nCmds hsend, setClient_nCmds, encodeNew_nCmds henc]
      exact (hne hfail).tidy (by simp [hn]) (.netOnly (.stopSmtsClient ..) (stopSmtsClient_nSessions ..).ge)
  · exact (Tidy.netOnly (.stopSmtsClient w c) (stopSmtsClient_nSessions ..).ge).toGrouped
  · exact .of_eq rfl rfl rfl

/-- Rounds that are tidy make a tidy loop. -/
theorem forEachClient_tidy {body : Nat → Server → Option Server} (h : Apart .none w)
    (hbody : ∀ c a b, Apart .none a → body c a = some b → Tidy a b)
    (hr : w.forEachClient fuel s body = some w') : Tidy w w' := by
  refine Links.forEach_preserves (R := fun a b => Apart .none a → Tidy a b) (fun a _ => .refl a)
    (fun hab hbc ha => ?_) (fun q a b hq ha => ?_) hr h
  · exact (hab ha).trans ha (hbc ((hab ha).apart ha))
  · cases q with
    | head t => cases hq
    | client c => exact hbody c a b ha hq

theorem stopMediaSession_tidy (h : Apart .none w) (hr : w.stopMediaSession fuel s = some w') :
    Tidy w w' := by
  obtain ⟨w₁, hdel, hr⟩ := Option.bind_eq_some_iff.mp hr
  have hns : w.nSessions ≤ w₁.nSessions := by
    obtain ⟨⟨m, d⟩, -, hdel⟩ := Option.bind_eq_some_iff.mp hdel
    obtain rfl := Option.some.inj hdel
    exact le_rfl
  have h₁ : Tidy w w₁ := .netOnly (.deleteSession hdel) hns
  refine h₁.trans h (forEachClient_tidy (h₁.apart h) (fun c a b ha hb => ?_) hr)
  obtain ⟨a₁, hres, hb⟩ := Option.bind_eq_some_iff.mp hb
  obtain rfl := Option.some.inj hb
  exact (smtsClientSendPreviewRes_tidy ha hres).trans ha
    (.netOnly (.stopSmtsClient ..) (stopSmtsClient_nSessions ..).ge)

theorem sendPreviewResponses_tidy (h : Apart .none w)
    (hr : w.sendPreviewResponses fuel s = some w') : Tidy w w' := by
  rw [Server.sendPreviewResponses] at hr
  split at hr
  · exact forEachClient_tidy h (fun c a b ha hb => smtsClientSendPreviewRes_tidy ha hb) hr
  · obtain rfl := Option.some.inj hr
    exact .refl w

/-- A session's teardown is tidy, whatever its exit code. -/
theorem exit_tidy (h : Apart .none w) (hr : (w.setExitCode s r).stopMediaSession fuel s = some w') :
    Tidy w w' := by
  have h₁ : Tidy w (w.setExitCode s r) := .netOnly (.setSession ..) le_rfl
  exact h₁.trans h (stopMediaSession_tidy (h₁.apart h) hr)

theorem onSmtsDvrClientSendPreview_tidy (h : Apart .none w)
    (hr : w.onSmtsDvrClientSendPreview fuel s status = some w') : Tidy w w' := by
  rw [Server.onSmtsDvrClientSendPreview] at hr
  split at hr
  · exact exit_tidy h hr
  · obtain ⟨w₁, hres, hr⟩ := Option.bind_eq_some_iff.mp hr
    let w₂ := w₁.setSession s { w₁.sessions s with status := .running }
    have h₁ := sendPreviewResponses_tidy h hres
    have h₂ : Tidy w₁ (w₂.smtsDvrClientStartReadFrames s).1 :=
      .netOnly (((NetOnly.setSession ..).trans (.uvCall rfl)).trans (.setSession ..)) le_rfl
    have h₃ := h₁.trans h h₂
    dsimp only at hr
    split at hr
    · exact h₃.trans h (exit_tidy (h₃.apart h) hr)
    · obtain rfl := Option.some.inj hr
      exact h₃

/-- What is left to do when the preview command has been given to `uv_write`. -/
theorem onConnectedToDvr_cases (hr : w.onConnectedToDvr fuel s 0 = some w') :
    ∃ w₁ w₂ r, w.encodeNew (((w.initCmd mockDvrPreview).set bitrate defaultDvrBitrate).set frameRate
        defaultDvrFramerate) = some w₁ ∧
      w₁.tcpClientSendMsg (.dvr s) w.nCmds .dvrPreview = (w₂, r) ∧
      (Apart .none w₂ → Tidy w₂ w') := by
  obtain ⟨⟨v, r⟩, hcmd, hr⟩ := Option.bind_eq_some_iff.mp hr
  obtain ⟨w₁, w₂, henc, hsend, hcase⟩ := smtsDvrClientPreview_cases hcmd
  refine ⟨w₁, w₂, r, henc, hsend, fun h₂ => ?_⟩
  have hv : Tidy w₂ v := by
    obtain ⟨-, rfl⟩ | ⟨-, hres⟩ := hcase
    · exact .refl _
    · exact onSmtsDvrClientSendPreview_tidy h₂ hres
  dsimp only at hr
  split at hr
  · exact hv.trans h₂ (exit_tidy (hv.apart h₂) hr)
  · obtain rfl := Option.some.inj hr
    exact hv

theorem onConnectedToDvr_tidy (h : Apart .none w)
    (hr : w.onConnectedToDvr fuel s status = some w') : Tidy w w' := by
  by_cases hs : status = 0
  · subst hs
    refine Grouped.tidy_of_does (S := { dvr := some s }) ?_
      (Does.start.onConnectedToDvr rfl (Scope.loops_of_forall (fun _ => trivial) w s) hr) rfl
    have hprev := h.previewed hr
    obtain ⟨w₁, w₂, r, henc, hsend, htidy⟩ := onConnectedToDvr_cases hr
    have hT : mockDvrPreview ∈ payloadFreeTypes := by decide
    have hn : w₁.nCmds = w.nCmds + 1 := encodeNew_nCmds henc
    have hd : Does { dvr := some s } w w₂ :=
      (Does.start.encodeNew hT rfl henc).step (.send (.inr ⟨le_rfl, by omega⟩) (by decide)
        (by rintro t ⟨⟩; exact .inl rfl) (by rintro d ⟨⟩) hsend)
    have h₂ := htidy (h.does (by simp) hd).apart
    obtain ⟨block, t, rfl, -⟩ := encodeNew_spec (payloadFree_spec hT).1 henc
    let v := (w.setHeap ⟨w.heap.blocks ++ [block]⟩).addCmd t
    obtain ⟨hmade, -⟩ := h.made block t
    obtain ⟨hqueued, hfailed⟩ := hmade.send hsend
    obtain rfl : v.uv v.nUv = r :=
      (tcpClientSendMsg_snd v (.dvr s) w.nCmds .dvrPreview).symm.trans (congrArg Prod.snd hsend)
    have hV : Apart (.received w.nCmds w.heap.blocks.length) w₂ := by
      by_cases hz : v.uv v.nUv = 0
      · exact (hqueued hz).1.apart
      · exact (hfailed hz).1.apart
    have hlog := tcpClientSendMsg_log hsend
    -- the only write of the command that there can be in the log is this one
    have hfailed₂ : w.uv w.nUv ≠ 0 ↔ w₂.Failed w.nCmds := by
      rw [Failed, hlog]
      constructor
      · intro hne
        exact ⟨s, _, _, hne, List.mem_append_right _ (List.mem_singleton_self _)⟩
      · rintro ⟨t, bytes, r, hne, hmem⟩
        rcases List.mem_append.mp hmem with hmem | hmem
        · exact absurd rfl (h.unused_new le_rfl _ hmem)
        · obtain ⟨-, -, rfl⟩ := by simpa using hmem
          exact hne
    have hgroup : Group w' (.received w.nCmds w.heap.blocks.length)
        (objects w.nCmds w.heap.blocks.length) := by
      refine .asked hprev ?_
      rw [((h₂.spares _ hV).unused rfl).failed_iff, ← hfailed₂]
      simp
    have hn₂ : w₂.nCmds = w.nCmds + 1 := (tcpClientSendMsg_nCmds hsend).trans hn
    have hf₂ : w₂.nFrames = w.nFrames := by
      obtain ⟨-, rfl⟩ | ⟨-, rfl⟩ := tcpClientSendMsg_cases hsend <;> rfl
    have hb₂ : w₂.heap.blocks.length = w.heap.blocks.length + 1 := by
      obtain ⟨-, rfl⟩ | ⟨-, rfl⟩ := tcpClientSendMsg_cases hsend <;> exact List.length_append
    exact h₂.toGrouped.received hgroup hn₂ hf₂ hb₂
  · rw [Server.onConnectedToDvr, if_pos hs] at hr
    exact exit_tidy h hr

theorem mediaClientStartPreview_tidy {key : SessionKey} (h : Apart .none w)
    (hr : w.mediaClientStartPreview fuel c key = some (w', r)) : Tidy w w' := by
  have hstart : Does { join := some c } w w := .start
  have hd := hstart.mediaClientStartPreview rfl (.inl trivial) hr
  obtain ⟨found, hget, -⟩ := Option.bind_eq_some_iff.mp hr
  cases found with
  | none =>
      have hnet : NetOnly w w' := ((NetOnly.initMediaSession w key).trans (.addSmtsClient ..)).trans
        (mediaClientStartPreview_new hget hr).netOnly
      exact .netOnly hnet hd.grows.nSessions
  | some s =>
      obtain ⟨-, hres⟩ := mediaClientStartPreview_found hget hr
      have h₁ : Tidy w (w.addSmtsClient s c) := .netOnly (.addSmtsClient ..) le_rfl
      exact h₁.trans h (smtsClientSendPreviewRes_tidy (h₁.apart h) hres)

theorem smtsStartPreview_tidy (h : Apart .none w) (hr : w.smtsStartPreview fuel c p = some w') :
    Tidy w w' := by
  have hd₀ : Does { join := some c } w w := .start
  have hd := hd₀.smtsStartPreview rfl (.inl trivial) hr
  refine Grouped.tidy_of_does ?_ hd rfl
  obtain ⟨⟨w₁, r⟩, hstart, hr⟩ := Option.bind_eq_some_iff.mp hr
  have h₁ := mediaClientStartPreview_tidy h hstart
  dsimp only at hr
  split at hr
  · obtain ⟨w₂, henc, hr⟩ := Option.bind_eq_some_iff.mp hr
    generalize hsend : w₂.tcpClientSendMsg (.client c) w₁.nCmds .errorPreviewRes = send at hr
    obtain ⟨w₃, r₃⟩ := send
    have hkeep : ∀ {v : Server}, Does { join := some c } w₁ v → Grouped w₁ v → Tidy w₁ v :=
      fun hd hv => hv.tidy_of_does hd rfl
    have hd₁ : Does { join := some c } w₁ w₁ := .start
    have hd₃ := hd₁.errorPreviewRes (c := c) (.inl trivial) henc
    rw [hsend] at hd₃
    obtain ⟨hz, hne⟩ := Grouped.respond (h₁.apart h)
      (show previewCmdRes ∈ payloadFreeTypes by decide) henc
      ⟨rfl, rfl, rfl, rfl, rfl, rfl, [], by simp, by simp⟩ le_rfl (.inr (.inl rfl)) hsend
    have hle := (h₁.spares _ h).grows.nCmds
    dsimp only at hr
    split at hr
    next hfail =>
      obtain rfl := Option.some.inj hr
      exact h₁.toGrouped.tidy hle (hkeep hd₃.2 (hne hfail))
    next hsent =>
      obtain rfl := Option.some.inj hr
      exact h₁.toGrouped.tidy hle (hkeep hd₃.1 (hz (not_not.mp hsent)))
  · obtain rfl := Option.some.inj hr
    exact h₁.toGrouped

/-- Commands that are passed on are no previews. -/
theorem mediaClientSendCmd_failed_iff (w : Server) (c p q : Nat) :
    (w.mediaClientSendCmd c p).1.Failed q ↔ w.Failed q := by
  cases hs : (w.clients c).session with
  | none => rw [mediaClientSendCmd_none hs]
  | some s =>
      obtain ⟨w₁, hsend, hres⟩ := mediaClientSendCmd_some hs (p := p)
      have h₁ : w₁.Failed q ↔ w.Failed q := by
        rw [Failed, Failed, tcpClientSendMsg_log hsend]
        simp
      rw [hres]
      dsimp only
      split
      · exact h₁
      · exact (protoCmdDestroy_unused w₁ p q).failed_iff.trans h₁

/-- `media_client_send_cmd` makes no packet, no frame and no buffer. -/
theorem mediaClientSendCmd_counts (w : Server) (c p : Nat) :
    (w.mediaClientSendCmd c p).1.nCmds = w.nCmds ∧
      (w.mediaClientSendCmd c p).1.nFrames = w.nFrames ∧
      (w.mediaClientSendCmd c p).1.heap = w.heap := by
  cases hs : (w.clients c).session with
  | none => simp [mediaClientSendCmd_none hs]
  | some s =>
      obtain ⟨w₁, hsend, hres⟩ := mediaClientSendCmd_some hs (p := p)
      have h₁ : w₁.nCmds = w.nCmds ∧ w₁.nFrames = w.nFrames ∧ w₁.heap = w.heap := by
        obtain ⟨-, rfl⟩ | ⟨-, rfl⟩ := tcpClientSendMsg_cases hsend <;> exact ⟨rfl, rfl, rfl⟩
      rw [hres]
      dsimp only
      split <;> exact h₁

theorem msgChannel_cases (hr : w.msgChannel c p = some w') :
    ∃ w₁ garbage w₂ w₃ r, w₁ = (w.mediaClientSendCmd c p).1 ∧
      w₁.encodeNew (Cmd.init commonRes garbage) = some w₂ ∧
      w₂.tcpClientSendMsg (.client c) w₁.nCmds .commonRes = (w₃, r) ∧
      ((r = 0 ∧ w' = w₃) ∨ (r ≠ 0 ∧ w' = w₃.protoCmdDestroy w₁.nCmds)) := by
  rw [Server.msgChannel] at hr
  dsimp only at hr
  obtain ⟨w₂, henc, hr⟩ := Option.bind_eq_some_iff.mp hr
  refine ⟨_, _, w₂, _, _, rfl, henc, (Prod.eta _).symm, ?_⟩
  split at hr
  next hfail => exact .inr ⟨hfail, (Option.some.inj hr).symm⟩
  next hsent => exact .inl ⟨not_not.mp hsent, (Option.some.inj hr).symm⟩

theorem msgChannel_grouped (h : Apart .none w) (hp : p < w.nCmds)
    (hr : w.msgChannel c p = some w') :
    w.nCmds ≤ w'.nCmds ∧ (∀ q < w.nCmds, w'.Failed q ↔ w.Failed q) ∧ Grouped w w' := by
  let own : Scope := { write := some ⟨0, .client 0, p, .commonRes⟩ }
  have howns : own.Owns w w p := .inl ⟨_, rfl, rfl⟩
  have hd := Does.start.msgChannel howns (.inl trivial) hr
  have hsend : Apart .none (w.mediaClientSendCmd c p).1 := by
    refine (h.does (fun req hreq => ?_) (Does.start.mediaClientSendCmd howns)).apart
    obtain rfl := Option.some.inj hreq
    exact ⟨hp, id⟩
  obtain ⟨hn, hf, hb⟩ := mediaClientSendCmd_counts w c p
  obtain ⟨w₁, garbage, w₂, w₃, r, rfl, henc, hsent, hcase⟩ := msgChannel_cases hr
  obtain ⟨hz, hne⟩ := Grouped.respond hsend (show commonRes ∈ payloadFreeTypes by decide) henc
    ⟨rfl, rfl, rfl, rfl, rfl, rfl, [], by simp, by simp⟩ le_rfl (.inr (.inr rfl)) hsent
  have hres : ∀ q < w.nCmds, w₃.Failed q ↔ w.Failed q := fun q hq => by
    have hmade : Unused q (w.mediaClientSendCmd c p).1 w₂ :=
      ⟨[], by rw [encodeNew_log henc, List.append_nil], by simp⟩
    have hunused := hmade.trans (tcpClientSendMsg_unused (by omega) hsent)
    exact hunused.failed_iff.trans (mediaClientSendCmd_failed_iff w c p q)
  refine ⟨hd.grows.nCmds, ?_⟩
  obtain ⟨hqueued, rfl⟩ | ⟨hfail, rfl⟩ := hcase
  · exact ⟨hres, (hz hqueued).congr_left hn hf hb⟩
  · refine ⟨fun q hq => ?_, (hne hfail).congr_left hn hf hb⟩
    exact (protoCmdDestroy_unused w₃ _ q).failed_iff.trans (hres q hq)

/-- The handler makes groups of its own, and the packet is no preview command
that failed. -/
theorem callImp_grouped {imp : Option CmdImp} {b : Nat} (h : Apart .none w)
    (howned : Owned w p b 1) (hp : ¬ w.Failed p) (hr : w.callImp fuel c p imp = some w') :
    w.nCmds ≤ w'.nCmds ∧ ¬ w'.Failed p ∧ Grouped w w' := by
  have hlt : p < w.nCmds := howned.apart.packets p howned.packet
  cases imp with
  | none =>
      obtain rfl := Option.some.inj hr
      exact ⟨le_rfl, hp, .of_eq rfl rfl rfl⟩
  | some imp =>
      cases imp with
      | smtsStartPreview =>
          have htidy := smtsStartPreview_tidy h hr
          refine ⟨(htidy.spares _ h).grows.nCmds, ?_, htidy.toGrouped⟩
          rwa [((htidy.spares _ howned.apart).unused rfl).failed_iff]
      | mockDvrPreviewImpl => cases hr
      | msgChannel =>
          obtain ⟨hle, hfailed, hg⟩ := msgChannel_grouped h hlt hr
          exact ⟨hle, (hfailed p hlt).not.mpr hp, hg⟩

/-- A packet is decoded, handled and given up. -/
theorem dispatchPacket_grouped {bytes : List Byte} {junk : Int → Byte} (h : Apart .none w)
    (hr : w.dispatchPacket fuel c bytes junk = some w') : Grouped w w' := by
  obtain ⟨-, rfl⟩ | ⟨t, imp, w₂, hdec, himp, rfl⟩ := dispatchPacket_cases hr
  · have hdrop := h.dropped bytes
    refine ⟨fun p hge hlt => absurd hlt (Nat.not_lt.mpr hge),
      fun f hge hlt => absurd hlt (Nat.not_lt.mpr hge),
      fun b hge hlt => ⟨_, _, .dropped hdrop, fun _ => False.elim, ?_⟩⟩
    have hlt : b < (w.heap.blocks ++ [bytes.map some]).length := hlt
    rw [List.length_append, List.length_singleton] at hlt
    exact show b = w.heap.blocks.length by omega
  · obtain ⟨T, -, -, hdec⟩ := dispatchDecode_spec hdec
    have howned := h.owned hdec
    have hdone := howned.callImp himp
    have hrecv : Does { reader := some c } w ((w.setHeap (w.heap.receive bytes).1).addCmd t) :=
      Does.start.step (.receive hdec)
    have hfresh : ¬ ((w.setHeap (w.heap.receive bytes).1).addCmd t).Failed w.nCmds :=
      not_failed_of_unused (h.unused_new le_rfl)
    have hn : ((w.setHeap (w.heap.receive bytes).1).addCmd t).nCmds = w.nCmds + 1 := by simp
    have hf : ((w.setHeap (w.heap.receive bytes).1).addCmd t).nFrames = w.nFrames := by simp
    have hb : ((w.setHeap (w.heap.receive bytes).1).addCmd t).heap.blocks.length
        = w.heap.blocks.length + 1 := by simp [Heap.receive]
    obtain ⟨hle, hp, hg⟩ := callImp_grouped (h.does (by simp) hrecv).apart howned hfresh himp
    generalize (w.setHeap (w.heap.receive bytes).1).addCmd t = w₁ at hn hf hb hle hg
    have hgone : Grouped w₂ (w₂.protoCmdDestroy w.nCmds) := .of_eq rfl rfl rfl
    have hg' := hg.trans hle hgone fun V xs hV hnew => by
      refine hV.apart.protoCmdDestroy ⟨by omega, fun hp => ?_⟩
      have hge := hnew _ hp
      omega
    exact hg'.received (.passed hdone ((protoCmdDestroy_unused w₂ _ _).failed_iff.not.mpr hp)) hn hf hb

/-- Nothing was allocated, and no packet, frame or buffer was used. -/
structure Mild (w w' : Server) : Prop where
  nCmds : w'.nCmds = w.nCmds
  nFrames : w'.nFrames = w.nFrames
  heap : w'.heap = w.heap
  unused : ∀ q, Unused q w w'

theorem Mild.trans {v : Server} (h : Mild w v) (h' : Mild v w') : Mild w w' where
  nCmds := h'.nCmds.trans h.nCmds
  nFrames := h'.nFrames.trans h.nFrames
  heap := h'.heap.trans h.heap
  unused q := (h.unused q).trans (h'.unused q)

theorem NetOnly.mild (h : NetOnly w w') : Mild w w' := ⟨h.nCmds, h.nFrames, h.heap, h.unused⟩

theorem eraseWrite_mild (w : Server) (k : Nat) : Mild w (w.eraseWrite k) :=
  ⟨rfl, rfl, rfl, fun _ => ⟨[], by simp, by simp⟩⟩

theorem protoCmdDestroy_mild (w : Server) (p : Nat) : Mild w (w.protoCmdDestroy p) :=
  ⟨rfl, rfl, rfl, fun q => protoCmdDestroy_unused w p q⟩

theorem onSmtsClientSendFrame_mild (h : w.onSmtsClientSendFrame p = some w') : Mild w w' := by
  refine ⟨?_, ?_, ?_, fun _ => onSmtsClientSendFrame_unused h⟩
  all_goals obtain ⟨-, rfl⟩ | ⟨-, f, -, rfl⟩ := onSmtsClientSendFrame_cases h <;> simp

/-- Only the packet `p` is written, and to clients only; nothing is made. -/
structure SendsOnly (p : Nat) (w w' : Server) : Prop where
  nCmds : w'.nCmds = w.nCmds
  nFrames : w'.nFrames = w.nFrames
  heap : w'.heap = w.heap
  unused : ∀ q, q ≠ p → Unused q w w'
  failed : w'.Failed p → w.Failed p

theorem SendsOnly.trans {v : Server} (h : SendsOnly p w v) (h' : SendsOnly p v w') : SendsOnly p w w' where
  nCmds := h'.nCmds.trans h.nCmds
  nFrames := h'.nFrames.trans h.nFrames
  heap := h'.heap.trans h.heap
  unused q hq := (h.unused q hq).trans (h'.unused q hq)
  failed hp := h.failed (h'.failed hp)

theorem Mild.sendsOnly (h : Mild w w') (p : Nat) : SendsOnly p w w' :=
  ⟨h.nCmds, h.nFrames, h.heap, fun q _ => h.unused q, (h.unused p).failed_iff.mp⟩

theorem smtsClientSendFrame_sends (hr : w.smtsClientSendFrame c p = some w') : SendsOnly p w w' := by
  have hemit : SendsOnly p w (w.emit (.sendFrame c p)) := by
    refine ⟨rfl, rfl, rfl, fun q hq => ⟨_, rfl, fun o ho heq => ?_⟩, ?_⟩
    · obtain rfl := List.mem_singleton.mp ho
      exact hq (Option.some.inj heq).symm
    · intro ⟨s, bytes, r, hne, hmem⟩
      exact ⟨s, bytes, r, hne, by simpa using hmem⟩
  obtain ⟨-, w₂, r, hsend, hcase⟩ | ⟨-, hdrop⟩ := smtsClientSendFrame_cases hr
  · have h₂ : SendsOnly p (w.emit (.sendFrame c p)) w₂ := by
      have hlog := tcpClientSendMsg_log hsend
      refine ⟨?_, ?_, ?_, fun q hq => tcpClientSendMsg_unused hq hsend, ?_⟩
      · exact tcpClientSendMsg_nCmds hsend
      · obtain ⟨-, rfl⟩ | ⟨-, rfl⟩ := tcpClientSendMsg_cases hsend <;> rfl
      · obtain ⟨-, rfl⟩ | ⟨-, rfl⟩ := tcpClientSendMsg_cases hsend <;> rfl
      · intro ⟨s, bytes, r, hne, hmem⟩
        rw [hlog] at hmem
        exact ⟨s, bytes, r, hne, by simpa using hmem⟩
    obtain ⟨-, rfl⟩ | ⟨-, w₃, hdrop, rfl⟩ := hcase
    · exact (hemit.trans h₂).trans ((NetOnly.emit w₂ rfl).mild.sendsOnly p)
    · exact ((hemit.trans h₂).trans ((onSmtsClientSendFrame_mild hdrop).sendsOnly p)).trans
        ((NetOnly.stopSmtsClient w₃ c).mild.sendsOnly p)
  · exact hemit.trans ((onSmtsClientSendFrame_mild hdrop).sendsOnly p)

theorem forEachClient_sends
    (hr : w.forEachClient fuel s (fun c v => v.smtsClientSendFrame c p) = some w') :
    SendsOnly p w w' := by
  refine Links.forEach_preserves (R := SendsOnly p) (fun a => ?_) SendsOnly.trans (fun q a b hq => ?_) hr
  · exact ⟨rfl, rfl, rfl, fun q _ => ⟨[], by simp, by simp⟩, id⟩
  · cases q with
    | head t => cases hq
    | client c => exact smtsClientSendFrame_sends hq

/-- A frame makes one group, whether there are clients or not. -/
theorem onDvrClientReadFrameCb_grouped {bytes : List Byte} {junk : Int → Byte} {l : List Nat}
    (h : Apart .none w) (hring : w.rings.IsRing (.head s) (l.map .client))
    (hsize : (w.sessions s).clientSize = l.length)
    (hr : w.onDvrClientReadFrameCb fuel s bytes junk = some w') : Grouped w w' := by
  obtain ⟨-, hshares⟩ := onDvrClientReadFrameCb_shares bytes junk h hring hsize
  obtain ⟨hnil, hcons⟩ := hshares fuel w' hr
  obtain ⟨t, hdec, hrecv⟩ := onDvrClientReadFrameCb_eq w s bytes junk
  -- no entry of the log is about a packet that was made just now
  have hnew : ∀ q, w.nCmds ≤ q → ∀ o ∈ w.log ++ [.recvFrame s w.nFrames], o.packet? ≠ some q :=
    fun q hq o ho => by
      rcases List.mem_append.mp ho with ho | ho
      · exact h.unused_new hq o ho
      · obtain rfl := List.mem_singleton.mp ho
        simp [Obs.packet?]
  rw [hrecv] at hr
  have hsize₁ : ((w.arrived bytes t).sessions s).clientSize = l.length := hsize
  by_cases hl : l = []
  · have hV := hnil hl
    rw [onSmtsDvrClientRecvFrame_alone (by rw [hsize₁, hl]; rfl)] at hr
    obtain rfl := Option.some.inj hr
    have hgroup := Group.unshared hV <| (destroySmtsFrame_unused _ w.nFrames w.nCmds).never <| by
      simpa using hnew w.nCmds le_rfl
    have hb : (w.arrived bytes t).heap.blocks.length = w.heap.blocks.length + 1 := by simp
    refine .of_group hgroup (fun q => ?_) (fun f => ?_) (fun b => ?_)
    · show q = w.nCmds ↔ w.nCmds ≤ q ∧ q < w.nCmds + 1
      omega
    · show f = w.nFrames ↔ w.nFrames ≤ f ∧ f < w.nFrames + 1
      omega
    · show b = w.heap.blocks.length ↔ _ ∧ b < (w.arrived bytes t).heap.blocks.length
      omega
  · have hV := hcons hl
    have hpos : 0 < ((w.arrived bytes t).sessions s).clientSize := by
      rw [hsize₁]
      exact_mod_cast List.length_pos_of_ne_nil hl
    obtain ⟨v, henc, hloop⟩ := onSmtsDvrClientRecvFrame_relay (f := w.nFrames) hpos
    obtain ⟨t', hv⟩ := relaying_spec henc
    rw [hloop] at hr
    have hsends := forEachClient_sends hr
    generalize (w.arrived bytes t).relaying v s = v at hv hr hsends
    have hnew' : ∀ q, w.nCmds ≤ q → ∀ o ∈ v.log, o.packet? ≠ some q := hv.log ▸ hnew
    have hgroup := Group.relayed hV
      ((hsends.unused w.nCmds (Nat.ne_of_lt (Nat.lt_succ_self _))).never (hnew' _ le_rfl))
      fun hp => not_failed_of_unused (hnew' _ (Nat.le_succ _)) (hsends.failed hp)
    refine .of_group hgroup (fun q => ?_) (fun f => ?_) (fun b => ?_)
    · rw [hsends.nCmds, hv.nCmds, Objects.relayed]
      omega
    · rw [hsends.nFrames, hv.nFrames, Objects.relayed]
      omega
    · rw [hsends.heap, hv.heap, Objects.relayed]
      omega

/-- The callback of a write is mild, unless it goes on with a preview. -/
theorem sendCb_cases {req : WriteReq} (hr : w.sendCb fuel req status = some w') :
    (∃ s, (w.protoCmdDestroy req.packet).onSmtsDvrClientSendPreview fuel s status = some w') ∨
      Mild w w' := by
  have hdestroy := protoCmdDestroy_mild w req.packet
  obtain ⟨i, target, p, cb⟩ := req
  cases target with
  | client c =>
      cases cb with
      | previewResSlient =>
          obtain rfl := Option.some.inj hr
          exact .inr (hdestroy.trans ((NetOnly.emit _ rfl).trans (.setClient _ c _)).mild)
      | errorPreviewRes =>
          obtain rfl := Option.some.inj hr
          exact .inr (hdestroy.trans (NetOnly.stopSmtsClient _ c).mild)
      | sendFrame =>
          obtain ⟨v, hdrop, hr⟩ := Option.bind_eq_some_iff.mp hr
          have hv := onSmtsClientSendFrame_mild hdrop
          split at hr <;> obtain rfl := Option.some.inj hr
          · exact .inr (hv.trans (NetOnly.stopSmtsClient v c).mild)
          · exact .inr hv
      | commonRes =>
          obtain rfl := Option.some.inj hr
          exact .inr hdestroy
      | dvrPreview => cases hr
      | sendCmdToDvr => cases hr
  | dvr s =>
      cases cb with
      | dvrPreview => exact .inl ⟨s, hr⟩
      | sendCmdToDvr =>
          obtain rfl := Option.some.inj hr
          exact .inr hdestroy
      | _ => cases hr

theorem tcpClientSendMsgCb_grouped {k : Nat} (h : Apart .none w)
    (hr : w.tcpClientSendMsgCb fuel k status = some w') :
    Grouped w w' ∧ ∀ q < w.nCmds, Unused q w w' := by
  obtain ⟨req, hk, hr⟩ := Option.bind_eq_some_iff.mp hr
  obtain ⟨w₁, hcb, hr⟩ := Option.bind_eq_some_iff.mp hr
  obtain rfl := Option.some.inj hr
  have hlast := NetOnly.emit w₁ (o := .free (.writeReq req.id)) rfl
  have herased := eraseWrite_mild w k
  obtain ⟨s, hres⟩ | hmild := sendCb_cases hcb
  · have hv : Apart .none ((w.eraseWrite k).protoCmdDestroy req.packet) := by
      have h₁ := (h.eraseWrite hk id).apart
      exact (h₁.protoCmdDestroy ⟨h.written req (List.mem_of_getElem? hk), id⟩).apart
    have htidy := (onSmtsDvrClientSendPreview_tidy hv hres).trans hv (.netOnly hlast le_rfl)
    have hd := (Does.start (S := { dvr := some s })).onSmtsDvrClientSendPreview rfl
      (Scope.loops_of_forall (fun _ => trivial) _ s) hres
    refine ⟨htidy.toGrouped.congr_left rfl rfl rfl, fun q hq => ?_⟩
    have hdone := herased.trans (protoCmdDestroy_mild (w.eraseWrite k) req.packet)
    exact ((hdone.unused q).trans (hd.unused_old rfl hq)).trans (hlast.unused q)
  · have hall := (herased.trans hmild).trans hlast.mild
    exact ⟨.of_eq hall.nCmds hall.nFrames hall.heap, fun q _ => hall.unused q⟩

end Handlers

/-! ## Over a run -/

section Run

variable {A : Nat → Prop} {V : Objects} {xs : List Obj} {w w' : Server} {e : Event} {p n : Nat}
  {x : Obj}

/-- A packet is used only by the callback that makes it. -/
theorem Step.unused (h : Apart .none w) (hstep : Step w e w') (hp : p < w.nCmds) : Unused p w w' := by
  obtain ⟨hen, fuel, hr⟩ := hstep
  have hd := handle_does_any hen hr
  cases e with
  | writeDone k status => exact (tcpClientSendMsgCb_grouped h hr).2 p hp
  | _ => exact hd.unused_old rfl hp

/-- What a callback makes is in groups when it returns. -/
theorem Step.grouped (h : Apart .none w) (hring : RingInv A w) (hstep : Step w e w') :
    Grouped w w' := by
  obtain ⟨hen, fuel, hr⟩ := hstep
  have hnet : ∀ {v : Server}, NetOnly w v → Grouped w v := fun hv =>
    .of_eq hv.nCmds hv.nFrames hv.heap
  cases e with
  | connection =>
      obtain rfl := Option.some.inj hr
      have hn : (w.clientOnConnection).nCmds = w.nCmds ∧ w.clientOnConnection.nFrames = w.nFrames ∧
          w.clientOnConnection.heap = w.heap := by
        rw [clientOnConnection]
        dsimp only
        split
        · exact ⟨rfl, rfl, rfl⟩
        · split <;> exact ⟨rfl, rfl, rfl⟩
      exact .of_eq hn.1 hn.2.1 hn.2.2
  | packet c bytes junk => exact dispatchPacket_grouped h hr
  | readError c status =>
      obtain rfl := Option.some.inj hr
      exact hnet (.stopSmtsClient w c)
  | dvrConnected s status =>
      obtain ⟨v, hconn, hr⟩ := Option.bind_eq_some_iff.mp hr
      obtain rfl := Option.some.inj hr
      let v₀ := w.setSession s { w.sessions s with dvr := { (w.sessions s).dvr with connecting := false } }
      have h₀ : Apart .none v₀ := (h.netOnly (.setSession ..) le_rfl).apart
      have h₁ := (onConnectedToDvr_tidy h₀ hconn).trans h₀ (.netOnly (.emit v (o := .free (.connectReq s)) rfl) le_rfl)
      exact h₁.toGrouped.congr_left rfl rfl rfl
  | dvrPacket s bytes junk =>
      obtain ⟨hs, hA⟩ := hring.scope_dvr (e := .dvrPacket s bytes junk) hen rfl
      obtain ⟨l, hl, hsize, -⟩ := hring.ring s hs hA
      exact onDvrClientReadFrameCb_grouped h hl hsize hr
  | dvrReadError s status =>
      let v₀ := w.setSession s { w.sessions s with dvr := { (w.sessions s).dvr with reading := false } }
      have h₀ : Apart .none v₀ := (h.netOnly (.setSession ..) le_rfl).apart
      have hr : v₀.onSmtsDvrClientRecvFrame fuel s none dvrRecvFrameError = some w' := hr
      rw [Server.onSmtsDvrClientRecvFrame, if_pos (by decide)] at hr
      exact (exit_tidy h₀ hr).toGrouped.congr_left rfl rfl rfl
  | writeDone k status => exact (tcpClientSendMsgCb_grouped h hr).1
  | timer s =>
      obtain ⟨-, m, rfl⟩ | ⟨-, rfl⟩ := sessionExitCb_cases hr
      · exact .of_eq rfl rfl rfl
      · exact .of_eq rfl rfl rfl
  | clientClosed c =>
      obtain rfl := Option.some.inj hr
      exact hnet (.clientCloseCb w c)
  | dvrClosed s =>
      obtain rfl := Option.some.inj hr
      exact .of_eq rfl rfl rfl

theorem Group.step (h : Group w V xs) (hnone : Apart .none w) (hstep : Step w e w') :
    Group w' V xs := by
  have hunused : ∀ {q}, V.packets q → Unused q w w' := fun hq =>
    hstep.unused hnone (h.apart.packets _ hq)
  cases h with
  | passed h hp => exact .passed (h.step hstep) ((hunused rfl).failed_iff.not.mpr hp)
  | asked h hp => exact .asked (h.step hstep) (hp.trans (hunused rfl).failed_iff.symm)
  | answered h hp => exact .answered (h.step hstep) ((hunused rfl).failed_iff.not.mpr hp)
  | relayed h hd hp =>
      exact .relayed (h.step hstep) ((hunused (.inl rfl)).never hd)
        ((hunused (.inr rfl)).failed_iff.not.mpr hp)
  | unshared h hd => exact .unshared (h.step hstep) ((hunused rfl).never hd)
  | dropped h => exact .dropped (h.step hstep)

/-- Every packet, frame and buffer there has been is in a group. -/
structure Books (w : Server) : Prop where
  packets : ∀ p < w.nCmds, ∃ V xs, Group w V xs ∧ V.packets p
  frames : ∀ f < w.nFrames, ∃ V xs, Group w V xs ∧ V.frames f
  blocks : ∀ b < w.heap.blocks.length, ∃ V xs, Group w V xs ∧ V.blocks b

theorem init_books (uv : Nat → Int) (garbage : Nat → Values NvmpName) : Books (init uv garbage) where
  packets p hp := absurd hp (Nat.not_lt_zero p)
  frames f hf := absurd hf (Nat.not_lt_zero f)
  blocks b hb := absurd hb (Nat.not_lt_zero b)

theorem Books.step (h : Books w) (hnone : Apart .none w) (hring : RingInv A w)
    (hstep : Step w e w') : Books w' := by
  have hg := hstep.grouped hnone hring
  refine ⟨fun p hp => ?_, fun f hf => ?_, fun b hb => ?_⟩
  · by_cases hlt : p < w.nCmds
    · obtain ⟨V, xs, hV, hp⟩ := h.packets p hlt
      exact ⟨V, xs, hV.step hnone hstep, hp⟩
    · obtain ⟨V, xs, hV, -, hp⟩ := hg.packets p (Nat.not_lt.mp hlt) hp
      exact ⟨V, xs, hV, hp⟩
  · by_cases hlt : f < w.nFrames
    · obtain ⟨V, xs, hV, hf⟩ := h.frames f hlt
      exact ⟨V, xs, hV.step hnone hstep, hf⟩
    · obtain ⟨V, xs, hV, -, hf⟩ := hg.frames f (Nat.not_lt.mp hlt) hf
      exact ⟨V, xs, hV, hf⟩
  · by_cases hlt : b < w.heap.blocks.length
    · obtain ⟨V, xs, hV, hb⟩ := h.blocks b hlt
      exact ⟨V, xs, hV.step hnone hstep, hb⟩
    · obtain ⟨V, xs, hV, -, hb⟩ := hg.blocks b (Nat.not_lt.mp hlt) hb
      exact ⟨V, xs, hV, hb⟩

theorem books_of_run {uv : Nat → Int} {garbage : Nat → Values NvmpName} {es : List Event}
    (h : Transition.Run (fun w e w' => w.JoinsOnce e ∧ Step w e w') (init uv garbage) es w) :
    Books w := by
  have hall := h.invariant (I := fun w => Books w ∧ Apart .none w ∧ ∃ A, RingInv A w)
    (fun _ _ _ ⟨hbooks, hnone, A, hring⟩ ⟨he, hstep⟩ =>
      ⟨hbooks.step hnone hring hstep, (hnone.step (fun ⟨_, _, _, _, _, hV⟩ => hV) hstep).apart,
        hring.step he hstep⟩)
    ⟨init_books uv garbage, init_apart uv garbage, _, init_ringInv uv garbage⟩
  exact hall.1

end Run

/-! ## What becomes of each object -/

section Accounts

variable {V : Objects} {xs : List Obj} {w : Server} {p n : Nat} {x : Obj}

/-- What happens to the object `x`: while a write that has not completed needs
it it is there, when none does it has been freed, and what is freed was not
used again. What belongs to a preview command that could not be written stays. -/
structure Accounted (w : Server) (x : Obj) : Prop where
  held : (∃ req ∈ w.writes, w.Holds req.packet x) → w.log.count (.free x) = 0
  lost : (∃ p, w.Failed p ∧ w.Holds p x) → w.log.count (.free x) = 0
  freed : (∀ req ∈ w.writes, ¬ w.Holds req.packet x) → (∀ p, w.Failed p → ¬ w.Holds p x) →
    w.log.count (.free x) = 1
  last : w.log.Pairwise fun o o' => o = .free x → ∀ p, o'.packet? = some p → ¬ w.Holds p x

/-- An object of `V` is needed by packets of `V` only. -/
theorem Apart.packets_of_holds (h : Apart V w) (hp : p < w.nCmds)
    (hx : (Obs.free x).ofMemory = true ∧ V.Within (.free x)) (hold : w.Holds p x) :
    V.packets p := by
  by_contra hV
  have hrest : (w.rest V).packets p := ⟨hp, hV⟩
  obtain ⟨hmem, hx⟩ := hx
  cases x with
  | slots q | cmd q =>
      rcases hold with rfl | ⟨f, hdata, rfl⟩
      · exact hV hx
      · exact (h.packet f (h.data p hrest f hdata)).2 hx
  | frame f => exact (h.data p hrest f hold).2 hx
  | block q =>
      rcases hold with huses | ⟨f, hdata, huses⟩
      · exact (h.uses p hrest _ huses).2 hx
      · exact (h.uses _ (h.packet f (h.data p hrest f hdata)) _ huses).2 hx
  | _ => cases hmem

theorem Apart.failed_lt (h : Apart .none w) (hp : w.Failed p) : p < w.nCmds := by
  obtain ⟨s, bytes, r, -, hmem⟩ := hp
  exact (h.logged _ hmem).1

/-- What goes with a packet `p` that needs it as long as it has owners, when all
other packets of the group were never used. -/
theorem Counted.accounted (h : Counted V p xs w n) (hnone : Apart .none w) (hx : x ∈ xs)
    (hold : n + (w.writesOf p).length ≠ 0 → w.Holds p x) (hfailed : n ≠ 0 ↔ w.Failed p)
    (halone : ∀ q, V.packets q → q ≠ p → w.writesOf q = [] ∧ ∀ o ∈ w.log, o.packet? ≠ some q) :
    Accounted w x := by
  -- whoever holds the object is a packet of the group
  have howner : ∀ q < w.nCmds, w.Holds q x → V.packets q := fun q hq hold =>
    h.apart.packets_of_holds hq (h.objects x hx) hold
  have hfreed := h.freed x hx
  refine ⟨fun ⟨req, hreq, hold⟩ => ?_, fun ⟨q, hq, hold⟩ => ?_, fun hnoreq hnolost => ?_, ?_⟩
  · have hV := howner _ (hnone.written req hreq) hold
    have hmem : req ∈ w.writesOf req.packet := List.mem_filter.mpr ⟨hreq, by simp⟩
    have heq : req.packet = p := by
      by_contra hne
      rw [(halone _ hV hne).1] at hmem
      cases hmem
    rw [heq] at hmem
    have hpos := List.length_pos_of_mem hmem
    rw [hfreed, if_neg (by omega)]
  · have hV := howner q (hnone.failed_lt hq) hold
    obtain rfl : q = p := by
      by_contra hne
      exact not_failed_of_unused (halone q hV hne).2 hq
    have hn := hfailed.mpr hq
    rw [hfreed, if_neg (by omega)]
  -- a packet that is still counted is in a write, or was lost by a failed one
  · by_cases hz : n + (w.writesOf p).length = 0
    · rw [hfreed, if_pos hz]
    · have hold := hold hz
      have hn : n = 0 := by
        by_contra hne
        exact hnolost p (hfailed.mp hne) hold
      have hnil : w.writesOf p = [] := List.filter_eq_nil_iff.mpr fun req hreq heq => by
        obtain rfl : req.packet = p := by simpa using heq
        exact hnoreq req hreq hold
      rw [hn, hnil] at hz
      exact absurd rfl hz
  · refine List.Pairwise.imp_of_mem (fun {o o'} _ ho' horder hfree q hq hold => ?_) h.order
    have hlt := ((Objects.within_iff_packet _ hq).2.mp (hnone.logged o' ho')).1
    have hV := howner q hlt hold
    by_cases hne : q = p
    · exact horder ⟨x, hx, hfree⟩ (hne ▸ hq)
    · exact (halone q hV hne).2 o' ho' hq

theorem Group.accounted (h : Group w V xs) (hnone : Apart .none w) (hx : x ∈ xs) :
    Accounted w x := by
  have halone : ∀ {p b q}, (Objects.received p b).packets q → q ≠ p →
      w.writesOf q = [] ∧ ∀ o ∈ w.log, o.packet? ≠ some q := fun hq hne => absurd hq hne
  have hobjects : ∀ {p b x}, (w.cmds p).frees = [.block ⟨b, 0⟩, .slots, .struct] → x ∈ objects p b →
      w.Holds p x := fun {p b x} hfrees hx => by
    simp only [objects, List.mem_cons, List.not_mem_nil, or_false] at hx
    rcases hx with rfl | rfl | rfl
    · exact .inl (Cmd.uses_of_frees (p := ⟨b, 0⟩) (by rw [hfrees]; exact List.mem_cons_self))
    · exact .inl rfl
    · exact .inl rfl
  cases h with
  | passed h hp =>
      exact h.toCounted.accounted hnone hx (fun _ => hobjects h.frees hx) (by simpa using hp)
        fun _ => halone
  | asked h hp =>
      exact h.toCounted.accounted hnone hx (fun _ => hobjects h.frees hx) hp fun _ => halone
  | answered h hp =>
      exact h.toCounted.accounted hnone hx (fun _ => hobjects h.frees hx) (by simpa using hp)
        fun _ => halone
  | @relayed d f b h hd hp =>
      refine h.toCounted.accounted hnone hx (fun _ => ?_) (by simpa using hp) fun q hq hne => ?_
      · rcases List.mem_append.mp hx with hx | hx
        · exact hobjects h.res hx
        · -- the frame leads to the packet it came in
          simp only [frameObjects, List.mem_cons, List.not_mem_nil, or_false] at hx
          rcases hx with rfl | rfl | rfl | rfl
          · refine .inr ⟨f, h.data, ?_⟩
            rw [h.frame]
            exact Cmd.uses_of_frees (p := ⟨b, 0⟩) (by rw [h.dvr.2]; exact List.mem_cons_self)
          · exact .inr ⟨f, h.data, h.frame⟩
          · exact .inr ⟨f, h.data, h.frame⟩
          · exact h.data
      · obtain rfl := hq.resolve_right hne
        exact ⟨h.alone, hd⟩
  | unshared h hd =>
      refine h.toCounted.accounted hnone hx (fun hne => ?_) ?_ fun q hq hne => absurd hq hne
      · rw [h.alone] at hne
        exact absurd rfl hne
      · simpa using not_failed_of_unused hd
  | @dropped b h =>
      obtain rfl := List.mem_singleton.mp hx
      have hmine : (Obs.free (.block ⟨b, 0⟩)).ofMemory = true ∧
          (Objects.buffer b).Within (.free (.block ⟨b, 0⟩)) := ⟨rfl, rfl⟩
      have hnever : ∀ q < w.nCmds, ¬ w.Holds q (.block ⟨b, 0⟩) := fun q hq hold =>
        h.apart.packets_of_holds hq hmine hold
      refine ⟨?_, ?_, fun _ _ => h.freed, ?_⟩
      · intro hw
        obtain ⟨req, hreq, hold⟩ := hw
        exact absurd hold (hnever _ (hnone.written req hreq))
      · intro hf
        obtain ⟨q, hq, hold⟩ := hf
        exact absurd hold (hnever q (hnone.failed_lt hq))
      · refine List.pairwise_iff_forall_sublist.mpr fun hsub _ q hq => hnever q ?_
        exact ((Objects.within_iff_packet _ hq).2.mp (hnone.logged _ (hsub.subset (by simp)))).1

theorem Group.start (h : Group w V xs) {q : Ptr} (hq : .free (.block q) ∈ w.log)
    (hb : V.blocks q.block) : q.off = 0 := by
  cases h with
  | passed h _ => exact h.start q hq hb
  | asked h _ => exact h.start q hq hb
  | answered h _ => exact h.start q hq hb
  | relayed h _ _ => exact h.start q hq hb
  | unshared h _ => exact h.start q hq hb
  | dropped h => rw [h.start q hq hb]

theorem objects_lists {P : Objects} {b : Nat} (hp : ∀ q, P.packets q → q = p)
    (hf : ∀ f, ¬ P.frames f) (hb : ∀ q, P.blocks q → q = b) (hx : P.Has x) : x ∈ objects p b := by
  cases x with
  | slots q =>
      obtain rfl := hp q hx
      simp [objects]
  | cmd q =>
      obtain rfl := hp q hx
      simp [objects]
  | frame f => exact absurd hx (hf f)
  | block q =>
      obtain ⟨q, off⟩ := q
      obtain ⟨hq, rfl⟩ := hx
      obtain rfl := hb q hq
      simp [objects]
  | _ => exact hx.elim

theorem frameObjects_lists {d f b : Nat} (hx : (Objects.arrived d f b).Has x) :
    x ∈ frameObjects d f b := by
  cases x with
  | slots q =>
      obtain rfl : q = d := hx
      simp [frameObjects]
  | cmd q =>
      obtain rfl : q = d := hx
      simp [frameObjects]
  | frame g =>
      obtain rfl : g = f := hx
      simp [frameObjects]
  | block q =>
      obtain ⟨q, off⟩ := q
      obtain ⟨hq, rfl⟩ := hx
      obtain rfl : q = b := hq
      simp [frameObjects]
  | _ => exact hx.elim

/-- Whatever is in a group is one of the objects it lists. -/
theorem Group.lists (h : Group w V xs) (hx : V.Has x) : x ∈ xs := by
  cases h with
  | passed _ _ => exact objects_lists (fun _ => id) (fun _ => id) (fun _ => id) hx
  | asked _ _ => exact objects_lists (fun _ => id) (fun _ => id) (fun _ => id) hx
  | answered _ _ => exact objects_lists (fun _ => id) (fun _ => id) (fun _ => id) hx
  | @relayed d f b _ _ _ =>
      have hcases : (Objects.arrived d f b).Has x ∨ (Objects.received (d + 1) (b + 1)).Has x := by
        cases x with
        | block q => exact hx.1.elim (fun hq => .inl ⟨hq, hx.2⟩) fun hq => .inr ⟨hq, hx.2⟩
        | frame g => exact .inl hx
        | slots q | cmd q => exact hx
        | _ => exact hx.elim
      rcases hcases with hx | hx
      · exact List.mem_append_right _ (frameObjects_lists hx)
      · exact List.mem_append_left _ (objects_lists (fun _ => id) (fun _ => id) (fun _ => id) hx)
  | unshared _ _ => exact frameObjects_lists hx
  | @dropped b _ =>
      cases x with
      | block q =>
          obtain ⟨q, off⟩ := q
          obtain ⟨hq, rfl⟩ := hx
          obtain rfl : q = b := hq
          exact List.mem_singleton_self _
      | _ => exact hx.elim

theorem memory_of_run {uv : Nat → Int} {garbage : Nat → Values NvmpName} {es : List Event}
    (h : Transition.Run (fun w e w' => w.JoinsOnce e ∧ Step w e w') (init uv garbage) es w) :
    (∀ x, (w.rest .none).Has x → Accounted w x) ∧
      ∀ x, (Obs.free x).ofMemory = true → .free x ∈ w.log → (w.rest .none).Has x := by
  have hnone := apart_of_run (h.mono fun _ _ _ => And.right)
  have hbooks := books_of_run h
  refine ⟨fun x hx => ?_, fun x hmem hx => ?_⟩
  · obtain ⟨V, xs, hV, hVx⟩ : ∃ V xs, Group w V xs ∧ V.Has x := by
      cases x with
      | slots q | cmd q => exact hbooks.packets q hx.1
      | frame f => exact hbooks.frames f hx.1
      | block q =>
          obtain ⟨V, xs, hV, hq⟩ := hbooks.blocks q.block hx.1.1
          exact ⟨V, xs, hV, hq, hx.2⟩
      | _ => exact hx.elim
    exact hV.accounted hnone (hV.lists hVx)
  · have hwithin := hnone.logged _ hx
    cases x with
    | slots q | cmd q | frame f => exact hwithin
    | block q =>
        obtain ⟨V, xs, hV, hq⟩ := hbooks.blocks q.block hwithin.1
        exact ⟨hwithin, hV.start hx hq⟩
    | _ => cases hmem

/-- **What becomes of memory**, in every run in which no client asks for a
preview while it is attached, and no session is deleted in place of another:
every packet that a handler allocates or is handed, its slots, every frame and
every buffer stays while a pending write needs it, is freed once when none does,
and is not used after that; but a preview command that could not be written stays
with its buffer for good. Nothing else is freed. -/
theorem memory_of_recycling {uv : Nat → Int} {garbage : Nat → Values NvmpName} {es : List Event}
    (h : Transition.Run (fun w e w' => w.Proper e ∧ AllocStep w e w') (init uv garbage) es w) :
    (∀ x, (w.rest .none).Has x → Accounted w x) ∧
      ∀ x, (Obs.free x).ofMemory = true → .free x ∈ w.log → (w.rest .none).Has x := by
  obtain ⟨u, m, hrun, rfl⟩ := run_of_recycling h
  -- nothing of this lies in a session
  have hsteps : Transition.Run (fun w e w' => w.JoinsOnce e ∧ Step w e w') (init uv garbage) es u :=
    hrun.mono fun _ _ _ hs => ⟨hs.1.joins, hs.2⟩
  obtain ⟨haccounted, hnothing⟩ := memory_of_run hsteps
  refine ⟨fun x hx => ?_, hnothing⟩
  obtain ⟨held, lost, freed, last⟩ := haccounted x hx
  exact ⟨held, lost, freed, last⟩

/-- A frame goes to one of two clients, the other one waits for its response; the
second frame cannot be written. The next client's session gets the memory of
theirs. -/
def relays : List Occasion :=
  [(none, .connection), (none, previewOf 0 0), (none, .dvrConnected 0 0), (none, .writeDone 0 0),
    (none, .writeDone 0 0), (none, .connection), (none, previewOf 1 0),
    (none, .dvrPacket 0 zeroDvrFrame fun _ => 0), (none, .dvrPacket 0 zeroDvrFrame fun _ => 0),
    (none, .writeDone 1 0), (none, .readError 1 (-4095)), (none, .writeDone 0 (-125)), (none, .timer 0),
    (none, .dvrClosed 0), (none, .connection), (some 0, previewOf 2 1)]

theorem memory_of_recycling_relays :
    ∃ w, Transition.Run (fun w e w' => w.Proper e ∧ AllocStep w e w')
        (init (fun n => if n = 15 then -32 else 0) fun _ => Values.zero) (relays.map Prod.snd) w ∧
      (w.sessions 0).freed = true ∧ (w.sessions 1).clientSize = 1 ∧ w.writes = [] ∧
      Accounted w (.frame 0) ∧ Accounted w (.frame 1) := by
  have hval : ((init (fun n => if n = 15 then -32 else 0) fun _ => Values.zero).followAlloc Proper 4
      relays).map (fun w =>
        ((w.sessions 0).freed, (w.sessions 1).clientSize, w.writes, w.nFrames))
      = some (true, 1, [], 2) := by
    decide +kernel
  obtain ⟨w, hw, hval⟩ := Option.map_eq_some_iff.mp hval
  obtain ⟨hfreed, hval⟩ := Prod.mk.inj hval
  obtain ⟨hsize, hval⟩ := Prod.mk.inj hval
  obtain ⟨hwrites, hframes⟩ := Prod.mk.inj hval
  have hrun := run_of_followAlloc hw
  obtain ⟨haccounted, -⟩ := memory_of_recycling hrun
  exact ⟨w, hrun, hfreed, hsize, hwrites, haccounted (.frame 0) ⟨by omega, id⟩,
    haccounted (.frame 1) ⟨by omega, id⟩⟩

end Accounts

end Server

end Smts
