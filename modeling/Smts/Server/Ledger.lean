import Smts.Server.Callbacks

/-!
# Server — who is pointed to

Who still needs a packet, a frame or a buffer is written down nowhere: it
follows from who points to whom. A callback touches what it has made itself,
what the completed write has sent, and what these point to. The rest stays as
it is, so that the accounts of one packet can be kept through a whole run,
whatever else happens in it.
-/

namespace Smts

/-- A part of memory: some packets, some frames and some buffers. -/
structure Objects where
  packets : Nat → Prop
  frames : Nat → Prop
  blocks : Nat → Prop

def Objects.none : Objects := ⟨fun _ => False, fun _ => False, fun _ => False⟩

/-- An entry of the log is of no others. -/
def Objects.Within (P : Objects) : Obs → Prop
  | .uvWrite _ p _ _ _ | .sendFrame _ p | .free (.slots p) | .free (.cmd p) => P.packets p
  | .free (.frame f) => P.frames f
  | .free (.block q) => P.blocks q.block
  | _ => True

/-- Nothing is of `P` and of its complement. -/
theorem Objects.Within.elim {P Q : Objects} {o : Obs} (ho : o.ofMemory = true) (h : P.Within o)
    (h' : Q.Within o) (hp : ∀ p, P.packets p → ¬ Q.packets p) (hf : ∀ f, P.frames f → ¬ Q.frames f)
    (hb : ∀ b, P.blocks b → ¬ Q.blocks b) : False := by
  cases o with
  | free x => cases x <;> first | exact hp _ h h' | exact hf _ h h' | exact hb _ h h' | cases ho
  | uvWrite t p cb bytes r => exact hp p h h'
  | sendFrame c p => exact hp p h h'
  | _ => cases ho

/-- The packet that is given to `uv_write` or to `smts_client_send_frame`. -/
def Obs.packet? : Obs → Option Nat
  | .uvWrite _ p _ _ _ | .sendFrame _ p => some p
  | _ => none

theorem Objects.within_iff_packet (P : Objects) {o : Obs} {p : Nat} (ho : o.packet? = some p) :
    o.ofMemory = true ∧ (P.Within o ↔ P.packets p) := by
  cases o with
  | uvWrite t q cb bytes r =>
      obtain rfl := Option.some.inj ho
      exact ⟨rfl, Iff.rfl⟩
  | sendFrame c q =>
      obtain rfl := Option.some.inj ho
      exact ⟨rfl, Iff.rfl⟩
  | _ => cases ho

theorem Objects.within_of_ofMemory (P : Objects) {o : Obs} (ho : o.ofMemory = false) :
    P.Within o := by
  cases o with
  | free x => cases x <;> trivial
  | _ => trivial

theorem Objects.Within.mono {P Q : Objects} {o : Obs} (h : P.Within o)
    (hp : ∀ p, P.packets p → Q.packets p) (hf : ∀ f, P.frames f → Q.frames f)
    (hb : ∀ b, P.blocks b → Q.blocks b) : Q.Within o := by
  cases o with
  | free x => cases x <;> first | trivial | exact hp _ h | exact hf _ h | exact hb _ h
  | _ => first | trivial | exact hp _ h

/-- What is freed with a packet of the part belongs to the part, if the buffers
that the packet uses do. -/
theorem Objects.within_of_frees {P : Objects} {p : Nat} {t : NvmpCmd} {x : Freed}
    (hp : P.packets p) (huses : ∀ b, t.Uses b → P.blocks b) (hx : x ∈ t.frees) :
    P.Within (.free (x.obj p)) := by
  cases x with
  | block q => exact huses _ (Cmd.uses_of_frees hx)
  | slots => exact hp
  | struct => exact hp

theorem Cmd.destroy_spec {ν : Type} (t : Cmd ν) :
    (∃ r, t.destroy.1 = { t with ref := r }) ∧ ∀ x ∈ t.destroy.2, x ∈ t.frees := by
  by_cases h : t.ref = 0
  · rw [Cmd.destroy_last h]
    exact ⟨⟨t.ref, rfl⟩, fun _ hx => hx⟩
  · rw [Cmd.destroy_shared h]
    exact ⟨⟨_, rfl⟩, by simp⟩

namespace Server

/-! ## What is left when some objects are put aside -/

/-- All packets, frames and buffers that were made, but for those of `V`. -/
def rest (w : Server) (V : Objects) : Objects where
  packets p := p < w.nCmds ∧ ¬ V.packets p
  frames f := f < w.nFrames ∧ ¬ V.frames f
  blocks b := b < w.heap.blocks.length ∧ ¬ V.blocks b

/-- The writes of a packet that have not completed. -/
def writesOf (w : Server) (p : Nat) : List WriteReq := w.writes.filter fun req => req.packet = p

/-- Nothing points to `V` but what is in `V`, and writes. -/
structure Apart (V : Objects) (w : Server) : Prop where
  packets : ∀ p, V.packets p → p < w.nCmds
  frames : ∀ f, V.frames f → f < w.nFrames
  blocks : ∀ b, V.blocks b → b < w.heap.blocks.length
  data : ∀ p, (w.rest V).packets p → ∀ f, (w.cmds p).data = some f → (w.rest V).frames f
  uses : ∀ p, (w.rest V).packets p → ∀ b, (w.cmds p).Uses b → (w.rest V).blocks b
  packet : ∀ f, (w.rest V).frames f → (w.rest V).packets (w.frames f).data
  written : ∀ req ∈ w.writes, req.packet < w.nCmds
  logged : ∀ o ∈ w.log, (w.rest .none).Within o

/-- `V` has not been touched from `w` to `w'`: its packets and frames are as
they were, and the log says nothing of them. -/
structure Kept (V : Objects) (w w' : Server) : Prop where
  cmds : ∀ p, V.packets p → w'.cmds p = w.cmds p
  frames : ∀ f, V.frames f → w'.frames f = w.frames f
  writes : ∀ p, V.packets p → w'.writesOf p = w.writesOf p
  log : ∃ m, w'.log = w.log ++ m ∧ ∀ o ∈ m, (w'.rest V).Within o

/-- Between the two states `V` was not touched, and it cannot be reached in the
second. -/
structure Spares (V : Objects) (w w' : Server) : Prop where
  kept : Kept V w w'
  apart : Apart V w'
  grows : Grows w w'

theorem Grows.rest {w w' : Server} (h : Grows w w') (V : Objects) {o : Obs}
    (ho : (w.rest V).Within o) : (w'.rest V).Within o :=
  ho.mono (fun _ => And.imp_left h.nCmds.trans_lt') (fun _ => And.imp_left h.nFrames.trans_lt')
    fun _ => And.imp_left h.blocks.trans_lt'

theorem rest_none {w : Server} {V : Objects} {o : Obs} (ho : (w.rest V).Within o) :
    (w.rest .none).Within o :=
  ho.mono (fun _ h => ⟨h.1, id⟩) (fun _ h => ⟨h.1, id⟩) fun _ h => ⟨h.1, id⟩

section Spares

variable {V : Objects} {w w' : Server}

theorem Kept.refl (V : Objects) (w : Server) : Kept V w w :=
  ⟨fun _ _ => rfl, fun _ _ => rfl, fun _ _ => rfl, [], by simp, by simp⟩

theorem Kept.trans {a b c : Server} (h : Kept V a b) (h' : Kept V b c) (hg : Grows b c) :
    Kept V a c := by
  obtain ⟨m, hm, hmo⟩ := h.log
  obtain ⟨m', hm', hmo'⟩ := h'.log
  refine ⟨fun p hp => (h'.cmds p hp).trans (h.cmds p hp),
    fun f hf => (h'.frames f hf).trans (h.frames f hf),
    fun p hp => (h'.writes p hp).trans (h.writes p hp), m ++ m', ?_, fun o ho => ?_⟩
  · rw [hm', hm, List.append_assoc]
  · exact (List.mem_append.mp ho).elim (fun ho => hg.rest V (hmo o ho)) (hmo' o)

theorem Spares.refl (h : Apart V w) : Spares V w w :=
  ⟨.refl V w, h, .of_eq rfl rfl rfl rfl⟩

theorem Spares.trans {a b c : Server} (h : Spares V a b) (h' : Spares V b c) : Spares V a c :=
  ⟨h.kept.trans h'.kept h'.grows, h'.apart, h.grows.trans h'.grows⟩

/-- The log is longer, and packets, frames and buffers are as they were. -/
theorem Apart.spares_of_eq (h : Apart V w) (hcmds : w'.cmds = w.cmds) (hn : w'.nCmds = w.nCmds)
    (hframes : w'.frames = w.frames) (hf : w'.nFrames = w.nFrames) (hheap : w'.heap = w.heap)
    (hs : w.nSessions ≤ w'.nSessions)
    (hwrites : ∀ p, V.packets p → w'.writesOf p = w.writesOf p)
    (hwritten : ∀ req ∈ w'.writes, req.packet < w.nCmds) {m : List Obs}
    (hlog : w'.log = w.log ++ m) (hm : ∀ o ∈ m, (w.rest V).Within o) : Spares V w w' := by
  have hrest : ∀ V, w'.rest V = w.rest V := fun V => by rw [rest, rest, hn, hf, hheap]
  refine ⟨⟨fun p _ => by rw [hcmds], fun f _ => by rw [hframes], hwrites, m, hlog, ?_⟩,
    ⟨?_, ?_, ?_, ?_, ?_, ?_, ?_, ?_⟩, ⟨hs, hn.ge, hf.ge, by rw [hheap]⟩⟩
  · rwa [hrest]
  · rw [hn]; exact h.packets
  · rw [hf]; exact h.frames
  · rw [hheap]; exact h.blocks
  · rw [hrest, hcmds]; exact h.data
  · rw [hrest, hcmds]; exact h.uses
  · rw [hrest, hframes]; exact h.packet
  · rw [hn]; exact hwritten
  · rw [hrest, hlog]
    exact fun o ho => (List.mem_append.mp ho).elim (h.logged o) fun ho => rest_none (hm o ho)

theorem Apart.netOnly (h : Apart V w) (hn : NetOnly w w') (hs : w.nSessions ≤ w'.nSessions) :
    Spares V w w' := by
  obtain ⟨m, hlog, hm⟩ := hn.log
  exact h.spares_of_eq hn.cmds hn.nCmds hn.frames hn.nFrames hn.heap hs
    (fun p _ => by rw [writesOf, hn.writes]; rfl) (hn.writes ▸ h.written) hlog
    fun o ho => Objects.within_of_ofMemory _ (hm o ho)

theorem Apart.emit (h : Apart V w) {o : Obs} (ho : (w.rest V).Within o) : Spares V w (w.emit o) :=
  h.spares_of_eq rfl rfl rfl rfl rfl le_rfl (fun _ _ => rfl) h.written rfl (by simpa using ho)

/-- Only the count of a packet is changed. -/
theorem Apart.setRef (h : Apart V w) {p : Nat} (hp : (w.rest V).packets p) (n : Int) :
    Spares V w (w.setCmd p { w.cmds p with ref := n }) := by
  have hcmds : ∀ q, ∃ r, (w.setCmd p { w.cmds p with ref := n }).cmds q
      = { w.cmds q with ref := r } := fun q => by
    by_cases hq : q = p
    · subst hq
      exact ⟨n, by simp⟩
    · exact ⟨(w.cmds q).ref, by simp [Function.update_of_ne hq]⟩
  refine ⟨⟨fun q hq => ?_, fun _ _ => rfl, fun _ _ => rfl, [], by simp, by simp⟩,
    ⟨h.packets, h.frames, h.blocks, fun q hq f hf => ?_, fun q hq b hb => ?_, h.packet, h.written,
      h.logged⟩, .of_eq rfl rfl rfl rfl⟩
  · have hne : q ≠ p := fun heq => hp.2 (heq ▸ hq)
    simp [Function.update_of_ne hne]
  · obtain ⟨r, hr⟩ := hcmds q
    exact h.data q hq f (by rwa [hr] at hf)
  · obtain ⟨r, hr⟩ := hcmds q
    rw [hr] at hb
    exact h.uses q hq b hb

theorem protoCmdDestroy_eq (w : Server) (p : Nat) :
    ∃ n, w.protoCmdDestroy p = { w.setCmd p { w.cmds p with ref := n } with
      log := w.log ++ (w.cmds p).destroy.2.map fun x => .free (x.obj p) } := by
  obtain ⟨⟨n, hn⟩, -⟩ := Cmd.destroy_spec (w.cmds p)
  exact ⟨n, by rw [protoCmdDestroy, hn]; rfl⟩

/-- Giving up the last reference to a packet frees all of it. -/
theorem protoCmdDestroy_last {p : Nat} (hp : (w.cmds p).ref = 0) :
    w.protoCmdDestroy p
      = { w with log := w.log ++ (w.cmds p).frees.map fun x => .free (x.obj p) } := by
  rw [Server.protoCmdDestroy, Cmd.destroy_last hp, Function.update_eq_self]

/-- A packet that has other references only loses one. -/
theorem protoCmdDestroy_shared {p : Nat} (hp : (w.cmds p).ref ≠ 0) :
    w.protoCmdDestroy p = w.setCmd p { w.cmds p with ref := (w.cmds p).ref - 1 } := by
  rw [Server.protoCmdDestroy, Cmd.destroy_shared hp]
  simp [setCmd]

theorem Apart.protoCmdDestroy (h : Apart V w) {p : Nat} (hp : (w.rest V).packets p) :
    Spares V w (w.protoCmdDestroy p) := by
  obtain ⟨n, hn⟩ := protoCmdDestroy_eq w p
  have h₁ := h.setRef hp n
  rw [hn]
  refine h₁.trans (h₁.apart.spares_of_eq rfl rfl rfl rfl rfl le_rfl (fun _ _ => rfl) h.written rfl
    fun o ho => ?_)
  obtain ⟨x, hx, rfl⟩ := List.mem_map.mp ho
  exact Objects.within_of_frees hp (h.uses p hp) ((Cmd.destroy_spec _).2 x hx)

theorem Apart.destroySmtsFrame (h : Apart V w) {f : Nat} (hf : (w.rest V).frames f) :
    Spares V w (w.destroySmtsFrame f) := by
  have h₁ := h.protoCmdDestroy (h.packet f hf)
  exact h₁.trans (h₁.apart.emit hf)

theorem Apart.onSmtsClientSendFrame (h : Apart V w) {p : Nat} (hp : (w.rest V).packets p)
    (hr : w.onSmtsClientSendFrame p = some w') : Spares V w w' := by
  have h₁ := h.setRef hp ((w.cmds p).ref - 1)
  obtain ⟨-, rfl⟩ | ⟨-, f, hf, rfl⟩ := onSmtsClientSendFrame_cases hr
  · exact h₁
  · have h₂ := h₁.trans (h₁.apart.protoCmdDestroy hp)
    exact h₂.trans (h₂.apart.destroySmtsFrame (h.data p hp f hf))

theorem Apart.tcpClientSendMsg (h : Apart V w) {t : Target} {p : Nat} {cb : SendCb} {r : Int}
    (hp : (w.rest V).packets p) (hr : w.tcpClientSendMsg t p cb = (w', r)) : Spares V w w' := by
  have hlog : ∀ o ∈ [Obs.uvWrite t p cb ((w.cmds p).wire w.heap) r], (w.rest V).Within o :=
    fun o ho => by
      obtain rfl := List.mem_singleton.mp ho
      exact hp
  obtain ⟨-, rfl⟩ | ⟨-, rfl⟩ := tcpClientSendMsg_cases hr
  · refine h.spares_of_eq rfl rfl rfl rfl rfl le_rfl (fun q hq => ?_) (fun req hreq => ?_) rfl hlog
    · have hne : p ≠ q := fun heq => hp.2 (heq ▸ hq)
      simp [writesOf, hne]
    · rcases List.mem_append.mp hreq with hreq | hreq
      · exact h.written req hreq
      · obtain rfl := List.mem_singleton.mp hreq
        exact hp.1
  · exact h.spares_of_eq rfl rfl rfl rfl rfl le_rfl (fun _ _ => rfl) h.written rfl hlog

/-- Whatever is done with the packets of `V` itself, `V` stays apart from the
rest. -/
theorem Apart.own (h : Apart V w) (hn : w'.nCmds = w.nCmds) (hf : w'.nFrames = w.nFrames)
    (hheap : w'.heap = w.heap) (hcmds : ∀ p, ¬ V.packets p → w'.cmds p = w.cmds p)
    (hframes : w'.frames = w.frames) (hwritten : ∀ req ∈ w'.writes, req.packet < w.nCmds)
    {m : List Obs} (hlog : w'.log = w.log ++ m) (hm : ∀ o ∈ m, (w.rest .none).Within o) :
    Apart V w' := by
  have hrest : ∀ V, w'.rest V = w.rest V := fun V => by rw [rest, rest, hn, hf, hheap]
  refine ⟨hn ▸ h.packets, hf ▸ h.frames, hheap ▸ h.blocks, ?_, ?_, ?_, hn ▸ hwritten, ?_⟩
  · rw [hrest]
    exact fun p hp f hdata => h.data p hp f (by rwa [hcmds p hp.2] at hdata)
  · rw [hrest]
    exact fun p hp b huses => h.uses p hp b (by rwa [hcmds p hp.2] at huses)
  · rw [hrest, hframes]
    exact h.packet
  · rw [hrest, hlog]
    exact fun o ho => (List.mem_append.mp ho).elim (h.logged o) (hm o)

theorem filter_eraseIdx {α : Type} {l : List α} {k : Nat} {x : α} {q : α → Bool}
    (hk : l[k]? = some x) (hx : q x = false) : (l.eraseIdx k).filter q = l.filter q := by
  induction l generalizing k with
  | nil => rfl
  | cons y l ih =>
      cases k with
      | zero =>
          obtain rfl := Option.some.inj hk
          simp [hx]
      | succ k => simp [List.filter_cons, ih hk]

theorem length_filter_eraseIdx {α : Type} {l : List α} {k : Nat} {x : α} {q : α → Bool}
    (hk : l[k]? = some x) (hx : q x = true) :
    ((l.eraseIdx k).filter q).length + 1 = (l.filter q).length := by
  induction l generalizing k with
  | nil => cases hk
  | cons y l ih =>
      cases k with
      | zero =>
          obtain rfl := Option.some.inj hk
          simp [hx]
      | succ k =>
          have hk : l[k]? = some x := hk
          cases hy : q y <;> simp [hy, ih hk]

theorem Apart.eraseWrite (h : Apart V w) {k : Nat} {req : WriteReq} (hk : w.writes[k]? = some req)
    (hp : ¬ V.packets req.packet) : Spares V w (w.eraseWrite k) := by
  refine h.spares_of_eq rfl rfl rfl rfl rfl le_rfl (fun q hq => ?_) (fun req hreq => ?_)
    (List.append_nil _).symm (by simp)
  · have hne : req.packet ≠ q := fun heq => hp (heq ▸ hq)
    exact filter_eraseIdx hk (by simpa using hne)
  · exact h.written req (List.mem_of_mem_eraseIdx hreq)

/-- New buffers do not touch `V`. -/
theorem Apart.setHeap (h : Apart V w) (bs : List (List (Option Byte))) :
    Spares V w (w.setHeap ⟨w.heap.blocks ++ bs⟩) := by
  have hg : Grows w (w.setHeap ⟨w.heap.blocks ++ bs⟩) := ⟨le_rfl, le_rfl, le_rfl, by simp⟩
  exact ⟨⟨fun _ _ => rfl, fun _ _ => rfl, fun _ _ => rfl, [], by simp, by simp⟩,
    ⟨h.packets, h.frames, fun b hb => (h.blocks b hb).trans_le hg.blocks, h.data,
      fun q hq b hb => (h.uses q hq b hb).imp_left hg.blocks.trans_lt', h.packet, h.written,
      fun o ho => hg.rest _ (h.logged o ho)⟩, hg⟩

/-- A packet is made that points nowhere into `V`. -/
theorem Apart.addCmd (h : Apart V w) {t : NvmpCmd}
    (hdata : ∀ f, t.data = some f → (w.rest V).frames f)
    (huses : ∀ b, t.Uses b → (w.rest V).blocks b) : Spares V w (w.addCmd t) := by
  have hg : Grows w (w.addCmd t) := ⟨le_rfl, Nat.le_succ _, le_rfl, le_rfl⟩
  have hcases : ∀ q, ((w.addCmd t).rest V).packets q →
      ((w.rest V).packets q ∧ (w.addCmd t).cmds q = w.cmds q) ∨ (w.addCmd t).cmds q = t :=
    fun q hq => by
      by_cases hqn : q = w.nCmds
      · subst hqn
        exact .inr (by simp)
      · have hlt : q < w.nCmds + 1 := hq.1
        exact .inl ⟨⟨by omega, hq.2⟩, by simp [Function.update_of_ne hqn]⟩
  refine ⟨⟨fun q hq => ?_, fun _ _ => rfl, fun _ _ => rfl, [], by simp, by simp⟩,
    ⟨fun q hq => (h.packets q hq).trans_le hg.nCmds, h.frames, h.blocks, fun q hq f hf => ?_,
      fun q hq b hb => ?_, fun f hf => (h.packet f hf).imp_left hg.nCmds.trans_lt',
      fun req hreq => (h.written req hreq).trans_le hg.nCmds,
      fun o ho => hg.rest _ (h.logged o ho)⟩, hg⟩
  · have hne : q ≠ w.nCmds := (h.packets q hq).ne
    simp [Function.update_of_ne hne]
  · obtain ⟨hq, heq⟩ | heq := hcases q hq <;> rw [heq] at hf
    · exact h.data q hq f hf
    · exact hdata f hf
  · obtain ⟨hq, heq⟩ | heq := hcases q hq <;> rw [heq] at hb
    · exact h.uses q hq b hb
    · exact huses b hb

theorem Apart.addFrame (h : Apart V w) {x : SmtsFrame} (hx : (w.rest V).packets x.data) :
    Spares V w (w.addFrame x) := by
  have hg : Grows w (w.addFrame x) := ⟨le_rfl, le_rfl, Nat.le_succ _, le_rfl⟩
  refine ⟨⟨fun _ _ => rfl, fun f hf => ?_, fun _ _ => rfl, [], by simp, by simp⟩,
    ⟨h.packets, fun f hf => (h.frames f hf).trans_le hg.nFrames, h.blocks, fun q hq f hf => ?_,
      h.uses, fun f hf => ?_, h.written, fun o ho => hg.rest _ (h.logged o ho)⟩, hg⟩
  · have hne : f ≠ w.nFrames := (h.frames f hf).ne
    simp [Function.update_of_ne hne]
  · exact (h.data q hq f hf).imp_left hg.nFrames.trans_lt'
  · change (w.rest V).packets ((w.addFrame x).frames f).data
    by_cases hfn : f = w.nFrames
    · subst hfn
      simpa using hx
    · have hlt : f < w.nFrames + 1 := hf.1
      have hold : (w.rest V).frames f := ⟨by omega, hf.2⟩
      simpa [Function.update_of_ne hfn] using h.packet f hold

end Spares

/-! ## What the callbacks touch -/

section Callbacks

variable {V : Objects} {S : Scope} {w₀ w w' : Server}

/-- What a callback owns has not been put aside. -/
theorem Scope.Owns.rest (h₀ : Apart V w₀) {p : Nat} (hp : S.Owns w₀ w p)
    (hS : ∀ req, S.write = some req → (w₀.rest V).packets req.packet) (hle : w₀.nCmds ≤ w.nCmds) :
    (w.rest V).packets p := by
  obtain ⟨req, hreq, rfl⟩ | ⟨hge, hlt⟩ := hp
  · exact ⟨(hS req hreq).1.trans_le hle, (hS req hreq).2⟩
  · exact ⟨hlt, fun hV => absurd (h₀.packets p hV) (not_lt.mpr hge)⟩

theorem Apart.action (h₀ : Apart V w₀) (h : Apart V w) (hg : Grows w₀ w)
    (hS : ∀ req, S.write = some req → (w₀.rest V).packets req.packet) (ha : Action S w₀ w w') :
    Spares V w w' := by
  have hown : ∀ {p}, S.Owns w₀ w p → (w.rest V).packets p := fun hp => hp.rest h₀ hS hg.nCmds
  -- what was made since the callback began is none of what is kept aside
  have hnotBlock : ∀ b, w₀.heap.blocks.length ≤ b → ¬ V.blocks b := fun b hge hV =>
    absurd (h₀.blocks b hV) (not_lt.mpr hge)
  have hnotFrame : ∀ f, w₀.nFrames ≤ f → ¬ V.frames f := fun f hge hV =>
    absurd (h₀.frames f hV) (not_lt.mpr hge)
  have hnew : ∀ {p}, w₀.nCmds ≤ p → p < w.nCmds → (w.rest V).packets p := fun hge hlt =>
    ⟨hlt, fun hV => absurd (h₀.packets _ hV) (not_lt.mpr hge)⟩
  have hs := ha.grows.nSessions
  cases ha with
  | uvCall hr => exact h.netOnly (.uvCall hr) hs
  | emit hmem _ _ _ => exact h.emit (Objects.within_of_ofMemory _ hmem)
  | encodeNew hwf hdata hrefs hr =>
      obtain ⟨block, t', rfl, -, hdata', -, -, huses⟩ := encodeNew_spec hwf hr
      have h₁ := h.setHeap [block]
      refine h₁.trans (h₁.apart.addCmd (fun f hf => ?_) fun b hb => ?_)
      · obtain ⟨hge, hlt⟩ := hdata f (hdata' ▸ hf)
        exact ⟨hlt, hnotFrame f hge⟩
      -- the packet's own block is new; a block it refers to belongs to what it was made of
      · obtain rfl | ⟨f, hf, u, p, hu, hp, rfl⟩ := huses b hb
        · exact ⟨by simp, hnotBlock _ hg.blocks⟩
        · obtain ⟨hge, hlt⟩ := hrefs f hf u p hu hp
          exact ⟨hlt.trans_le h₁.grows.blocks, hnotBlock _ hge⟩
  | @receive b _ _ _ _ hr =>
      obtain ⟨-, hdata, -, huses⟩ := decode_ledger hr
      have h₁ := h.setHeap [b.map some]
      refine h₁.trans (h₁.apart.addCmd (fun f hf => ?_) fun b hb => ?_)
      · rw [hdata] at hf
        cases hf
      · obtain rfl := huses b hb
        exact ⟨by simp [Heap.receive], hnotBlock _ hg.blocks⟩
  | drop bytes =>
      have h₁ := h.setHeap [bytes.map some]
      refine h₁.trans (h₁.apart.emit ?_)
      exact ⟨by simp [Heap.receive], hnotBlock _ hg.blocks⟩
  | addFrame hx hlt => exact h.addFrame (hnew hx hlt)
  | increaseRef hp => exact h.setRef (hown hp) _
  | addRef hp n => exact h.setRef (hown hp) _
  | destroy hp => exact h.protoCmdDestroy (hown hp)
  | dropRef hp hr => exact h.onSmtsClientSendFrame (hown hp) hr
  | destroyFrame hf hlt => exact h.destroySmtsFrame ⟨hlt, hnotFrame _ hf⟩
  | send hp _ _ _ hr => exact h.tcpClientSendMsg (hown hp) hr
  | @sendPreviewRes c _ _ _ hp _ _ hr =>
      have h₁ := h.netOnly (.setClient w c { w.clients c with status := .onSendPreviewRes }) le_rfl
      exact h₁.trans (h₁.apart.tcpClientSendMsg (hown hp) hr)
  | complete hk hreq _ => exact h.eraseWrite hk (hS _ hreq).2
  | @previewResDone _ _ c hk hreq _ _ =>
      have h₁ := h.eraseWrite hk (hS _ hreq).2
      have h₂ := h₁.trans (h₁.apart.protoCmdDestroy (hown (.inl ⟨_, hreq, rfl⟩)))
      have h₃ := h₂.trans (h₂.apart.emit (o := .previewResDone c) trivial)
      exact h₃.trans (h₃.apart.netOnly (.setClient ..) le_rfl)
  | relay _ ho =>
      obtain ⟨s, f, rfl⟩ | ⟨c, f, rfl⟩ | ⟨c, p, rfl, hp⟩ := ho
      · exact h.emit trivial
      · exact h.emit trivial
      · exact h.emit (hown hp)
  | stop _ => exact h.netOnly (.stopSmtsClient ..) hs
  | touch _ => exact h.netOnly (.setSession ..) hs
  | delete hr => exact h.netOnly (.deleteSession hr) hs
  | initClient _ => exact h.netOnly (.initSmtsClient w) hs
  | startRead _ c => exact h.netOnly (.setClient ..) hs
  | close _ _ => exact h.netOnly (.closeClient ..) hs
  | closed _ => exact h.netOnly (.clientCloseCb ..) hs
  | initSession _ key => exact h.netOnly (.initMediaSession ..) hs
  | attach _ s => exact h.netOnly (.addSmtsClient ..) hs
  | manage _ m => exact h.netOnly (.manage ..) hs
  | abort _ s => exact h.netOnly (.initSessionError ..) hs

theorem Apart.does (h₀ : Apart V w₀)
    (hS : ∀ req, S.write = some req → (w₀.rest V).packets req.packet) (hd : Does S w₀ w) :
    Spares V w₀ w := by
  induction hd with
  | start => exact .refl h₀
  | step hd ha ih => exact ih.trans (h₀.action ih.apart hd.grows hS ha)

/-- A write of a packet in `V` is what completes. -/
def Completes (V : Objects) (w : Server) (e : Event) : Prop :=
  ∃ k status req, e = .writeDone k status ∧ w.writes[k]? = some req ∧ V.packets req.packet

theorem Apart.step (h : Apart V w) {e : Event} (he : ¬ Completes V w e) (hstep : Step w e w') :
    Spares V w w' := by
  obtain ⟨hen, fuel, hr⟩ := hstep
  refine h.does (S := { w.scope e with reach := fun _ => True }) (fun req hreq => ?_)
    (handle_does_any hen hr)
  cases e with
  | writeDone k status =>
      exact ⟨h.written req (List.mem_of_getElem? hreq), fun hV => he ⟨k, status, req, rfl, hreq, hV⟩⟩
  | _ => cases hreq

theorem init_apart (uv : Nat → Int) (garbage : Nat → Values NvmpName) :
    Apart .none (init uv garbage) where
  packets _ h := h.elim
  frames _ h := h.elim
  blocks _ h := h.elim
  data p h := absurd h.1 (Nat.not_lt_zero p)
  uses p h := absurd h.1 (Nat.not_lt_zero p)
  packet f h := absurd h.1 (Nat.not_lt_zero f)
  written req h := by cases h
  logged o h := by cases h

/-- Every state of a run mentions only what was made by then. -/
theorem apart_of_run {uv : Nat → Int} {garbage : Nat → Values NvmpName} {es : List Event}
    (h : Transition.Run Step (init uv garbage) es w) : Apart .none w :=
  h.invariant (fun _ _ _ ha hstep =>
    (ha.step (fun ⟨_, _, _, _, _, hV⟩ => hV) hstep).apart) (init_apart uv garbage)

/-- What is new is pointed to by nothing that is old. -/
theorem Apart.since (h : Apart .none w) (hg : Grows w w')
    (hp : ∀ p, V.packets p ↔ w.nCmds ≤ p ∧ p < w'.nCmds)
    (hf : ∀ f, V.frames f ↔ w.nFrames ≤ f ∧ f < w'.nFrames)
    (hb : ∀ b, V.blocks b ↔ w.heap.blocks.length ≤ b ∧ b < w'.heap.blocks.length)
    (hcmds : ∀ p < w.nCmds, w'.cmds p = w.cmds p)
    (hframes : ∀ f < w.nFrames, w'.frames f = w.frames f)
    (hwritten : ∀ req ∈ w'.writes, req.packet < w'.nCmds)
    (hlogged : ∀ o ∈ w'.log, (w'.rest .none).Within o) : Apart V w' := by
  have hold : ∀ {p}, (w'.rest V).packets p → (w.rest .none).packets p := fun hq =>
    ⟨by by_contra hge; exact hq.2 ((hp _).mpr ⟨not_lt.mp hge, hq.1⟩), id⟩
  have holdf : ∀ {f}, (w'.rest V).frames f → (w.rest .none).frames f := fun hq =>
    ⟨by by_contra hge; exact hq.2 ((hf _).mpr ⟨not_lt.mp hge, hq.1⟩), id⟩
  refine ⟨fun q hq => ((hp q).mp hq).2, fun f hq => ((hf f).mp hq).2, fun b hq => ((hb b).mp hq).2,
    fun q hq f hdata => ?_, fun q hq b huses => ?_, fun f hq => ?_, hwritten, hlogged⟩
  · rw [hcmds q (hold hq).1] at hdata
    have hlt := (h.data q (hold hq) f hdata).1
    exact ⟨hlt.trans_le hg.nFrames, fun hV => absurd hlt (not_lt.mpr ((hf f).mp hV).1)⟩
  · rw [hcmds q (hold hq).1] at huses
    have hlt := (h.uses q (hold hq) b huses).1
    exact ⟨hlt.trans_le hg.blocks, fun hV => absurd hlt (not_lt.mpr ((hb b).mp hV).1)⟩
  · rw [hframes f (holdf hq).1]
    have hlt := (h.packet f (holdf hq)).1
    exact ⟨hlt.trans_le hg.nCmds, fun hV => absurd hlt (not_lt.mpr ((hp _).mp hV).1)⟩

/-- A packet under way that uses a buffer of `V` is itself in `V`. -/
theorem Apart.uses_of_write (h : Apart V w) {req : WriteReq} (hreq : req ∈ w.writes) {b : Nat}
    (hb : V.blocks b) (huses : (w.cmds req.packet).Uses b) : V.packets req.packet := by
  by_contra hV
  exact (h.uses _ ⟨h.written req hreq, hV⟩ b huses).2 hb

theorem not_within_rest {o : Obs} (ho : o.ofMemory = true) (hV : V.Within o) :
    ¬ (w.rest V).Within o := fun h =>
  hV.elim ho h (fun _ hp hr => hr.2 hp) (fun _ hf hr => hr.2 hf) fun _ hb hr => hr.2 hb

end Callbacks

/-! ## Owners -/

/-- The objects `xs` of `V` go with the packet `p`, which has `n` owners
besides the writes of it: each was freed once if no owner is left, and after
that `p` was not used. -/
structure Counted (V : Objects) (p : Nat) (xs : List Obj) (w : Server) (n : Nat) : Prop where
  apart : Apart V w
  packet : V.packets p
  objects : ∀ x ∈ xs, (Obs.free x).ofMemory = true ∧ V.Within (.free x)
  freed : ∀ x ∈ xs, w.log.count (.free x) = if n + (w.writesOf p).length = 0 then 1 else 0
  start : ∀ q, .free (.block q) ∈ w.log → V.blocks q.block → q.off = 0
  order : w.log.Pairwise fun o o' => (∃ x ∈ xs, o = .free x) → o'.packet? ≠ some p

namespace Counted

variable {V : Objects} {w w' : Server} {p n : Nat} {xs : List Obj}

/-- Objects that were allocated just now have been freed by nobody. -/
theorem fresh (h : Apart .none w) (hp : ∀ q, V.packets q → w.nCmds ≤ q)
    (hf : ∀ f, V.frames f → w.nFrames ≤ f) (hb : ∀ b, V.blocks b → w.heap.blocks.length ≤ b)
    (happart : Apart V w') (hpacket : V.packets p)
    (hobjects : ∀ x ∈ xs, (Obs.free x).ofMemory = true ∧ V.Within (.free x)) {m : List Obs}
    (hlog : w'.log = w.log ++ m) (hm : ∀ o ∈ m, o.ofMemory = false)
    (hn : n + (w'.writesOf p).length ≠ 0) : Counted V p xs w' n := by
  have hnone : ∀ o ∈ w'.log, o.ofMemory = true → ¬ V.Within o := fun o ho hmem hV => by
    rw [hlog] at ho
    rcases List.mem_append.mp ho with ho | ho
    · exact (h.logged o ho).elim hmem hV (fun q hq hV => absurd hq.1 (not_lt.mpr (hp q hV)))
        (fun f hq hV => absurd hq.1 (not_lt.mpr (hf f hV)))
        fun b hq hV => absurd hq.1 (not_lt.mpr (hb b hV))
    · rw [hm o ho] at hmem
      cases hmem
  refine ⟨happart, hpacket, hobjects, fun x hx => ?_, fun q hq hV => absurd hV (hnone _ hq rfl), ?_⟩
  · rw [if_neg hn]
    exact List.count_eq_zero.mpr fun hmem => hnone _ hmem (hobjects x hx).1 (hobjects x hx).2
  · refine List.pairwise_iff_forall_sublist.mpr fun {o o'} hsub _ heq => ?_
    obtain ⟨hmem, hiff⟩ := V.within_iff_packet heq
    exact hnone o' (hsub.subset (by simp)) hmem (hiff.mpr hpacket)

/-- While there are owners, none of the objects has been freed. -/
theorem notMem (h : Counted V p xs w n) (hn : n + (w.writesOf p).length ≠ 0) {x : Obj}
    (hx : x ∈ xs) : .free x ∉ w.log := by
  have hfreed := h.freed x hx
  rw [if_neg hn] at hfreed
  exact List.count_eq_zero.mp hfreed

theorem next {n' : Nat} {m : List Obs} (h : Counted V p xs w n) (happart : Apart V w')
    (hlog : w'.log = w.log ++ m)
    (hcount : ∀ x ∈ xs, w.log.count (.free x) + m.count (.free x)
      = if n' + (w'.writesOf p).length = 0 then 1 else 0)
    (hstart : ∀ q, .free (.block q) ∈ m → V.blocks q.block → q.off = 0)
    (horder : (∀ o ∈ m, o.packet? ≠ some p) ∨ ∀ x ∈ xs, .free x ∉ w.log ++ m) :
    Counted V p xs w' n' where
  apart := happart
  packet := h.packet
  objects := h.objects
  freed x hx := by
    rw [hlog, List.count_append]
    exact hcount x hx
  start q hq hb := by
    rw [hlog] at hq
    exact (List.mem_append.mp hq).elim (fun hq => h.start q hq hb) fun hq => hstart q hq hb
  order := by
    rw [hlog]
    rcases horder with hm | hnone
    · refine List.pairwise_append.mpr ⟨h.order, ?_, fun o _ o' ho' _ => hm o' ho'⟩
      exact List.pairwise_iff_forall_sublist.mpr fun hsub _ => hm _ (hsub.subset (by simp))
    · refine List.pairwise_iff_forall_sublist.mpr fun hsub hfree => ?_
      obtain ⟨x, hx, rfl⟩ := hfree
      exact absurd (hsub.subset (by simp)) (hnone x hx)

/-- What leaves the objects alone leaves their owners alone, too. -/
theorem spares (h : Counted V p xs w n) (hs : Spares V w w') : Counted V p xs w' n := by
  obtain ⟨m, hlog, hm⟩ := hs.kept.log
  refine h.next hs.apart hlog (fun x hx => ?_) (fun q hq hb => absurd hb (hm _ hq).2)
    (.inl fun o ho heq => ((Objects.within_iff_packet _ heq).2.mp (hm o ho)).2 h.packet)
  obtain ⟨hmem, hV⟩ := h.objects x hx
  have hnone : m.count (.free x) = 0 :=
    List.count_eq_zero.mpr fun hx => not_within_rest hmem hV (hm _ hx)
  rw [h.freed x hx, hnone, hs.kept.writes p h.packet, Nat.add_zero]

/-- `V` is changed without freeing any of it, while there are owners. -/
theorem own {n' : Nat} (h : Counted V p xs w n) (hn : n + (w.writesOf p).length ≠ 0)
    (hn' : n' + (w'.writesOf p).length ≠ 0) (happart : Apart V w') {m : List Obs}
    (hlog : w'.log = w.log ++ m) (hm : ∀ x, .free x ∉ m) : Counted V p xs w' n' := by
  refine h.next happart hlog (fun x hx => ?_) (fun q hq => absurd hq (hm _)) (.inr fun x hx => ?_)
  · rw [h.freed x hx, if_neg hn, if_neg hn', List.count_eq_zero.mpr (hm x)]
  · exact fun hmem => (List.mem_append.mp hmem).elim (h.notMem hn hx) (hm x)

/-- A write that is queued is an owner in place of who queued it. -/
theorem send {t : Target} {cb : SendCb} {r : Int} (h : Counted V p xs w (n + 1))
    (hr : w.tcpClientSendMsg t p cb = (w', r)) :
    (r = 0 → Counted V p xs w' n ∧ ∃ i, w'.writesOf p = w.writesOf p ++ [⟨i, t, p, cb⟩]) ∧
      (r ≠ 0 → Counted V p xs w' (n + 1) ∧ w'.writesOf p = w.writesOf p) := by
  have hwithin : ∀ o ∈ [Obs.uvWrite t p cb ((w.cmds p).wire w.heap) r],
      (w.rest .none).Within o := fun o ho => by
    obtain rfl := List.mem_singleton.mp ho
    exact ⟨h.apart.packets p h.packet, id⟩
  obtain ⟨hz, hw⟩ | ⟨hne, hw⟩ := tcpClientSendMsg_cases hr
  · refine ⟨fun _ => ?_, fun hne => absurd hz hne⟩
    have hwrites : w'.writesOf p = w.writesOf p ++ [⟨w.nWrites, t, p, cb⟩] := by simp [hw, writesOf]
    have happart : Apart V w' := by
      subst hw
      refine h.apart.own rfl rfl rfl (fun _ _ => rfl) rfl (fun req hreq => ?_) rfl hwithin
      rcases List.mem_append.mp hreq with hreq | hreq
      · exact h.apart.written req hreq
      · obtain rfl := List.mem_singleton.mp hreq
        exact h.apart.packets p h.packet
    exact ⟨h.own (by omega) (by simp [hwrites]) happart (tcpClientSendMsg_log hr) (by simp), _, hwrites⟩
  · refine ⟨fun hz => absurd hz hne, fun _ => ?_⟩
    have happart : Apart V w' := by
      subst hw
      exact h.apart.own rfl rfl rfl (fun _ _ => rfl) rfl h.apart.written rfl hwithin
    exact ⟨h.own (by omega) (by omega) happart (tcpClientSendMsg_log hr) (by simp), by simp [hw, writesOf]⟩

/-- A write that completes leaves its part to the callback. -/
theorem eraseWrite {k : Nat} {req : WriteReq} (h : Counted V p xs w n)
    (hk : w.writes[k]? = some req) (hreq : req.packet = p) :
    Counted V p xs (w.eraseWrite k) (n + 1) := by
  have hlen : ((w.eraseWrite k).writesOf p).length + 1 = (w.writesOf p).length :=
    length_filter_eraseIdx hk (by simpa using hreq)
  refine h.own (by omega) (by omega) ?_ (List.append_nil _).symm (by simp)
  exact h.apart.own rfl rfl rfl (fun _ _ => rfl) rfl
    (fun req hreq => h.apart.written req (List.mem_of_mem_eraseIdx hreq))
    (List.append_nil _).symm (by simp)

theorem setRef (h : Counted V p xs w (n + 1)) {n' : Nat} {r : Int}
    (hn' : n' + (w.writesOf p).length ≠ 0) :
    Counted V p xs (w.setCmd p { w.cmds p with ref := r }) n' := by
  refine h.own (by omega) hn' ?_ (List.append_nil _).symm (by simp)
  refine h.apart.own rfl rfl rfl (fun q hq => ?_) rfl h.apart.written (List.append_nil _).symm (by simp)
  have hne : q ≠ p := fun heq => hq (heq ▸ h.packet)
  simp [Function.update_of_ne hne]

/-- When the last owner is gone, every one of the objects has been freed once. -/
theorem last {m : List Obs} (h : Counted V p xs w 1) (hn : w.writesOf p = [])
    (hwrites : w'.writes = w.writes) (happart : Apart V w') (hlog : w'.log = w.log ++ m)
    (hcount : ∀ x ∈ xs, m.count (.free x) = 1) (hm : ∀ o ∈ m, ∃ x, o = .free x)
    (hstart : ∀ q, .free (.block q) ∈ m → V.blocks q.block → q.off = 0) : Counted V p xs w' 0 := by
  have hn' : w'.writesOf p = [] := by rw [writesOf, hwrites]; exact hn
  refine h.next happart hlog (fun x hx => ?_) hstart (.inl fun o ho => ?_)
  · rw [h.freed x hx, hn, hn', hcount x hx]
    rfl
  · obtain ⟨x, rfl⟩ := hm o ho
    simp [Obs.packet?]

end Counted

end Server

end Smts
