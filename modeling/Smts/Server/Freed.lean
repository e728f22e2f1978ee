import Smts.Server.Channel
import Smts.Server.Exits

/-!
# Server — memory that nobody uses

A freed session keeps its contents in the model, and its address is not given
to another one. In the program its memory holds whatever comes, and `malloc`
may hand it out again. Neither makes a difference to a callback that does not
come across the session: not by an event of its own, not as the session of a
client, not on the manager's ring. What the callback does is then the same,
whatever is in that memory, and it leaves it as it is.
-/

namespace Smts

open Circular

/-- Memory that is not in use: of a session its fields and the head of its
ring, of a client its `queue`, of a session its node of the manager's ring. -/
structure Dead where
  session : Nat → Bool
  queue : Nat → Bool
  link : Nat → Bool

namespace Dead

def node (D : Dead) : RingNode → Bool
  | .head s => D.session s
  | .client c => D.queue c

def entry (D : Dead) : ManagerNode → Bool
  | .head => false
  | .session s => D.link s

/-- The parts of memory that are dead when the client's `queue` has come into
use. -/
def attach (D : Dead) (c : Nat) : Dead :=
  { D with queue := Function.update D.queue c false }

/-- The parts of memory that are dead when the session has been allocated. -/
def born (D : Dead) (s : Nat) : Dead :=
  { D with session := Function.update D.session s false, link := Function.update D.link s false }

theorem node_attach (D : Dead) (c : Nat) :
    (D.attach c).node = Function.update D.node (.client c) false := by
  funext q
  cases q with
  | head s => simp [node, attach]
  | client d =>
      by_cases hd : d = c
      · simp [node, attach, hd]
      · simp [node, attach, hd]

theorem node_born (D : Dead) (s : Nat) :
    (D.born s).node = Function.update D.node (.head s) false := by
  funext q
  cases q with
  | client c => simp [node, born]
  | head t =>
      by_cases ht : t = s
      · simp [node, born, ht]
      · simp [node, born, ht]

theorem entry_born (D : Dead) (s : Nat) :
    (D.born s).entry = Function.update D.entry (.session s) false := by
  funext q
  cases q with
  | head => simp [entry]
  | session t =>
      by_cases ht : t = s
      · simp [entry, born, ht]
      · simp [entry, born, ht]

/-- `D'` has more memory that is not in use. -/
structure Within (D D' : Dead) : Prop where
  session : ∀ s, D.session s = true → D'.session s = true
  queue : ∀ c, D.queue c = true → D'.queue c = true
  link : ∀ s, D.link s = true → D'.link s = true

theorem Within.node {D D' : Dead} (h : D.Within D') (q : RingNode) (hq : D.node q = true) :
    D'.node q = true := by
  cases q with
  | head s => exact h.session s hq
  | client c => exact h.queue c hq

theorem Within.entry {D D' : Dead} (h : D.Within D') (q : ManagerNode) (hq : D.entry q = true) :
    D'.entry q = true := by
  cases q with
  | head => exact hq
  | session s => exact h.link s hq

/-- Memory has come into use since `D`: queues of clients, and the sessions
from `n` to `n'`, which have been allocated. -/
structure Since (D' D : Dead) (n n' : Nat) : Prop where
  session : ∀ s, D'.session s = (D.session s && !(decide (n ≤ s) && decide (s < n')))
  queue : ∀ c, D'.queue c = true → D.queue c = true
  link : ∀ s, D'.link s = (D.link s && !(decide (n ≤ s) && decide (s < n')))

theorem Since.rfl {D : Dead} {n : Nat} : D.Since D n n := by
  have hnone : ∀ s, (decide (n ≤ s) && decide (s < n)) = false := by
    intro s
    simp
  refine ⟨fun s => ?_, fun _ => id, fun s => ?_⟩
  · rw [hnone, Bool.not_false, Bool.and_true]
  · rw [hnone, Bool.not_false, Bool.and_true]

theorem Since.attach {D' D : Dead} {n n' : Nat} (h : D'.Since D n n') (c : Nat) :
    (D'.attach c).Since D n n' where
  session := h.session
  queue d hd := by
    by_cases hdc : d = c
    · simp [Dead.attach, hdc] at hd
    · exact h.queue d (by simpa [Dead.attach, hdc] using hd)
  link := h.link

theorem Since.born (D : Dead) (n : Nat) : (D.born n).Since D n (n + 1) := by
  have hone : ∀ s, (decide (n ≤ s) && decide (s < n + 1)) = decide (s = n) := by
    intro s
    rw [← Bool.decide_and]
    congr 1
    simp only [eq_iff_iff]
    omega
  refine ⟨fun s => ?_, fun _ => id, fun s => ?_⟩
  · rw [hone]
    by_cases hs : s = n
    · simp [Dead.born, hs]
    · simp [Dead.born, hs]
  · rw [hone]
    by_cases hs : s = n
    · simp [Dead.born, hs]
    · simp [Dead.born, hs]

end Dead

/-- What is found in memory that is not in use. -/
structure Junk where
  sessions : Nat → SmtsSession
  rings : Links RingNode
  links : Links ManagerNode

/-- `m`, where `m'` was put into part of it. -/
def Junk.over (m : Junk) (F : Dead) (m' : Junk) : Junk where
  sessions s := if F.session s = true then m'.sessions s else m.sessions s
  rings := m.rings.overlay F.node m'.rings
  links := m.links.overlay F.entry m'.links

/-- The fields of `x` that the program reads and writes are those of `y`. What
libuv knows of the handles stays. -/
def SmtsSession.holding (x y : SmtsSession) : SmtsSession :=
  { x with key := y.key, clientSize := y.clientSize, status := y.status, exitCode := y.exitCode }

namespace Server

/-- The server, with `m` in the memory that is not in use. -/
@[simps]
def fill (w : Server) (D : Dead) (m : Junk) : Server :=
  { w with
    sessions := fun s => if D.session s = true then (w.sessions s).holding (m.sessions s)
      else w.sessions s
    rings := w.rings.overlay D.node m.rings
    manager := w.manager.overlay D.entry m.links }

/-- What a state has in the memory that is not in use. -/
def junk (w : Server) : Junk := ⟨w.sessions, w.rings, w.manager.links⟩

theorem fill_junk (w : Server) (D : Dead) : w.fill D w.junk = w := by
  have hsessions : (fun s => if D.session s = true then (w.sessions s).holding (w.junk.sessions s)
      else w.sessions s) = w.sessions := by
    funext s
    split
    · rfl
    · rfl
  have hrings : w.rings.overlay D.node w.junk.rings = w.rings := Links.overlay_self _ _
  have hmanager : w.manager.overlay D.entry w.junk.links = w.manager := by
    rw [SessionManager.overlay, show w.junk.links = w.manager.links from rfl, Links.overlay_self]
  rw [fill, hsessions, hrings, hmanager]

/-- What a state has after a fill can be put there as part of a larger one. -/
theorem fill_mono {w : Server} {D E : Dead} (hD : D.Within E) (m : Junk) :
    w.fill E (w.fill D m).junk = w.fill D m := by
  have hrings : w.rings.overlay E.node (w.fill D m).junk.rings = w.rings.overlay D.node m.rings :=
    Links.overlay_mono hD.node
  have hmanager : w.manager.overlay E.entry (w.fill D m).junk.links
      = w.manager.overlay D.entry m.links := by
    simp only [SessionManager.overlay, junk, fill_manager]
    rw [Links.overlay_mono hD.entry]
  rw [fill, hrings, hmanager, fill]
  congr 1
  funext s
  by_cases hs : D.session s = true
  · simp [junk, hs, hD.session s hs, SmtsSession.holding]
  · simp [junk, hs, SmtsSession.holding]

theorem fill_fill {w : Server} {D F : Dead} (hF : F.Within D) (m m' : Junk) :
    (w.fill D m).fill F m' = w.fill D (m.over F m') := by
  have hrings : (w.rings.overlay D.node m.rings).overlay F.node m'.rings
      = w.rings.overlay D.node (m.rings.overlay F.node m'.rings) := Links.overlay_overlay hF.node
  have hmanager : (w.manager.overlay D.entry m.links).overlay F.entry m'.links
      = w.manager.overlay D.entry (m.links.overlay F.entry m'.links) := by
    simp only [SessionManager.overlay]
    rw [Links.overlay_overlay hF.entry]
  rw [fill, fill_rings, fill_manager, hrings, hmanager, fill]
  simp only [Junk.over]
  congr 1
  funext s
  by_cases hs : F.session s = true
  · simp [hs, hF.session s hs, SmtsSession.holding]
  · by_cases hd : D.session s = true
    · simp [hs, hd]
    · simp [hs, hd]

/-- What was put there is taken out again. -/
theorem fill_restore (w : Server) (D : Dead) (m : Junk) : (w.fill D m).fill D w.junk = w := by
  have hover : w.fill D (m.over D w.junk) = w.fill D w.junk := by
    have hrings : w.rings.overlay D.node (m.over D w.junk).rings = w.rings.overlay D.node w.junk.rings :=
      Links.overlay_congr fun q hq => by simp [Junk.over, Links.overlay, hq]
    have hlinks : w.manager.links.overlay D.entry (m.over D w.junk).links
        = w.manager.links.overlay D.entry w.junk.links :=
      Links.overlay_congr fun q hq => by simp [Junk.over, Links.overlay, hq]
    rw [fill, fill, hrings, SessionManager.overlay, SessionManager.overlay, hlinks]
    congr 1
    funext s
    by_cases hs : D.session s = true
    · simp [Junk.over, hs]
    · simp [hs]
  rw [fill_fill ⟨fun _ => id, fun _ => id, fun _ => id⟩, hover, fill_junk]

/-- `K` are the nodes of the rings that are in use, and `O` the sessions that
`delete_session` may be called with. -/
structure InUse (D : Dead) (K : RingNode → Prop) (O : Nat → Prop) (w : Server) : Prop where
  apart : ∀ q, K q → D.node q = false
  closed : w.rings.Closed K
  attached : ∀ c s, (w.clients c).session = some s → K (.client c) ∧ K (.head s)
  owned : ∀ s, O s → K (.head s)
  members : ∃ l, w.manager.Exact w.keyOf l ∧ (∀ t ∈ l, K (.head t) ∧ D.link t = false) ∧
    ∀ s, O s → DeletesMember w.keyOf l (.delete (some s))

/-- `v` is `w` with something else in the memory that is not in use. -/
structure Twin (D : Dead) (K : RingNode → Prop) (O : Nat → Prop) (m : Junk) (w v : Server) :
    Prop where
  eq : v = w.fill D m
  inUse : InUse D K O w

/-- Two results are twins when the values returned are equal and the states are
twins. -/
def TwinRes {α : Type} (D : Dead) (K : RingNode → Prop) (O : Nat → Prop) (m : Junk)
    (p q : Server × α) : Prop :=
  q.2 = p.2 ∧ Twin D K O m p.1 q.1

section Twin

variable {D : Dead} {K : RingNode → Prop} {O : Nat → Prop} {m : Junk} {w w' v : Server}
  {fuel s c p : Nat}

/-! ## What both have in common -/

theorem InUse.session (h : InUse D K O w) (hs : K (.head s)) : D.session s = false :=
  h.apart _ hs

theorem Twin.sessions (h : Twin D K O m w v) (hs : K (.head s)) : v.sessions s = w.sessions s := by
  rw [h.eq, fill_sessions, h.inUse.session hs, if_neg Bool.false_ne_true]

theorem Twin.clients (h : Twin D K O m w v) : v.clients = w.clients := by
  rw [h.eq]
  rfl

theorem Twin.cmds (h : Twin D K O m w v) : v.cmds = w.cmds := by
  rw [h.eq]
  rfl

theorem Twin.nCmds (h : Twin D K O m w v) : v.nCmds = w.nCmds := by
  rw [h.eq]
  rfl

theorem Twin.writes (h : Twin D K O m w v) : v.writes = w.writes := by
  rw [h.eq]
  rfl

theorem Twin.log (h : Twin D K O m w v) : v.log = w.log := by
  rw [h.eq]
  rfl

theorem Twin.nFrames (h : Twin D K O m w v) : v.nFrames = w.nFrames := by
  rw [h.eq]
  rfl

theorem Twin.heap (h : Twin D K O m w v) : v.heap = w.heap := by
  rw [h.eq]
  rfl

theorem Twin.garbage (h : Twin D K O m w v) : v.garbage = w.garbage := by
  rw [h.eq]
  rfl

/-- A session in use has the same key, whatever the dead memory is filled with. -/
theorem InUse.keyOf (h : InUse D K O w) (m : Junk) (hs : K (.head s)) :
    (w.fill D m).keyOf s = w.keyOf s := by
  rw [Server.keyOf, Server.keyOf, fill_sessions, h.session hs, if_neg Bool.false_ne_true]

theorem entry_eq_false {l : List Nat} (hl : ∀ t ∈ l, K (.head t) ∧ D.link t = false) :
    ∀ q ∈ ManagerNode.head :: l.map .session, D.entry q = false := by
  intro q hq
  cases q with
  | head => rfl
  | session t => exact (hl t (by simpa using hq)).2

/-- What the manager and the rings are is the same, and the keys are. -/
theorem InUse.congr (h : InUse D K O w) (hclients : ∀ c, (w'.clients c).session = (w.clients c).session)
    (hrings : w'.rings = w.rings) (hmanager : w'.manager = w.manager)
    (hkey : ∀ s, K (.head s) → w'.keyOf s = w.keyOf s) : InUse D K O w' where
  apart := h.apart
  closed := hrings ▸ h.closed
  attached c s hc := h.attached c s (hclients c ▸ hc)
  owned := h.owned
  members := by
    obtain ⟨l, hl, hmem, hown⟩ := h.members
    have hkeys : ∀ t ∈ l, w'.keyOf t = w.keyOf t := fun t ht => hkey t (hmem t ht).1
    refine ⟨l, hmanager ▸ hl.congr hkeys, hmem, fun s hs => ?_⟩
    refine (hown s hs).imp_right fun hno t ht => ?_
    rw [hkeys t ht, hkey s (h.owned s hs)]
    exact hno t ht

theorem InUse.sameNet (h : InUse D K O w) (hn : SameNet w w') : InUse D K O w' :=
  h.congr (fun c => by rw [hn.clients]) hn.rings hn.manager fun s _ => by
    rw [Server.keyOf, Server.keyOf, hn.sessions]

/-! ## What the handlers are made of -/

theorem Twin.emit (h : Twin D K O m w v) (o : Obs) : Twin D K O m (w.emit o) (v.emit o) where
  eq := by
    rw [h.eq]
    rfl
  inUse := h.inUse.sameNet (.emit w o)

theorem Twin.setHeap (h : Twin D K O m w v) (x : Heap) : Twin D K O m (w.setHeap x) (v.setHeap x) where
  eq := by
    rw [h.eq]
    rfl
  inUse := h.inUse.sameNet (MemOnly.setHeap w x).toSameNet

theorem Twin.addCmd (h : Twin D K O m w v) (t : NvmpCmd) : Twin D K O m (w.addCmd t) (v.addCmd t) where
  eq := by
    rw [h.eq]
    rfl
  inUse := h.inUse.sameNet (MemOnly.addCmd w t).toSameNet

theorem Twin.addFrame (h : Twin D K O m w v) (x : SmtsFrame) :
    Twin D K O m (w.addFrame x) (v.addFrame x) where
  eq := by
    rw [h.eq]
    rfl
  inUse := h.inUse.sameNet (MemOnly.addFrame w x).toSameNet

theorem Twin.setCmd (h : Twin D K O m w v) (p : Nat) (t : NvmpCmd) :
    Twin D K O m (w.setCmd p t) (v.setCmd p t) where
  eq := by
    rw [h.eq]
    rfl
  inUse := h.inUse.sameNet (MemOnly.setCmd w p t).toSameNet

theorem Twin.eraseWrite (h : Twin D K O m w v) (k : Nat) :
    Twin D K O m (w.eraseWrite k) (v.eraseWrite k) where
  eq := by
    rw [h.eq]
    rfl
  inUse := h.inUse.sameNet (MemOnly.eraseWrite w k).toSameNet

theorem Twin.protoCmdDestroy (h : Twin D K O m w v) (p : Nat) :
    Twin D K O m (w.protoCmdDestroy p) (v.protoCmdDestroy p) where
  eq := by
    rw [h.eq]
    rfl
  inUse := h.inUse.sameNet (MemOnly.protoCmdDestroy w p).toSameNet

theorem Twin.destroySmtsFrame (h : Twin D K O m w v) (f : Nat) :
    Twin D K O m (w.destroySmtsFrame f) (v.destroySmtsFrame f) where
  eq := by
    rw [h.eq]
    rfl
  inUse := h.inUse.sameNet (MemOnly.destroySmtsFrame w f).toSameNet

theorem Twin.protoCmdIncreaseRef (h : Twin D K O m w v) (p : Nat) :
    Twin D K O m (w.protoCmdIncreaseRef p) (v.protoCmdIncreaseRef p) where
  eq := by
    rw [h.eq]
    rfl
  inUse := h.inUse.sameNet (MemOnly.setCmd w p _).toSameNet

theorem Twin.uvCall (h : Twin D K O m w v) : TwinRes D K O m w.uvCall v.uvCall := by
  refine ⟨?_, ?_, h.inUse.sameNet ⟨rfl, rfl, rfl, rfl, rfl, rfl⟩⟩
  · rw [h.eq]
    rfl
  · rw [h.eq]
    rfl

theorem Twin.encodeNew (h : Twin D K O m w v) (t : NvmpCmd) :
    Option.Rel (Twin D K O m) (w.encodeNew t) (v.encodeNew t) := by
  rw [h.eq, Server.encodeNew, Server.encodeNew]
  show Option.Rel _ ((t.encode w.heap).bind _) ((t.encode w.heap).bind _)
  cases t.encode w.heap with
  | none => exact .none
  | some x => exact .some (((⟨rfl, h.inUse⟩ : Twin D K O m w (w.fill D m)).setHeap x.1).addCmd x.2)

theorem Twin.tcpClientSendMsg (h : Twin D K O m w v) (t : Target) (p : Nat) (cb : SendCb) :
    TwinRes D K O m (w.tcpClientSendMsg t p cb) (v.tcpClientSendMsg t p cb) := by
  have hn := (MemOnly.tcpClientSendMsg (Prod.eta (w.tcpClientSendMsg t p cb)).symm).toSameNet
  rw [h.eq]
  by_cases hz : w.uv w.nUv = 0
  · have hsame : (w.fill D m).tcpClientSendMsg t p cb
        = ((w.tcpClientSendMsg t p cb).1.fill D m, (w.tcpClientSendMsg t p cb).2) := by
      simp only [Server.tcpClientSendMsg, Server.uvCall, Server.emit, fill_uv, fill_nUv, hz, if_true]
      rfl
    rw [hsame]
    exact ⟨rfl, rfl, h.inUse.sameNet hn⟩
  · have hsame : (w.fill D m).tcpClientSendMsg t p cb
        = ((w.tcpClientSendMsg t p cb).1.fill D m, (w.tcpClientSendMsg t p cb).2) := by
      simp only [Server.tcpClientSendMsg, Server.uvCall, Server.emit, fill_uv, fill_nUv, hz, if_false]
      rfl
    rw [hsame]
    exact ⟨rfl, rfl, h.inUse.sameNet hn⟩

theorem Twin.onSmtsClientSendFrame (h : Twin D K O m w v) (p : Nat) :
    Option.Rel (Twin D K O m) (w.onSmtsClientSendFrame p) (v.onSmtsClientSendFrame p) := by
  have h₁ := h.setCmd p { w.cmds p with ref := (w.cmds p).ref - 1 }
  rw [Server.onSmtsClientSendFrame, Server.onSmtsClientSendFrame, h.cmds]
  dsimp only
  rw [h₁.cmds]
  split
  · cases ((w.setCmd p { w.cmds p with ref := (w.cmds p).ref - 1 }).cmds p).data with
    | none => exact .none
    | some f => exact .some ((h₁.protoCmdDestroy p).destroySmtsFrame f)
  · exact .some h₁

/-- A client that is attached is so to a session in use. -/
theorem Twin.setClient (h : Twin D K O m w v) (c : Nat) (x : SmtsClient)
    (hx : ∀ s, x.session = some s → K (.client c) ∧ K (.head s)) :
    Twin D K O m (w.setClient c x) (v.setClient c x) where
  eq := by
    rw [h.eq]
    rfl
  inUse := by
    refine ⟨h.inUse.apart, h.inUse.closed, fun d s hd => ?_, h.inUse.owned, h.inUse.members⟩
    by_cases hdc : d = c
    · subst hdc
      rw [setClient_clients, Function.update_self] at hd
      exact hx s hd
    · rw [setClient_clients, Function.update_of_ne hdc] at hd
      exact h.inUse.attached d s hd

/-- The same change of a session's fields, if it keeps the key, leaves twins
twins. -/
theorem Twin.setSession (h : Twin D K O m w v) (hs : K (.head s)) (x : SmtsSession)
    (hx : x.key = (w.sessions s).key) : Twin D K O m (w.setSession s x) (v.setSession s x) where
  eq := by
    have hout := h.inUse.session hs
    rw [h.eq]
    simp only [Server.setSession, fill]
    congr 1
    funext t
    by_cases hts : t = s
    · subst hts
      simp [hout]
    · simp [hts]
  inUse := by
    refine h.inUse.congr (fun _ => rfl) rfl rfl fun t _ => ?_
    by_cases hts : t = s
    · subst hts
      simp [Server.keyOf, hx]
    · simp [Server.keyOf, hts]

theorem Twin.closeClient (h : Twin D K O m w v) (c : Nat) :
    Twin D K O m (w.closeClient c) (v.closeClient c) := by
  rw [Server.closeClient, Server.closeClient, h.clients]
  exact (h.setClient c { w.clients c with reading := false, closing := true } (h.inUse.attached c)).emit _

/-! ## Stopping clients -/

/-- A client that is attached is unlinked from nodes in use. -/
theorem Twin.leave (h : Twin D K O m w v) (hc : (w.clients c).session = some s) :
    Twin D K O m (w.mediaClientStopPreview s c) (v.mediaClientStopPreview s c) := by
  obtain ⟨hc, hs⟩ := h.inUse.attached c s hc
  have hlive := h.inUse.apart _ hc
  have hprev := h.inUse.apart _ (h.inUse.closed.prev _ hc)
  have hnext := h.inUse.apart _ (h.inUse.closed.next _ hc)
  have h₁ : Twin D K O m { w with rings := w.rings.remove (.client c) }
      { v with rings := v.rings.remove (.client c) } := by
    constructor
    · rw [h.eq]
      simp only [fill, Links.overlay_remove hlive hprev hnext]
    · exact ⟨h.inUse.apart, h.inUse.closed.remove hc, h.inUse.attached, h.inUse.owned, h.inUse.members⟩
  have h₂ := h₁.setSession hs (w.sessions s).leave rfl
  have h₃ := h₂.setClient c { w.clients c with session := none } (fun _ hs => by cases hs)
  rw [mediaClientStopPreview_eq, mediaClientStopPreview_eq, h.sessions hs]
  rw [h.clients] at h₃ ⊢
  exact h₃

theorem Twin.stopSmtsClient (h : Twin D K O m w v) (c : Nat) :
    Twin D K O m (w.stopSmtsClient c) (v.stopSmtsClient c) := by
  rw [Server.stopSmtsClient, Server.stopSmtsClient, h.clients]
  split
  · have h₁ := (h.setClient c { w.clients c with status := .onStop } (h.inUse.attached c)).emit (.stop c)
    refine Twin.closeClient ?_ c
    simp only [emit_clients, setClient_clients, Function.update_self]
    cases hs : (w.clients c).session with
    | none => simpa only [hs] using h₁
    | some s =>
        have hleave := h₁.leave (c := c) (s := s) (by simpa using hs)
        simpa only [hs] using hleave
  · exact h

/-! ## Sending to clients -/

theorem Twin.smtsClientSendPreviewRes (h : Twin D K O m w v) (c : Nat) (status : Int) :
    Option.Rel (Twin D K O m) (w.smtsClientSendPreviewRes c status)
      (v.smtsClientSendPreviewRes c status) := by
  have hres : v.previewRes status = w.previewRes status := by
    rw [h.eq]
    rfl
  rw [Server.smtsClientSendPreviewRes, Server.smtsClientSendPreviewRes, h.clients, h.nCmds, hres]
  split
  · refine (h.encodeNew _).bind fun a b _ hab => ?_
    dsimp only
    rw [hab.clients]
    obtain ⟨hr, h₁⟩ := (hab.setClient c { a.clients c with status := .onSendPreviewRes }
      (hab.inUse.attached c)).tcpClientSendMsg (.client c) w.nCmds .previewResSlient
    rw [hr]
    split
    · exact .some ((h₁.protoCmdDestroy _).stopSmtsClient c)
    · exact .some h₁
  split
  · exact .some (h.stopSmtsClient c)
  · exact .some h

theorem Twin.smtsClientSendFrame (h : Twin D K O m w v) (c p : Nat) :
    Option.Rel (Twin D K O m) (w.smtsClientSendFrame c p) (v.smtsClientSendFrame c p) := by
  have h₁ := h.emit (.sendFrame c p)
  rw [Server.smtsClientSendFrame, Server.smtsClientSendFrame]
  dsimp only
  rw [h₁.clients]
  split
  · obtain ⟨hr, h₂⟩ := h₁.tcpClientSendMsg (.client c) p .sendFrame
    rw [hr, h₂.cmds]
    split
    · exact (h₂.onSmtsClientSendFrame p).bind fun a b _ hab => .some (hab.stopSmtsClient c)
    · exact .some (h₂.emit _)
  · exact h₁.onSmtsClientSendFrame p

/-! ## Sessions -/

/-- A loop over a session's clients keeps twins twins, if its body does. -/
theorem Twin.forEachClient (h : Twin D K O m w v) (hs : K (.head s))
    {body body' : Nat → Server → Option Server}
    (hbody : ∀ c a b, Twin D K O m a b → Option.Rel (Twin D K O m) (body c a) (body' c b)) :
    Option.Rel (Twin D K O m) (w.forEachClient fuel s body) (v.forEachClient fuel s body') := by
  have hlinks : ∀ a b, Twin D K O m a b → ∀ q, K q →
      b.rings.next q = a.rings.next q ∧ K (a.rings.next q) := by
    intro a b hab q hq
    refine ⟨?_, hab.inUse.closed.next q hq⟩
    rw [hab.eq, fill_rings, Links.overlay_next (hab.inUse.apart q hq)]
  obtain ⟨hnext, hfirst⟩ := hlinks w v h _ hs
  rw [Server.forEachClient, Server.forEachClient, hnext]
  refine Links.forEach_rel hlinks (fun q a b _ hab => ?_) fuel hfirst h
  cases q with
  | head t => exact .none
  | client c => exact hbody c a b hab

/-- A session that may be deleted is deleted from among sessions in use. -/
theorem Twin.deleteSession (h : Twin D K O m w v) (hs : O s) :
    Option.Rel (Twin D K O m) (w.deleteSession fuel s) (v.deleteSession fuel s) := by
  obtain ⟨l, hl, hmem, hown⟩ := h.inUse.members
  have hkeys : ∀ t ∈ l, (w.fill D m).keyOf t = w.keyOf t := fun t ht => h.inUse.keyOf m (hmem t ht).1
  have hdel : (w.manager.overlay D.entry m.links).deleteSession (w.fill D m).keyOf fuel (some s)
      = (w.manager.deleteSession w.keyOf fuel (some s)).map
          fun p => (p.1.overlay D.entry m.links, p.2) :=
    hl.deleteSession_overlay (entry_eq_false hmem) hkeys (h.inUse.keyOf m (h.inUse.owned s hs))
      (hown s hs)
  rw [h.eq, Server.deleteSession, Server.deleteSession, fill_manager, hdel]
  cases hr : w.manager.deleteSession w.keyOf fuel (some s) with
  | none => exact .none
  | some x =>
      refine .some ⟨rfl, h.inUse.apart, h.inUse.closed, h.inUse.attached, h.inUse.owned, l.erase s,
        hl.deleted (hown s hs) hr, fun t ht => hmem t (List.mem_of_mem_erase ht), fun t ht => ?_⟩
      exact (hown t ht).erase hl.keys s

theorem Twin.stopMediaSession (h : Twin D K O m w v) (hs : O s) :
    Option.Rel (Twin D K O m) (w.stopMediaSession fuel s) (v.stopMediaSession fuel s) := by
  have hK := h.inUse.owned s hs
  refine h.deleteSession hs |>.bind fun a b _ hab => hab.forEachClient hK fun c a b hab => ?_
  rw [hab.sessions hK]
  exact (hab.smtsClientSendPreviewRes c _).bind fun a b _ hab => .some (hab.stopSmtsClient c)

theorem Twin.setExitCode (h : Twin D K O m w v) (hs : K (.head s)) (r : Int) :
    Twin D K O m (w.setExitCode s r) (v.setExitCode s r) := by
  rw [Server.setExitCode, Server.setExitCode, h.sessions hs]
  exact h.setSession hs _ rfl

theorem Twin.smtsDvrClientStop (h : Twin D K O m w v) (hs : K (.head s)) :
    Twin D K O m (w.smtsDvrClientStop s) (v.smtsDvrClientStop s) := by
  rw [Server.smtsDvrClientStop, Server.smtsDvrClientStop, h.sessions hs]
  exact (h.setSession hs { w.sessions s with
    dvr := { (w.sessions s).dvr with reading := false, closing := true } } rfl).emit _

theorem Twin.sessionExitCb (h : Twin D K O m w v) (hs : K (.head s))
    (hO : (w.sessions s).clientSize = 0 → O s) :
    Option.Rel (Twin D K O m) (w.sessionExitCb fuel s) (v.sessionExitCb fuel s) := by
  have h₁ := h.setSession hs { w.sessions s with waitExitTimer := false } rfl
  rw [Server.sessionExitCb, Server.sessionExitCb, h.sessions hs]
  dsimp only
  rw [h₁.sessions hs]
  split
  next hz =>
    have hz : (w.sessions s).clientSize = 0 := by simpa using hz
    exact (h₁.deleteSession (hO hz)).bind fun a b _ hab => .some (hab.smtsDvrClientStop hs)
  · exact .some (h₁.setExitCode hs smtsOk)

theorem Twin.onSmtsDvrClientRecvFrame (h : Twin D K O m w v) (hs : K (.head s)) (frame : Option Nat)
    (status : Int) (hO : status ≠ 0 → O s) :
    Option.Rel (Twin D K O m) (w.onSmtsDvrClientRecvFrame fuel s frame status)
      (v.onSmtsDvrClientRecvFrame fuel s frame status) := by
  rw [Server.onSmtsDvrClientRecvFrame, Server.onSmtsDvrClientRecvFrame]
  split
  next hne => exact (h.setExitCode hs status).stopMediaSession (hO hne)
  · cases frame with
    | none => exact .none
    | some f =>
        have h₁ := h.emit (.recvFrame s f)
        simp only [Option.bind_eq_bind, Option.bind_some]
        rw [h₁.sessions hs]
        split
        · have hinit : (v.emit (.recvFrame s f)).initCmd smtsFrameRes
              = (w.emit (.recvFrame s f)).initCmd smtsFrameRes := by
            rw [h.eq]
            rfl
          have hframe : (v.emit (.recvFrame s f)).frames = (w.emit (.recvFrame s f)).frames := by
            rw [h.eq]
            rfl
          rw [hinit, hframe, h₁.nCmds]
          refine (h₁.encodeNew _).bind fun a b _ hab => ?_
          rw [hab.cmds, hab.sessions hs]
          exact (hab.setCmd _ _).forEachClient hs fun c a b hab => hab.smtsClientSendFrame c _
        · exact .some (h₁.destroySmtsFrame f)

theorem Twin.smtsDvrClientStartReadFrames (h : Twin D K O m w v) (hs : K (.head s)) :
    TwinRes D K O m (w.smtsDvrClientStartReadFrames s) (v.smtsDvrClientStartReadFrames s) := by
  obtain ⟨hr, h₁⟩ := h.uvCall
  rw [Server.smtsDvrClientStartReadFrames, Server.smtsDvrClientStartReadFrames]
  dsimp only
  rw [hr, h₁.sessions hs]
  exact ⟨rfl, h₁.setSession hs _ rfl⟩

theorem Twin.sendPreviewResponses (h : Twin D K O m w v) (hs : K (.head s)) :
    Option.Rel (Twin D K O m) (w.sendPreviewResponses fuel s) (v.sendPreviewResponses fuel s) := by
  rw [Server.sendPreviewResponses, Server.sendPreviewResponses, h.sessions hs]
  split
  · exact h.forEachClient hs fun c a b hab => hab.smtsClientSendPreviewRes c smtsOk
  · exact .some h

/-- `stop_media_session` is called when the status says so, or when the reading
of frames cannot be started. -/
theorem Twin.onSmtsDvrClientSendPreview (h : Twin D K O m w v) (hs : K (.head s)) (status : Int)
    (hO : status ≠ 0 → O s)
    (hread : status = 0 → ∀ a, w.sendPreviewResponses fuel s = some a → a.uv a.nUv ≠ 0 → O s) :
    Option.Rel (Twin D K O m) (w.onSmtsDvrClientSendPreview fuel s status)
      (v.onSmtsDvrClientSendPreview fuel s status) := by
  rw [Server.onSmtsDvrClientSendPreview, Server.onSmtsDvrClientSendPreview]
  split
  next hne => exact (h.setExitCode hs status).stopMediaSession (hO hne)
  next hz =>
    refine (h.sendPreviewResponses hs).bind fun a b ha hab => ?_
    have h₁ := hab.setSession hs { a.sessions s with status := .running } rfl
    obtain ⟨hr, h₂⟩ := h₁.smtsDvrClientStartReadFrames hs
    dsimp only
    rw [hab.sessions hs, hr]
    split
    next hne => exact (h₂.setExitCode hs _).stopMediaSession (hread (not_not.mp hz) a ha hne)
    · exact .some h₂

theorem Twin.smtsDvrClientPreview (h : Twin D K O m w v) (hs : K (.head s))
    (hO : w.uv w.nUv ≠ 0 → O s) :
    Option.Rel (TwinRes D K O m) (w.smtsDvrClientPreview fuel s) (v.smtsDvrClientPreview fuel s) := by
  have hinit : v.initCmd mockDvrPreview = w.initCmd mockDvrPreview := by
    rw [h.eq]
    rfl
  rw [Server.smtsDvrClientPreview, Server.smtsDvrClientPreview, hinit, h.nCmds]
  refine (h.encodeNew _).bind fun a b ha hab => ?_
  obtain ⟨hr, h₁⟩ := hab.tcpClientSendMsg (.dvr s) w.nCmds .dvrPreview
  dsimp only
  rw [hr]
  split
  next hne =>
    rw [tcpClientSendMsg_snd, encodeNew_uvCall ha] at hne
    exact (h₁.onSmtsDvrClientSendPreview hs _ (fun _ => hO hne) fun h => absurd h (by decide)).bind
      fun a b _ hab => .some ⟨rfl, hab⟩
  · exact .some ⟨rfl, h₁⟩

theorem Twin.onConnectedToDvr (h : Twin D K O m w v) (hs : K (.head s)) (status : Int)
    (hO : status ≠ 0 ∨ w.uv w.nUv ≠ 0 → O s) :
    Option.Rel (Twin D K O m) (w.onConnectedToDvr fuel s status) (v.onConnectedToDvr fuel s status) := by
  rw [Server.onConnectedToDvr, Server.onConnectedToDvr]
  split
  next hne => exact (h.setExitCode hs _).stopMediaSession (hO (.inl hne))
  · refine (h.smtsDvrClientPreview hs fun hne => hO (.inr hne)).bind fun a b ha hab => ?_
    obtain ⟨hr, h₁⟩ := hab
    dsimp only
    rw [hr]
    split
    next hne =>
      refine (h₁.setExitCode hs _).stopMediaSession (hO (.inr ?_))
      rwa [← smtsDvrClientPreview_result ha]
    · exact .some h₁

/-! ## Starting a preview -/

/-- A client whose `queue` is linked in comes into use. -/
theorem Twin.addSmtsClient (h : Twin D K O m w v) (hs : K (.head s)) (c : Nat) :
    Twin (D.attach c) (fun q => K q ∨ q = .client c) O m (w.addSmtsClient s c) (v.addSmtsClient s c) := by
  have hout := h.inUse.session hs
  have hnext := h.inUse.apart _ (h.inUse.closed.next _ hs)
  have hbase : Twin (D.attach c) (fun q => K q ∨ q = .client c) O m
      { w with rings := w.rings.insertHead (.head s) (.client c) }
      { v with rings := v.rings.insertHead (.head s) (.client c) } := by
    constructor
    · rw [h.eq]
      simp only [fill, Dead.node_attach, Links.overlay_insertHead (h.inUse.apart _ hs) hnext]
      rfl
    · obtain ⟨l, hl, hmem, hown⟩ := h.inUse.members
      refine ⟨fun q hq => ?_, h.inUse.closed.insertHead_new hs _, fun d t hd => ?_,
        fun t ht => .inl (h.inUse.owned t ht), l, hl, fun t ht => ⟨.inl (hmem t ht).1, (hmem t ht).2⟩, hown⟩
      · rw [Dead.node_attach]
        by_cases hqc : q = .client c
        · rw [hqc, Function.update_self]
        · rw [Function.update_of_ne hqc]
          exact h.inUse.apart q (hq.resolve_right hqc)
      · obtain ⟨hd, ht⟩ := h.inUse.attached d t hd
        exact ⟨.inl hd, .inl ht⟩
  have h₁ := hbase.setSession (.inl hs) { w.sessions s with clientSize := (w.sessions s).clientSize + 1 } rfl
  have h₂ := h₁.setClient c { w.clients c with session := some s } fun t ht => by
    obtain rfl := Option.some.inj ht
    exact ⟨.inr rfl, .inl hs⟩
  have hsession := h.sessions hs
  rw [h.eq] at h₂ hsession ⊢
  rw [Server.addSmtsClient, Server.addSmtsClient]
  dsimp only
  rw [hsession]
  exact h₂.emit _

/-- Every field of a new session is written before it is read. -/
theorem Twin.initMediaSession (h : Twin D K O m w v) (hnew : ¬ K (.head w.nSessions))
    (key : SessionKey) :
    Twin (D.born w.nSessions) (fun q => K q ∨ q = .head w.nSessions) O m (w.initMediaSession key)
      (v.initMediaSession key) := by
  have hne : ∀ t, K (.head t) → t ≠ w.nSessions := fun t ht heq => hnew (heq ▸ ht)
  constructor
  · rw [h.eq]
    simp only [Server.initMediaSession, fill, SessionManager.overlay, Dead.node_born, Dead.entry_born,
      Links.overlay_init]
    congr 1
    funext t
    by_cases ht : t = w.nSessions
    · simp [ht, Dead.born]
    · simp [ht, Dead.born]
  · obtain ⟨l, hl, hmem, hown⟩ := h.inUse.members
    have hnot : w.nSessions ∉ l := fun hn => hnew (hmem _ hn).1
    have hkey : ∀ t, K (.head t) → (w.initMediaSession key).keyOf t = w.keyOf t := fun t ht => by
      simp [Server.keyOf, hne t ht]
    refine ⟨fun q hq => ?_, h.inUse.closed.init_new _, fun d t hd => ?_,
      fun t ht => .inl (h.inUse.owned t ht), l, ?_, fun t ht => ?_, fun t ht => ?_⟩
    · rw [Dead.node_born]
      by_cases hqn : q = .head w.nSessions
      · rw [hqn, Function.update_self]
      · rw [Function.update_of_ne hqn]
        exact h.inUse.apart q (hq.resolve_right hqn)
    · obtain ⟨hd, ht⟩ := h.inUse.attached d t hd
      exact ⟨.inl hd, .inl ht⟩
    · exact (hl.init_frame hnot).congr fun t ht => hkey t (hmem t ht).1
    · refine ⟨.inl (hmem t ht).1, ?_⟩
      simpa [Dead.born, hne t (hmem t ht).1] using (hmem t ht).2
    · refine (hown t ht).imp_right fun hno u hu => ?_
      rw [hkey u (hmem u hu).1, hkey t (h.inUse.owned t ht)]
      exact hno u hu

/-- Twins stay twins when no session has to be deleted. -/
theorem Twin.forget (h : Twin D K O m w v) : Twin D K (fun _ => False) m w v := by
  obtain ⟨l, hl, hmem, -⟩ := h.inUse.members
  exact ⟨h.eq, h.inUse.apart, h.inUse.closed, h.inUse.attached, fun _ hs => hs.elim, l, hl, hmem,
    fun _ hs => hs.elim⟩

theorem Twin.getSession (h : Twin D K O m w v) (fuel : Nat) (key : SessionKey) :
    v.manager.getSession v.keyOf fuel key = w.manager.getSession w.keyOf fuel key ∧
      ∀ s, w.manager.getSession w.keyOf fuel key = some (some s) → K (.head s) := by
  obtain ⟨l, hl, hmem, -⟩ := h.inUse.members
  constructor
  · rw [h.eq, fill_manager]
    exact hl.getSession_overlay (entry_eq_false hmem) (fun t ht => h.inUse.keyOf m (hmem t ht).1) key
  · intro s hs
    have hall := hl.getSession (Nat.lt_succ_self _) key
    have hfind := SessionManager.getSession_unique hs hall
    exact (hmem s (List.mem_of_find?_eq_some hfind)).1

/-- A session that was added may be deleted. -/
theorem Twin.addSession (h : Twin D K O m w v) (hs : K (.head s)) (hlink : D.link s = false) :
    Option.Rel (fun p q => q.2 = p.2 ∧
        Twin D K (fun t => p.2 = 0 ∧ t = s) m { w with manager := p.1 } { v with manager := q.1 })
      (w.manager.addSession w.keyOf fuel (some s)) (v.manager.addSession v.keyOf fuel (some s)) := by
  obtain ⟨l, hl, hmem, -⟩ := h.inUse.members
  have hkeys : ∀ t ∈ l, (w.fill D m).keyOf t = w.keyOf t := fun t ht => h.inUse.keyOf m (hmem t ht).1
  have hadd : (w.manager.overlay D.entry m.links).addSession (w.fill D m).keyOf fuel (some s)
      = (w.manager.addSession w.keyOf fuel (some s)).map
          fun p => (p.1.overlay D.entry m.links, p.2) :=
    hl.addSession_overlay (entry_eq_false hmem) hkeys (h.inUse.keyOf m hs) hlink
  rw [h.eq, fill_manager, hadd]
  cases hr : w.manager.addSession w.keyOf fuel (some s) with
  | none => exact .none
  | some x =>
      obtain ⟨x, r⟩ := x
      refine .some ⟨rfl, rfl, h.inUse.apart, h.inUse.closed, h.inUse.attached, ?_, ?_⟩
      · rintro t ⟨-, rfl⟩
        exact hs
      · by_cases hz : r = 0
        · subst hz
          refine ⟨s :: l, hl.added hr, fun t ht => ?_, fun t ht => .inl ?_⟩
          · rcases List.mem_cons.mp ht with rfl | ht
            · exact ⟨hs, hlink⟩
            · exact hmem t ht
          · rw [ht.2]
            exact List.mem_cons_self
        · obtain ⟨-, rfl⟩ | ⟨hz', -⟩ := SessionManager.addSession_cases hr
          · exact ⟨l, hl, hmem, fun t ht => absurd ht.1 hz⟩
          · exact absurd hz' hz

theorem Twin.initSmtsDvrClient (h : Twin D K O m w v) (s : Nat) :
    TwinRes D K O m (w.initSmtsDvrClient s) (v.initSmtsDvrClient s) := by
  obtain ⟨hr, h₁⟩ := (h.emit (.uvInit (.dvr s))).uvCall
  rw [Server.initSmtsDvrClient, Server.initSmtsDvrClient]
  dsimp only
  rw [hr]
  split
  · exact ⟨rfl, h₁⟩
  · exact ⟨rfl, h₁⟩

theorem Twin.tcpClientConnect (h : Twin D K O m w v) (hs : K (.head s)) :
    TwinRes D K O m (w.tcpClientConnect s) (v.tcpClientConnect s) := by
  obtain ⟨hr₁, h₁⟩ := (h.emit (.uvInit (.dvr s))).uvCall
  obtain ⟨hr₂, h₂⟩ := h₁.uvCall
  obtain ⟨hr₃, h₃⟩ := h₂.uvCall
  obtain ⟨hr₄, h₄⟩ := h₃.uvCall
  obtain ⟨hr₅, h₅⟩ := h₄.uvCall
  rw [Server.tcpClientConnect, Server.tcpClientConnect]
  dsimp only
  rw [hr₁, hr₂, hr₃, hr₄, hr₅, h₅.sessions hs]
  split
  · exact ⟨rfl, h₁⟩
  split
  · exact ⟨rfl, h₂⟩
  split
  · exact ⟨rfl, h₃⟩
  split
  · exact ⟨rfl, h₄⟩
  split
  · exact ⟨rfl, h₅⟩
  · exact ⟨rfl, h₅.setSession hs _ rfl⟩

theorem Twin.initSessionError (h : Twin D K O m w v) (hs : K (.head s)) (c : Nat) :
    Twin D K O m (w.initSessionError s c) (v.initSessionError s c) := by
  have h₁ := h.setClient c { w.clients c with session := none } (fun _ hs => by cases hs)
  rw [Server.initSessionError, Server.initSessionError, h.clients]
  dsimp only
  rw [h₁.sessions hs]
  exact (h₁.setSession hs { w.sessions s with freed := true } rfl).emit _

/-- Two states at the end of a callback. `n` is how many sessions there were
before. -/
def Follows (D : Dead) (m : Junk) (n : Nat) (w v : Server) : Prop :=
  ∃ D' K O, Twin D' K O m w v ∧ D'.Since D n w.nSessions

theorem Twin.follows (h : Twin D K O m w v) {D₀ : Dead} {n : Nat} (hD : D.Since D₀ n n)
    (hn : w.nSessions = n) : Follows D₀ m n w v :=
  ⟨D, K, O, h, hn ▸ hD⟩

/-- A new session, which is in memory that was not in use before. -/
theorem Twin.mediaClientStartPreview_new (h : Twin D K O m w v) (hnew : ¬ K (.head w.nSessions))
    (c : Nat) {key : SessionKey} (hget : w.manager.getSession w.keyOf fuel key = some none) :
    Option.Rel (fun p q => q.2 = p.2 ∧ ∃ K' O', Twin ((D.born w.nSessions).attach c) K' O' m p.1 q.1)
      (w.mediaClientStartPreview fuel c key) (v.mediaClientStartPreview fuel c key) := by
  have hs : v.nSessions = w.nSessions := by
    rw [h.eq]
    rfl
  have h₁ := (h.forget.initMediaSession hnew key).addSmtsClient (.inr rfl) c
  obtain ⟨hinit, h₂⟩ := h₁.initSmtsDvrClient w.nSessions
  have hK : (fun q => (K q ∨ q = .head w.nSessions) ∨ q = .client c) (RingNode.head w.nSessions) :=
    .inl (.inr rfl)
  rw [Server.mediaClientStartPreview, Server.mediaClientStartPreview, (h.getSession fuel key).1, hget]
  simp only [Option.bind_eq_bind, Option.bind_some]
  rw [hs, hinit]
  split
  · exact .some ⟨rfl, _, _, h₂.initSessionError hK c⟩
  refine (h₂.addSession hK (by simp [Dead.born, Dead.attach])).bind fun a b ha hab => ?_
  obtain ⟨hadd, h₃⟩ := hab
  obtain ⟨hconn, h₄⟩ := h₃.tcpClientConnect hK
  rw [hadd]
  split
  · exact .some ⟨rfl, _, _, h₃.initSessionError hK c⟩
  next hz =>
    simp only [hconn]
    split
    · refine (h₄.deleteSession ⟨not_not.mp hz, rfl⟩).bind fun a b _ hab => ?_
      exact .some ⟨rfl, _, _, hab.initSessionError hK c⟩
    · exact .some ⟨rfl, _, _, h₄⟩

/-- The two go on in the same way, and allocate no session. -/
theorem Follows.rel {D₀ : Dead} {n : Nat} {x y : Option Server} (h : Follows D₀ m n w v)
    (hgo : ∀ {D K O}, Twin D K O m w v → Option.Rel (Twin D K O m) x y)
    (hn : ∀ w', x = some w' → w'.nSessions = w.nSessions) : Option.Rel (Follows D₀ m n) x y := by
  obtain ⟨D, K, O, h, hD⟩ := h
  exact (hgo h).mono fun a b ha hab => ⟨D, K, O, hab, (hn a ha).symm ▸ hD⟩

theorem Twin.mediaClientStartPreview (h : Twin D K O m w v) (hnew : ¬ K (.head w.nSessions)) (c : Nat)
    (key : SessionKey) :
    Option.Rel (fun p q => q.2 = p.2 ∧ Follows D m w.nSessions p.1 q.1)
      (w.mediaClientStartPreview fuel c key) (v.mediaClientStartPreview fuel c key) := by
  obtain ⟨hget, hfound⟩ := h.getSession fuel key
  cases hr : w.manager.getSession w.keyOf fuel key with
  | none =>
      rw [Server.mediaClientStartPreview, Server.mediaClientStartPreview, hget, hr]
      exact .none
  | some found =>
      cases found with
      | some s =>
          have h₁ := h.addSmtsClient (hfound s hr) c
          rw [Server.mediaClientStartPreview, Server.mediaClientStartPreview, hget, hr]
          simp only [Option.bind_eq_bind, Option.bind_some]
          refine (h₁.smtsClientSendPreviewRes c smtsOk).bind fun a b ha hab => ?_
          refine .some ⟨rfl, hab.follows (Dead.Since.rfl.attach c) ?_⟩
          obtain ⟨w₁, st, hmem, -, -, rfl | rfl⟩ := smtsClientSendPreviewRes_stops ha
          · exact hmem.nSessions
          · exact (stopSmtsClient_nSessions w₁ c).trans hmem.nSessions
      | none =>
          refine (h.mediaClientStartPreview_new hnew c hr).mono fun p q hp hpq => ?_
          obtain ⟨hres, K', O', hpq⟩ := hpq
          obtain ⟨-, hn, -⟩ := (Server.mediaClientStartPreview_new hr hp).spec
          have hn : p.1.nSessions = w.nSessions + 1 := hn
          exact ⟨hres, _, K', O', hpq, hn ▸ (Dead.Since.born D _).attach c⟩

/-- Twins make and send the same response, or neither of them can. -/
theorem Twin.sendRes (h : Twin D K O m w v) (t : NvmpCmd) (c p : Nat) (cb : SendCb) :
    Option.Rel (Twin D K O m)
      ((w.encodeNew t).bind fun w =>
        let x := w.tcpClientSendMsg (.client c) p cb
        if x.2 ≠ 0 then some (x.1.protoCmdDestroy p) else some x.1)
      ((v.encodeNew t).bind fun v =>
        let x := v.tcpClientSendMsg (.client c) p cb
        if x.2 ≠ 0 then some (x.1.protoCmdDestroy p) else some x.1) := by
  refine (h.encodeNew t).bind fun a b _ hab => ?_
  obtain ⟨hr, h₁⟩ := hab.tcpClientSendMsg (.client c) p cb
  dsimp only
  rw [hr]
  split
  · exact .some (h₁.protoCmdDestroy p)
  · exact .some h₁

theorem sendRes_nSessions {t : NvmpCmd} {cb : SendCb}
    (h : ((w.encodeNew t).bind fun w =>
        let x := w.tcpClientSendMsg (.client c) p cb
        if x.2 ≠ 0 then some (x.1.protoCmdDestroy p) else some x.1) = some w') :
    w'.nSessions = w.nSessions := by
  obtain ⟨a, ha, h⟩ := Option.bind_eq_some_iff.mp h
  have hsend := (MemOnly.encodeNew ha).toSameNet.trans
    (MemOnly.tcpClientSendMsg (Prod.eta (a.tcpClientSendMsg (.client c) p cb)).symm).toSameNet
  dsimp only at h
  split at h
  · obtain rfl := Option.some.inj h
    exact hsend.nSessions
  · obtain rfl := Option.some.inj h
    exact hsend.nSessions

theorem Twin.smtsStartPreview (h : Twin D K O m w v) (hnew : ¬ K (.head w.nSessions)) (c p : Nat) :
    Option.Rel (Follows D m w.nSessions) (w.smtsStartPreview fuel c p) (v.smtsStartPreview fuel c p) := by
  rw [Server.smtsStartPreview, Server.smtsStartPreview, h.cmds]
  refine (h.mediaClientStartPreview hnew c _).bind fun a b _ hab => ?_
  obtain ⟨a, r⟩ := a
  obtain ⟨b, r'⟩ := b
  obtain rfl : r' = r := hab.1
  have hab : Follows D m w.nSessions a b := hab.2
  dsimp only
  split
  · have hres : b.previewRes r' = a.previewRes r' := by
      obtain ⟨D', K', O', hab, -⟩ := hab
      rw [hab.eq]
      rfl
    have hcmds : b.nCmds = a.nCmds := by
      obtain ⟨D', K', O', hab, -⟩ := hab
      exact hab.nCmds
    rw [hres, hcmds]
    exact hab.rel (fun h => h.sendRes _ c a.nCmds .errorPreviewRes) fun w' => sendRes_nSessions
  · exact .some hab

/-! ## The transparent channel -/

theorem Twin.mediaClientSendCmd (h : Twin D K O m w v) (c p : Nat) :
    TwinRes D K O m (w.mediaClientSendCmd c p) (v.mediaClientSendCmd c p) := by
  rw [Server.mediaClientSendCmd, Server.mediaClientSendCmd, h.clients]
  cases hs : (w.clients c).session with
  | none => exact ⟨rfl, h⟩
  | some s =>
      obtain ⟨hr, h₁⟩ := (h.protoCmdIncreaseRef p).tcpClientSendMsg (.dvr s) p .sendCmdToDvr
      dsimp only
      rw [hr]
      split
      · exact ⟨rfl, h₁.protoCmdDestroy p⟩
      · exact ⟨rfl, h₁⟩

theorem Twin.msgChannel (h : Twin D K O m w v) (c p : Nat) :
    Option.Rel (Twin D K O m) (w.msgChannel c p) (v.msgChannel c p) := by
  obtain ⟨hr, h₁⟩ := h.mediaClientSendCmd c p
  rw [Server.msgChannel, Server.msgChannel]
  dsimp only
  rw [hr, h₁.garbage, h₁.nCmds]
  exact h₁.sendRes _ c _ .commonRes

theorem mediaClientSendCmd_nSessions (w : Server) (c p : Nat) :
    (w.mediaClientSendCmd c p).1.nSessions = w.nSessions := by
  rw [mediaClientSendCmd]
  cases (w.clients c).session with
  | none => rfl
  | some s =>
      have hsend := (MemOnly.tcpClientSendMsg (Prod.eta ((w.protoCmdIncreaseRef p).tcpClientSendMsg
        (.dvr s) p .sendCmdToDvr)).symm).toSameNet
      dsimp only
      split
      · exact hsend.nSessions
      · exact hsend.nSessions

theorem msgChannel_nSessions {c p : Nat} (hr : w.msgChannel c p = some w') :
    w'.nSessions = w.nSessions :=
  (sendRes_nSessions hr).trans (mediaClientSendCmd_nSessions w c p)

/-! ## The callbacks -/

theorem Twin.initSmtsClient (h : Twin D K O m w v) (hnew : ¬ K (.client w.nClients)) :
    Twin (D.attach w.nClients) K O m w.initSmtsClient v.initSmtsClient := by
  constructor
  · rw [h.eq]
    simp only [Server.initSmtsClient, fill, Dead.node_attach, Links.overlay_init]
    rfl
  · refine ⟨fun q hq => ?_, h.inUse.closed.init _, fun d s hd => ?_, h.inUse.owned, h.inUse.members⟩
    · rw [Dead.node_attach]
      by_cases hqc : q = .client w.nClients
      · exact absurd (hqc ▸ hq) hnew
      · rw [Function.update_of_ne hqc]
        exact h.inUse.apart q hq
    · by_cases hdc : d = w.nClients
      · subst hdc
        simp at hd
      · refine h.inUse.attached d s ?_
        simpa [hdc] using hd

theorem Twin.clientOnConnection (h : Twin D K O m w v) (hnew : ¬ K (.client w.nClients)) :
    Follows D m w.nSessions w.clientOnConnection v.clientOnConnection := by
  have h₁ := h.initSmtsClient hnew
  obtain ⟨hr₂, h₂⟩ := h₁.uvCall
  obtain ⟨hr₃, h₃⟩ := h₂.uvCall
  have hn : v.nClients = w.nClients := by
    rw [h.eq]
    rfl
  have hD : (D.attach w.nClients).Since D w.nSessions w.nSessions := Dead.Since.rfl.attach _
  rw [Server.clientOnConnection, Server.clientOnConnection]
  dsimp only
  rw [hn, hr₂, hr₃, h₃.clients]
  split
  · exact (h₂.closeClient _).follows hD rfl
  split
  · exact (h₃.closeClient _).follows hD rfl
  · have h₄ := h₃.setClient w.nClients
      { w.initSmtsClient.uvCall.1.uvCall.1.clients w.nClients with reading := true }
      (h₃.inUse.attached _)
    exact h₄.follows hD rfl

theorem Twin.onDvrClientReadFrameCb (h : Twin D K O m w v) (hs : K (.head s)) (bytes : List Byte)
    (junk : Int → Byte) :
    Option.Rel (Twin D K O m) (w.onDvrClientReadFrameCb fuel s bytes junk)
      (v.onDvrClientReadFrameCb fuel s bytes junk) := by
  rw [Server.onDvrClientReadFrameCb, Server.onDvrClientReadFrameCb, h.heap]
  obtain ⟨x, base⟩ := w.heap.receive bytes
  have h₁ := h.setHeap x
  dsimp only
  rw [h₁.garbage, h₁.nCmds]
  refine Option.Rel.bind (R := fun t t' => t' = t) ?_ fun t t' _ ht => ?_
  · cases dvrDecode (Reader.beyond bytes junk) base (BitVec.ofNat 64 bytes.length)
      ((w.setHeap x).garbage (w.setHeap x).nCmds) with
    | none => exact .none
    | some t => exact .some rfl
  · have h₂ := h₁.addCmd t
    have h₃ := h₂.addFrame (smtsFrameOf (w.setHeap x).nCmds t)
    have h₄ := (h₃.protoCmdIncreaseRef (w.setHeap x).nCmds).protoCmdDestroy (w.setHeap x).nCmds
    rw [ht, h₂.nFrames]
    exact h₄.onSmtsDvrClientRecvFrame hs _ 0 fun h => absurd rfl h

theorem Twin.onDvrClientReadError (h : Twin D K O m w v) (hs : O s) :
    Option.Rel (Twin D K O m) (w.onDvrClientReadError fuel s) (v.onDvrClientReadError fuel s) := by
  have hK := h.inUse.owned s hs
  have h₁ := h.setSession hK
    { w.sessions s with dvr := { (w.sessions s).dvr with reading := false } } rfl
  rw [Server.onDvrClientReadError, Server.onDvrClientReadError, h.sessions hK]
  exact h₁.onSmtsDvrClientRecvFrame hK none dvrRecvFrameError fun _ => hs

theorem Twin.onTcpClientConnectCb (h : Twin D K O m w v) (hs : K (.head s)) (status : Int)
    (hO : status ≠ 0 ∨ w.uv w.nUv ≠ 0 → O s) :
    Option.Rel (Twin D K O m) (w.onTcpClientConnectCb fuel s status)
      (v.onTcpClientConnectCb fuel s status) := by
  rw [Server.onTcpClientConnectCb, Server.onTcpClientConnectCb, h.sessions hs]
  have h₁ := h.setSession hs { w.sessions s with dvr := { (w.sessions s).dvr with connecting := false } } rfl
  exact (h₁.onConnectedToDvr hs status hO).bind fun a b _ hab => .some (hab.emit _)

theorem Twin.clientCloseCb (h : Twin D K O m w v) (c : Nat) :
    Twin D K O m (w.clientCloseCb c) (v.clientCloseCb c) := by
  have h₁ := h.emit (.uvClosed (.client c))
  rw [Server.clientCloseCb, Server.clientCloseCb]
  dsimp only
  rw [h₁.clients]
  exact (h₁.setClient c { w.clients c with freed := true } (h.inUse.attached c)).emit _

theorem Twin.onDvrClientCloseCb (h : Twin D K O m w v) (hs : K (.head s)) :
    Twin D K O m (w.onDvrClientCloseCb s) (v.onDvrClientCloseCb s) := by
  have h₁ := h.emit (.uvClosed (.dvr s))
  rw [Server.onDvrClientCloseCb, Server.onDvrClientCloseCb]
  dsimp only
  rw [h₁.sessions hs]
  exact (h₁.setSession hs { w.sessions s with freed := true } rfl).emit _

theorem Twin.readPacket (h : Twin D K O m w v) (bytes : List Byte) (junk : Int → Byte) (base : Ptr) :
    dispatchDecode (Reader.beyond bytes junk) base (BitVec.ofNat 64 bytes.length) (v.garbage v.nCmds)
      = dispatchDecode (Reader.beyond bytes junk) base (BitVec.ofNat 64 bytes.length)
          (w.garbage w.nCmds) := by
  rw [h.garbage, h.nCmds]

theorem Twin.callImp (h : Twin D K O m w v) (hnew : ¬ K (.head w.nSessions)) (c p : Nat)
    (imp : Option CmdImp) :
    Option.Rel (Follows D m w.nSessions) (w.callImp fuel c p imp) (v.callImp fuel c p imp) := by
  cases imp with
  | none => exact .some (h.follows .rfl rfl)
  | some imp =>
      cases imp with
      | smtsStartPreview => exact h.smtsStartPreview hnew c p
      | mockDvrPreviewImpl => exact .none
      | msgChannel =>
          exact (h.msgChannel c p).mono fun a b ha hab => hab.follows .rfl (msgChannel_nSessions ha)

theorem Twin.dispatchPacket (h : Twin D K O m w v) (hnew : ¬ K (.head w.nSessions)) (c : Nat)
    (bytes : List Byte) (junk : Int → Byte) :
    Option.Rel (Follows D m w.nSessions) (w.dispatchPacket fuel c bytes junk)
      (v.dispatchPacket fuel c bytes junk) := by
  rw [Server.dispatchPacket, Server.dispatchPacket, h.heap]
  obtain ⟨x, base⟩ := w.heap.receive bytes
  have h₁ := h.setHeap x
  dsimp only
  rw [h₁.readPacket, h₁.nCmds]
  cases dispatchDecode (Reader.beyond bytes junk) base (BitVec.ofNat 64 bytes.length)
    ((w.setHeap x).garbage (w.setHeap x).nCmds) with
  | none => exact .none
  | some found =>
      cases found with
      | none => exact .some ((h₁.emit _).follows .rfl rfl)
      | some t =>
          refine ((h₁.addCmd t.1).callImp hnew c _ t.2).bind fun a b _ hab => ?_
          refine hab.rel (fun h => .some (h.protoCmdDestroy _)) fun w' hw' => ?_
          obtain rfl := Option.some.inj hw'
          rfl

theorem Twin.sendCb (h : Twin D K O m w v) (req : WriteReq) (status : Int)
    (hs : ∀ s, req.client = .dvr s → K (.head s))
    (hO : ∀ s, req.cb = .dvrPreview → req.client = .dvr s → status ≠ 0 → O s)
    (hread : ∀ s, req.cb = .dvrPreview → req.client = .dvr s → status = 0 → ∀ a,
      (w.protoCmdDestroy req.packet).sendPreviewResponses fuel s = some a → a.uv a.nUv ≠ 0 → O s) :
    Option.Rel (Twin D K O m) (w.sendCb fuel req status) (v.sendCb fuel req status) := by
  have h₁ := h.protoCmdDestroy req.packet
  obtain ⟨id, target, packet, cb⟩ := req
  cases target with
  | client c =>
      cases cb with
      | previewResSlient =>
          have h₂ := h₁.emit (.previewResDone c)
          rw [Server.sendCb, Server.sendCb]
          dsimp only
          rw [h₂.clients]
          exact .some (h₂.setClient c _ (h₂.inUse.attached c))
      | errorPreviewRes => exact .some (h₁.stopSmtsClient c)
      | sendFrame =>
          refine (h.onSmtsClientSendFrame packet).bind fun a b _ hab => ?_
          split
          · exact .some (hab.stopSmtsClient c)
          · exact .some hab
      | commonRes => exact .some h₁
      | dvrPreview => exact .none
      | sendCmdToDvr => exact .none
  | dvr s =>
      cases cb with
      | dvrPreview =>
          exact h₁.onSmtsDvrClientSendPreview (hs s rfl) status (hO s rfl rfl) (hread s rfl rfl)
      | sendCmdToDvr => exact .some h₁
      | previewResSlient => exact .none
      | errorPreviewRes => exact .none
      | sendFrame => exact .none
      | commonRes => exact .none

theorem Twin.tcpClientSendMsgCb (h : Twin D K O m w v) (k : Nat) (status : Int)
    (hs : ∀ req s, w.writes[k]? = some req → req.client = .dvr s → K (.head s))
    (hO : ∀ req s, w.writes[k]? = some req → req.cb = .dvrPreview → req.client = .dvr s →
      status ≠ 0 → O s)
    (hread : ∀ req s, w.writes[k]? = some req → req.cb = .dvrPreview → req.client = .dvr s →
      status = 0 → ∀ a, ((w.eraseWrite k).protoCmdDestroy req.packet).sendPreviewResponses fuel s = some a →
      a.uv a.nUv ≠ 0 → O s) :
    Option.Rel (Twin D K O m) (w.tcpClientSendMsgCb fuel k status)
      (v.tcpClientSendMsgCb fuel k status) := by
  rw [Server.tcpClientSendMsgCb, Server.tcpClientSendMsgCb, h.writes]
  cases hk : w.writes[k]? with
  | none => exact .none
  | some req =>
      refine ((h.eraseWrite k).sendCb req status (fun s => hs req s hk) (fun s => hO req s hk)
        fun s => hread req s hk).bind fun a b _ hab => ?_
      exact .some (hab.emit _)

/-- What the callback of an event comes across is in use. -/
structure OnlyUses (K : RingNode → Prop) (O : Nat → Prop) (fuel : Nat) (w : Server) (e : Event) : Prop where
  newClient : ¬ K (.client w.nClients)
  newSession : ¬ K (.head w.nSessions)
  dvr : ∀ s, (w.scope e).dvr = some s → K (.head s)
  exit : ∀ s, (w.scope e).exit = some s → K (.head s)
  connect : ∀ s status, e = .dvrConnected s status → status ≠ 0 ∨ w.uv w.nUv ≠ 0 → O s
  readError : ∀ s status, e = .dvrReadError s status → O s
  timer : ∀ s, e = .timer s → (w.sessions s).clientSize = 0 → O s
  notWritten : ∀ k status req s, e = .writeDone k status → w.writes[k]? = some req →
    req.cb = .dvrPreview → req.client = .dvr s → status ≠ 0 → O s
  notRead : ∀ k req s a, e = .writeDone k 0 → w.writes[k]? = some req →
    req.cb = .dvrPreview → req.client = .dvr s →
    ((w.eraseWrite k).protoCmdDestroy req.packet).sendPreviewResponses fuel s = some a →
    a.uv a.nUv ≠ 0 → O s

/-- A callback does the same in both, and what it leaves differs where it did
before, but for memory that has come into use. -/
theorem Twin.handle {e : Event} (h : Twin D K O m w v) (hen : w.Enabled e) (he : OnlyUses K O fuel w e) :
    Option.Rel (Follows D m w.nSessions) (w.handle fuel e) (v.handle fuel e) := by
  have hn : e.preview = none → ∀ a, w.handle fuel e = some a → a.nSessions = w.nSessions :=
    fun hprev a ha => ((handle_does_any hen ha).handles (S := { w.scope e with reach := fun _ => True })
      ((scope_join w e).trans hprev)).nSessions
  cases e with
  | connection => exact .some (h.clientOnConnection he.newClient)
  | packet c bytes junk => exact h.dispatchPacket he.newSession c bytes junk
  | readError c status =>
      exact .some ((h.stopSmtsClient c).follows .rfl (stopSmtsClient_nSessions w c))
  | dvrConnected s status =>
      refine (h.onTcpClientConnectCb (he.dvr s rfl) status (he.connect s status rfl)).mono
        fun a b ha hab => hab.follows .rfl (hn rfl a ha)
  | dvrPacket s bytes junk =>
      refine (h.onDvrClientReadFrameCb (he.dvr s rfl) bytes junk).mono
        fun a b ha hab => hab.follows .rfl (hn rfl a ha)
  | dvrReadError s status =>
      refine (h.onDvrClientReadError (he.readError s status rfl)).mono
        fun a b ha hab => hab.follows .rfl (hn rfl a ha)
  | writeDone k status =>
      refine (h.tcpClientSendMsgCb k status (fun req s hk hs => he.dvr s ?_)
        (fun req s => he.notWritten k status req s rfl) fun req s hk hcb hs hz => ?_).mono
        fun a b ha hab => hab.follows .rfl (hn rfl a ha)
      · simp [scope, hk, hs, Target.dvr?]
      · exact fun a => he.notRead k req s a (by rw [hz]) hk hcb hs
  | timer s =>
      refine (h.sessionExitCb (he.exit s rfl) (he.timer s rfl)).mono
        fun a b ha hab => hab.follows .rfl (hn rfl a ha)
  | clientClosed c => exact .some ((h.clientCloseCb c).follows .rfl rfl)
  | dvrClosed s => exact .some ((h.onDvrClientCloseCb (he.exit s rfl)).follows .rfl rfl)

end Twin

end Server

end Smts
