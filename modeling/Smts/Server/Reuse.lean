import Smts.Server.Freed
import Smts.Server.Teardown

/-!
# Server — freed memory that is used again

`malloc` may give the memory of a session that was freed to the next one. The
session manager is told twice to delete a session that was torn down: the second
time, by the exit timer, it may unlink that session where another one with the
same key is meant, which puts a freed session back on the manager's ring.

As long as every deletion is of a member, or of a session whose key no member
has, the freed sessions stay off the ring. No callback reads or writes their
memory then, and a run in which memory is used again is a run in which it is
not, but for what lies in that memory.
-/

namespace Smts

open Circular

namespace Server

/-! ## Deletions -/

/-- The sessions on the manager's ring, in its order. -/
def members (w : Server) : List Nat := w.manager.members w.nSessions

/-- How many preview responses `on_smts_dvr_client_send_preview` writes: one for
each client of the session that waits for one. -/
def waiting (w : Server) (s : Nat) : Nat :=
  (List.range w.nClients).countP fun c =>
    (w.clients c).session = some s ∧ (w.clients c).status = .onInit

/-- The session that a callback calls `delete_session` with: its DVR is lost, at
any stage, or the exit timer finds nobody in it. When the preview command was
written, `tcp_client_start_read` is called after the responses. -/
def deletes (w : Server) : Event → Option Nat
  | .dvrConnected s status => if status ≠ 0 ∨ w.uv w.nUv ≠ 0 then some s else none
  | .dvrReadError s _ => some s
  | .writeDone k status => do
      let req ← w.writes[k]?
      let s ← req.client.dvr?
      if req.cb = .dvrPreview ∧ (status ≠ 0 ∨ w.uv (w.nUv + w.waiting s) ≠ 0) then some s else none
  | .timer s => if (w.sessions s).clientSize = 0 then some s else none
  | _ => none

/-- `delete_session` is called with a member of the manager's, or with a session
whose key no member has. -/
def DeletesOwn (w : Server) (e : Event) : Prop :=
  ∀ s, w.deletes e = some s → DeletesMember w.keyOf w.members (.delete (some s))

/-- What is asked of an event so that memory stays in order: no client joins two
sessions, none is deleted in place of another, and nobody sends a mock DVR's
command. -/
structure Proper (w : Server) (e : Event) : Prop where
  joins : w.JoinsOnce e
  deletes : w.DeletesOwn e
  mocks : ¬ e.Mocks

instance (w : Server) (e : Event) : Decidable (w.DeletesOwn e) :=
  decidable_of_iff ((w.deletes e).all fun s =>
      decide (s ∈ w.members ∨ ∀ t ∈ w.members, w.keyOf t ≠ w.keyOf s)) (by
    cases h : w.deletes e <;> simp [DeletesOwn, DeletesMember, h])

instance (w : Server) (e : Event) : Decidable (w.JoinsOnce e) :=
  decidable_of_iff (e.preview.all fun c => decide ((w.clients c).session = none)) (by
    cases h : e.preview <;> simp [JoinsOnce, h])

instance (w : Server) (e : Event) : Decidable (w.Proper e) :=
  decidable_of_iff (w.JoinsOnce e ∧ w.DeletesOwn e ∧ ¬ e.Mocks)
    ⟨fun h => ⟨h.1, h.2.1, h.2.2⟩, fun h => ⟨h.joins, h.deletes, h.mocks⟩⟩

/-! ## What is written before a session is read from -/

section Waiting

variable {w w' : Server} {fuel s c : Nat} {l : List Nat}

theorem stopSmtsClient_nUv (w : Server) (c : Nat) : (w.stopSmtsClient c).nUv = w.nUv := by
  obtain ⟨-, h⟩ | ⟨-, -, h⟩ | ⟨-, s, -, h⟩ := stopSmtsClient_cases w c
  · rw [h]
  · rw [h]
  · rw [h]

/-- Only a client that waits is written to. -/
theorem smtsClientSendPreviewRes_nUv (hr : w.smtsClientSendPreviewRes c smtsOk = some w') :
    w'.nUv = w.nUv + if (w.clients c).status = .onInit then 1 else 0 := by
  obtain ⟨hinit, w₁, w₂, r, henc, hsend, hcase⟩ | ⟨hnot, ⟨hne, -⟩ | ⟨-, rfl⟩⟩ :=
    smtsClientSendPreviewRes_cases hr
  · have hcall : w₂.nUv = w.nUv + 1 := by
      obtain ⟨⟨h, t⟩, -, henc⟩ := Option.bind_eq_some_iff.mp henc
      obtain rfl := Option.some.inj henc
      obtain ⟨-, rfl⟩ | ⟨-, rfl⟩ := tcpClientSendMsg_cases hsend
      · rfl
      · rfl
    rw [if_pos hinit, ← hcall]
    obtain ⟨-, rfl⟩ | ⟨-, rfl⟩ := hcase
    · rfl
    · exact stopSmtsClient_nUv _ c
  · exact absurd rfl hne
  · rw [if_neg hnot, Nat.add_zero]

/-- A round of the loop changes nobody's status but its own client's. -/
theorem foldlM_previewRes_nUv (hnd : l.Nodup)
    (hr : l.foldlM (fun w c => w.smtsClientSendPreviewRes c smtsOk) w = some w') :
    w'.nUv = w.nUv + l.countP fun c => (w.clients c).status = .onInit := by
  induction l generalizing w with
  | nil =>
      obtain rfl := Option.some.inj hr
      rfl
  | cons c l ih =>
      obtain ⟨w₁, hc, hr⟩ := Option.bind_eq_some_iff.mp hr
      obtain ⟨hnot, hnd⟩ := List.nodup_cons.mp hnd
      have hothers : ∀ d ∈ l, (w₁.clients d).status = (w.clients d).status := by
        intro d hd
        have hdc : d ≠ c := fun h => hnot (h ▸ hd)
        rw [(smtsClientSendPreviewRes_tame hc).1.clients d hdc]
      have hcount : (l.countP fun d => (w₁.clients d).status = .onInit)
          = l.countP fun d => (w.clients d).status = .onInit := by
        refine List.countP_congr fun d hd => ?_
        rw [hothers d hd]
      rw [ih hnd hr, hcount, smtsClientSendPreviewRes_nUv hc, List.countP_cons]
      simp only [decide_eq_true_eq]
      omega

/-- The clients of a ring are counted by what they wait for. -/
theorem countP_waiting (hnd : l.Nodup) (hmem : ∀ c, c ∈ l ↔ (w.clients c).session = some s)
    (hlt : ∀ c ∈ l, c < w.nClients) :
    (l.countP fun c => (w.clients c).status = .onInit) = w.waiting s := by
  have hperm : l.Perm ((List.range w.nClients).filter fun c => (w.clients c).session = some s) := by
    refine (List.perm_ext_iff_of_nodup hnd (List.nodup_range.filter _)).mpr fun c => ?_
    rw [List.mem_filter, List.mem_range, decide_eq_true_eq, ← hmem]
    exact ⟨fun hc => ⟨hlt c hc, hc⟩, And.right⟩
  rw [hperm.countP_eq, List.countP_filter, waiting]
  refine List.countP_congr fun c _ => ?_
  simp only [Bool.and_eq_true, decide_eq_true_eq]
  exact And.comm

/-- `on_smts_dvr_client_send_preview` writes a response to everybody who waits
for one, and then starts to read. -/
theorem sendPreviewResponses_uv {A : Nat → Prop} (hring : RingInv A w) (hs : s < w.nSessions)
    (hA : ¬ A s) (hr : w.sendPreviewResponses fuel s = some w') :
    w'.uv w'.nUv = w.uv (w.nUv + w.waiting s) := by
  obtain ⟨l, hl, hsize, hmem⟩ := hring.ring s hs hA
  have hnd : l.Nodup := List.Nodup.of_map _ hl.nodes_nodup
  have hcount := countP_waiting hnd hmem fun c hc => (hring.attached c s ((hmem c).mp hc)).1
  have huv : w'.uv = w.uv :=
    ((Does.start (S := { dvr := some s })).sendPreviewResponses
      (Scope.loops_of_forall (fun _ => trivial) w s) hr).uv
  rw [huv, ← hcount]
  rw [sendPreviewResponses] at hr
  split at hr
  · refine congrArg w.uv (foldlM_previewRes_nUv hnd ?_)
    refine foldlM_of_forEachClient hl (fun c a b hb => ?_) hr
    obtain ⟨htame, hrings | -⟩ := smtsClientSendPreviewRes_tame hb
    · exact .inl hrings
    · exact htame.rings
  next hsz =>
    obtain rfl := Option.some.inj hr
    obtain rfl : l = [] := List.eq_nil_of_length_eq_zero (by omega)
    rfl

end Waiting

/-! ## The manager's ring -/

/-- The sessions `l` are on the manager's ring, and none of them is on its way
out. -/
structure Managed (w : Server) (l : List Nat) : Prop where
  keyed : w.manager.Exact w.keyOf l
  live : ∀ t ∈ l, t < w.nSessions ∧ (w.sessions t).freed = false ∧
    (w.sessions t).dvr.closing = false

section Managed

variable {w w' : Server} {fuel s c : Nat} {l : List Nat} {key : SessionKey} {r : Int}

theorem init_managed (uv : Nat → Int) (garbage : Nat → Values NvmpName) :
    Managed (init uv garbage) [] where
  keyed := initSessionManager_exact _
  live t ht := by cases ht

theorem Managed.congr (h : Managed w l) (hmanager : w'.manager = w.manager)
    (hn : w.nSessions ≤ w'.nSessions)
    (hs : ∀ t ∈ l, (w'.sessions t).key = (w.sessions t).key ∧
      (w'.sessions t).freed = (w.sessions t).freed ∧
      (w'.sessions t).dvr.closing = (w.sessions t).dvr.closing) : Managed w' l where
  keyed := hmanager ▸ h.keyed.congr fun t ht => (hs t ht).1
  live t ht := by
    obtain ⟨hlt, hfreed, hclosing⟩ := h.live t ht
    exact ⟨hlt.trans_le hn, (hs t ht).2.1.trans hfreed, (hs t ht).2.2.trans hclosing⟩

theorem Managed.sameNet (h : Managed w l) (hn : SameNet w w') : Managed w' l :=
  h.congr hn.manager hn.nSessions.ge fun t _ => by
    rw [hn.sessions]
    exact ⟨rfl, rfl, rfl⟩

/-- Changes of a session's other fields do not concern the manager. -/
theorem Managed.setSession (h : Managed w l) (s : Nat) (x : SmtsSession)
    (hkey : x.key = (w.sessions s).key) (hfreed : x.freed = (w.sessions s).freed)
    (hclosing : x.dvr.closing = (w.sessions s).dvr.closing) : Managed (w.setSession s x) l := by
  refine h.congr rfl le_rfl fun t _ => ?_
  by_cases hts : t = s
  · subst hts
    simp [hkey, hfreed, hclosing]
  · simp [hts]

theorem Managed.members (h : Managed w l) : w.members = l := by
  refine h.keyed.members ?_
  have hsub : l ⊆ List.range w.nSessions := fun t ht => List.mem_range.mpr (h.live t ht).1
  have hle := (List.subperm_of_subset (.of_map _ h.keyed.keys) hsub).length_le
  rwa [List.length_range] at hle

/-- Where the manager is in order, `get_session` finds a member only. -/
theorem Managed.mem_of_getSession (h : Managed w l)
    (hget : w.manager.getSession w.keyOf fuel key = some (some s)) : s ∈ l := by
  have hall := h.keyed.getSession (Nat.lt_succ_self _) key
  exact List.mem_of_find?_eq_some (SessionManager.getSession_unique hget hall)

theorem Managed.findsLive (h : Managed w l) (e : Event) : w.FindsLive e := by
  intro _ fuel key s hget
  exact (h.live s (h.mem_of_getSession hget)).2

theorem Managed.stopSmtsClient (h : Managed w l) (c : Nat) : Managed (w.stopSmtsClient c) l := by
  obtain ⟨-, hw⟩ | ⟨-, -, hw⟩ | ⟨-, s, -, hw⟩ := stopSmtsClient_cases w c
  · rwa [hw]
  · rw [hw]
    exact h.congr rfl le_rfl fun _ _ => ⟨rfl, rfl, rfl⟩
  · rw [hw]
    refine h.congr rfl le_rfl fun t _ => ?_
    by_cases hts : t = s
    · subst hts
      simp [SmtsSession.leave]
    · simp [hts]

theorem Managed.addSmtsClient (h : Managed w l) (s c : Nat) : Managed (w.addSmtsClient s c) l := by
  refine h.congr rfl le_rfl fun t _ => ?_
  by_cases hts : t = s
  · subst hts
    simp
  · simp [hts]

/-- A new session is a member, unless it is given up. -/
theorem Managed.starts (h : Managed w l)
    (hstart : Starts fuel ((w.initMediaSession key).addSmtsClient w.nSessions c) w.nSessions c w' r) :
    ∃ l', Managed w' l' := by
  let w₁ := (w.initMediaSession key).addSmtsClient w.nSessions c
  have hnot : w.nSessions ∉ l := fun hn => Nat.lt_irrefl _ (h.live _ hn).1
  have hne : ∀ t ∈ l, t ≠ w.nSessions := fun t ht heq => hnot (heq ▸ ht)
  have hold : ∀ t ∈ l, w₁.sessions t = w.sessions t := fun t ht => by
    simp [w₁, Function.update_of_ne (hne t ht)]
  have h₁ : Managed w₁ l := by
    refine ⟨(h.keyed.init_frame hnot).congr fun t ht => ?_, fun t ht => ?_⟩
    · rw [Server.keyOf, hold t ht, Server.keyOf]
    · rw [hold t ht]
      exact ⟨Nat.lt_succ_of_lt (h.live t ht).1, (h.live t ht).2⟩
  obtain ⟨-, hn, -, hsessions, -, hcase⟩ := hstart.spec
  obtain ⟨w₂, m, hq, hout⟩ := hstart.outcome
  have hmembers : ∀ t ∈ l, w'.sessions t = w₁.sessions t := fun t ht => hsessions t (hne t ht)
  -- when the start fails, the members are those there were
  have hgone : ∀ {m' : SessionManager}, m'.Exact w₁.keyOf l → w'.manager = m' → Managed w' l := by
    intro m' hm hw'
    refine ⟨hw' ▸ hm.congr fun t ht => ?_, fun t ht => ?_⟩
    · rw [Server.keyOf, hmembers t ht, Server.keyOf]
    · rw [hmembers t ht, hn]
      exact h₁.live t ht
  obtain ⟨hr, rfl, rfl | ⟨m₁, d, hadd, hdel⟩⟩ | ⟨rfl, hadd, rfl⟩ := hout
  · exact ⟨l, hgone h₁.keyed hq.manager⟩
  · have hdeleted := (h₁.keyed.added hadd).deleted (.inl List.mem_cons_self) hdel
    rw [List.erase_cons_head] at hdeleted
    exact ⟨l, hgone hdeleted hq.manager⟩
  · obtain ⟨hr, -⟩ | ⟨-, -, hnew⟩ := hcase
    · exact absurd rfl hr
    · have hkey : ∀ t ∈ w.nSessions :: l, (w₂.setSession w.nSessions { w₂.sessions w.nSessions with
          dvr := { (w₂.sessions w.nSessions).dvr with connecting := true } }).keyOf t = w₁.keyOf t := by
        intro t ht
        rw [Server.keyOf, Server.keyOf]
        rcases List.mem_cons.mp ht with rfl | ht
        · rw [hnew]
        · rw [hmembers t ht]
      have hmanager : w₂.manager = m := hq.manager
      refine ⟨w.nSessions :: l, hmanager ▸ (h₁.keyed.added hadd).congr hkey, fun t ht => ?_⟩
      rw [hn]
      rcases List.mem_cons.mp ht with rfl | ht
      · rw [hnew]
        simp
      · rw [hmembers t ht]
        exact h₁.live t ht

theorem Managed.mediaClientStartPreview (h : Managed w l)
    (hr : w.mediaClientStartPreview fuel c key = some (w', r)) : ∃ l', Managed w' l' := by
  obtain ⟨found, hget, -⟩ := Option.bind_eq_some_iff.mp hr
  cases found with
  | none => exact h.starts (mediaClientStartPreview_new hget hr)
  | some s =>
      obtain ⟨-, hres⟩ := mediaClientStartPreview_found hget hr
      obtain ⟨w₁, st, hmem, -, -, hw'⟩ := smtsClientSendPreviewRes_stops hres
      have h₁ : Managed w₁ l := by
        refine Managed.sameNet ?_ hmem.toSameNet
        exact (h.addSmtsClient s c).congr rfl le_rfl fun _ _ => ⟨rfl, rfl, rfl⟩
      rcases hw' with rfl | rfl
      · exact ⟨l, h₁⟩
      · exact ⟨l, h₁.stopSmtsClient c⟩

theorem Managed.dispatchPreview {bytes : List Byte} {junk : Int → Byte} (h : Managed w l)
    (hprev : (Event.packet c bytes junk).preview = some c)
    (hr : w.dispatchPacket fuel c bytes junk = some w') : ∃ l', Managed w' l' := by
  obtain ⟨t, w₁, hstart, rfl⟩ := dispatchPacket_preview hprev hr
  have h₀ : Managed ((w.setHeap (w.heap.receive bytes).1).addCmd t) l :=
    h.sameNet ⟨rfl, rfl, rfl, rfl, rfl, rfl⟩
  obtain ⟨w₂, r, hmedia, hcase⟩ := smtsStartPreview_cases hstart
  obtain ⟨l', h₂⟩ := h₀.mediaClientStartPreview hmedia
  refine ⟨l', Managed.sameNet ?_ (MemOnly.protoCmdDestroy w₁ w.nCmds).toSameNet⟩
  obtain ⟨-, rfl⟩ | ⟨-, w₃, w₄, r', henc, hsend, hw⟩ := hcase
  · exact h₂
  · have h₄ := h₂.sameNet ((MemOnly.encodeNew henc).trans (.tcpClientSendMsg hsend)).toSameNet
    rcases hw with rfl | rfl
    · exact h₄
    · exact h₄.sameNet (MemOnly.protoCmdDestroy w₄ _).toSameNet

/-- The timer of an empty session takes it off the ring. -/
theorem Managed.sessionExitCb (h : Managed w l) (hown : (w.sessions s).clientSize = 0 →
      DeletesMember w.keyOf l (.delete (some s)))
    (hr : w.sessionExitCb fuel s = some w') : ∃ l', Managed w' l' := by
  let w₁ := w.setSession s { w.sessions s with waitExitTimer := false }
  have hkey : ∀ t, w₁.keyOf t = w.keyOf t := fun t => keyOf_setSession w s rfl
  have h₁ : Managed w₁ l := h.setSession s _ rfl rfl rfl
  rw [Server.sessionExitCb] at hr
  dsimp only at hr
  split at hr
  next hz =>
    obtain ⟨w₂, hdel, hr⟩ := Option.bind_eq_some_iff.mp hr
    obtain ⟨⟨m, d⟩, hm, hw₂⟩ := Option.bind_eq_some_iff.mp hdel
    obtain rfl := Option.some.inj hw₂
    obtain rfl := Option.some.inj hr
    have hown₁ : DeletesMember w₁.keyOf l (.delete (some s)) := by
      rw [show w₁.keyOf = w.keyOf from funext hkey]
      exact hown (by simpa using hz)
    have hdeleted := h₁.keyed.deleted hown₁ hm
    have hnd : l.Nodup := .of_map _ h.keyed.keys
    refine ⟨l.erase s, hdeleted.congr fun t ht => ?_, fun t ht => ?_⟩
    · exact keyOf_setSession { w₁ with manager := m } s rfl
    · obtain ⟨hts, ht⟩ := hnd.mem_erase_iff.mp ht
      obtain ⟨hlt, hfreed, hclosing⟩ := h₁.live t ht
      refine ⟨hlt, ?_⟩
      simp only [smtsDvrClientStop_sessions, Function.update_of_ne hts]
      exact ⟨hfreed, hclosing⟩
  next hne =>
    obtain rfl := Option.some.inj hr
    exact ⟨l, h₁.setSession s _ rfl rfl rfl⟩

end Managed

/-! ## What is in use -/

/-- Memory that the server has given up: of freed sessions, and of those to come,
the queues of clients that are in no session, and nodes that are not on the
manager's ring. -/
def dead (w : Server) : Dead where
  session s := (w.sessions s).freed || decide (w.nSessions ≤ s)
  queue c := (w.clients c).session.isNone
  link s := decide (s ∉ w.members)

/-- The nodes of the rings of clients that are in use. -/
def Used (w : Server) : RingNode → Prop
  | .head s => s < w.nSessions ∧ (w.sessions s).freed = false
  | .client c => (w.clients c).session ≠ none

/-- What is in order between two callbacks: the rings, the sessions' sockets and
how sessions end, and the manager. -/
structure Orderly (A : Nat → Prop) (l : List Nat) (w : Server) : Prop where
  rings : RingInv A w
  mishandled : Mishandled w
  exits : AllExits w
  managed : Managed w l

section Orderly

variable {A : Nat → Prop} {w w' : Server} {fuel s c : Nat} {l : List Nat} {e : Event} {D : Dead}

theorem init_orderly (uv : Nat → Int) (garbage : Nat → Values NvmpName) :
    Orderly (fun _ => False) [] (init uv garbage) where
  rings := init_ringInv uv garbage
  mishandled := init_mishandled uv garbage
  exits s hs := absurd hs (Nat.not_lt_zero s)
  managed := init_managed uv garbage

/-- A client is in a session that is not freed. -/
theorem Orderly.attached (h : Orderly A l w) (hc : (w.clients c).session = some s) :
    c < w.nClients ∧ s < w.nSessions ∧ (w.sessions s).freed = false ∧ ¬ A s := by
  obtain ⟨hlt, -, hs, hA⟩ := h.rings.attached c s hc
  refine ⟨hlt, hs, Bool.eq_false_iff.mpr fun hf => ?_, hA⟩
  exact ((h.exits s hs).freed hf).2.2.2.2 c hc

/-- The nodes on the ring of a session that is not freed. -/
theorem Orderly.ring (h : Orderly A l w) (hs : w.Used (.head s)) :
    ∃ l : List Nat, w.rings.IsRing (.head s) (l.map .client) ∧
      (∀ c, c ∈ l ↔ (w.clients c).session = some s) ∧
      ∀ q ∈ RingNode.head s :: l.map .client, w.Used q := by
  obtain ⟨hlt, hlive⟩ := hs
  have hA : ¬ A s := fun hA => by simp [(h.rings.aborted s hA).2.1] at hlive
  obtain ⟨l, hl, -, hmem⟩ := h.rings.ring s hlt hA
  refine ⟨l, hl, hmem, fun q hq => ?_⟩
  rcases List.mem_cons.mp hq with rfl | hq
  · exact ⟨hlt, hlive⟩
  · obtain ⟨c, hc, rfl⟩ := List.mem_map.mp hq
    exact fun hnone => by simp [(hmem c).mp hc] at hnone

/-- Where all is in order, `get_session` finds only sessions that are not freed. -/
theorem Orderly.used_of_getSession {key : SessionKey} (h : Orderly A l w)
    (hget : w.manager.getSession w.keyOf fuel key = some (some s)) : w.Used (.head s) := by
  obtain ⟨hlt, hfreed, -⟩ := h.managed.live s (h.managed.mem_of_getSession hget)
  exact ⟨hlt, hfreed⟩

/-- A node in use is on the ring of a session that is not freed. -/
theorem Orderly.node (h : Orderly A l w) {q : RingNode} (hq : w.Used q) :
    ∃ (s : Nat) (l : List Nat), w.rings.IsRing (.head s) (l.map .client) ∧
      q ∈ RingNode.head s :: l.map .client ∧
      ∀ x ∈ RingNode.head s :: l.map .client, w.Used x := by
  cases q with
  | head s =>
      obtain ⟨l, hl, -, hall⟩ := h.ring hq
      exact ⟨s, l, hl, List.mem_cons_self, hall⟩
  | client c =>
      obtain ⟨s, hs⟩ := Option.ne_none_iff_exists'.mp hq
      obtain ⟨-, hlt, hlive, -⟩ := h.attached hs
      obtain ⟨l, hl, hmem, hall⟩ := h.ring ⟨hlt, hlive⟩
      exact ⟨s, l, hl, List.mem_cons_of_mem _ (List.mem_map_of_mem ((hmem c).mpr hs)), hall⟩

theorem Orderly.closed (h : Orderly A l w) : w.rings.Closed w.Used where
  next q hq := by
    obtain ⟨s, l, hl, hmem, hall⟩ := h.node hq
    exact hall _ (hl.next_mem hmem)
  prev q hq := by
    obtain ⟨s, l, hl, hmem, hall⟩ := h.node hq
    exact hall _ (hl.prev_mem hmem)

theorem dead_node (w : Server) {q : RingNode} : w.dead.node q = false ↔ w.Used q := by
  cases q with
  | head s =>
      show ((w.sessions s).freed || decide (w.nSessions ≤ s)) = false ↔ _
      rw [Bool.or_eq_false_iff, decide_eq_false_iff_not, Nat.not_le]
      exact And.comm
  | client c =>
      show (w.clients c).session.isNone = false ↔ (w.clients c).session ≠ none
      cases (w.clients c).session with
      | none => simp
      | some s => simp

/-- A callback of a session's comes while it is not freed. -/
theorem Orderly.deletes (h : Orderly A l w) (hen : w.Enabled e) (hs : w.deletes e = some s) :
    w.Used (.head s) := by
  have hdvr : (w.scope e).dvr = some s → w.Used (.head s) := fun hd => by
    have hlt := (h.rings.scope_dvr hen hd).1
    exact ⟨hlt, (h.exits s hlt).scope_dvr hen hd⟩
  cases e with
  | dvrConnected t status =>
      obtain ⟨-, rfl⟩ := by simpa [Server.deletes] using hs
      exact hdvr rfl
  | dvrReadError t status => exact hdvr hs
  | writeDone k status =>
      obtain ⟨req, hk, hs⟩ := Option.bind_eq_some_iff.mp hs
      obtain ⟨t, ht, hs⟩ := Option.bind_eq_some_iff.mp hs
      obtain ⟨-, rfl⟩ := by simpa using hs
      exact hdvr (by simp [scope, hk, ht])
  | timer t =>
      obtain ⟨-, rfl⟩ := by simpa [Server.deletes] using hs
      exact ⟨hen.1, (h.exits t hen.1).scope_exit hen rfl⟩
  | _ => cases hs

theorem Orderly.inUse (h : Orderly A l w) (hen : w.Enabled e) (hdel : w.DeletesOwn e) :
    InUse w.dead w.Used (fun s => w.deletes e = some s) w where
  apart q hq := w.dead_node.mpr hq
  closed := h.closed
  attached c s hc := by
    obtain ⟨-, hlt, hlive, -⟩ := h.attached hc
    exact ⟨fun hnone => by simp [hc] at hnone, hlt, hlive⟩
  owned s hs := h.deletes hen hs
  members := by
    refine ⟨l, h.managed.keyed, fun t ht => ?_, fun s hs => ?_⟩
    · obtain ⟨hlt, hfreed, -⟩ := h.managed.live t ht
      exact ⟨⟨hlt, hfreed⟩, by simpa [dead, h.managed.members] using ht⟩
    · exact h.managed.members ▸ hdel s hs

/-- The callback of an event that can come only comes across memory in use. -/
theorem Orderly.comes (h : Orderly A l w) (hen : w.Enabled e) (fuel : Nat) :
    OnlyUses w.Used (fun s => w.deletes e = some s) fuel w e where
  newClient hc := by
    obtain ⟨s, hs⟩ := Option.ne_none_iff_exists'.mp hc
    exact Nat.lt_irrefl _ (h.attached hs).1
  newSession hs := Nat.lt_irrefl _ hs.1
  dvr s hs := by
    have hlt := (h.rings.scope_dvr hen hs).1
    exact ⟨hlt, (h.exits s hlt).scope_dvr hen hs⟩
  exit s hs := by
    have hlt : s < w.nSessions := by
      cases e with
      | timer t =>
          obtain rfl := Option.some.inj hs
          exact hen.1
      | dvrClosed t =>
          obtain rfl := Option.some.inj hs
          by_contra hge
          exact absurd hen.1 (by simp [h.mishandled.closing t (Nat.not_lt.mp hge)])
      | _ => cases hs
    exact ⟨hlt, (h.exits s hlt).scope_exit hen hs⟩
  connect s status he hne := by
    subst he
    exact if_pos hne
  readError s status he := by
    subst he
    rfl
  timer s he hz := by
    subst he
    exact if_pos hz
  notWritten k status req s he hk hcb hs hne := by
    subst he
    simp [Server.deletes, hk, hs, hcb, hne, Target.dvr?]
  notRead k req s a he hk hcb hs hres hne := by
    subst he
    have hdvr : (w.scope (.writeDone k 0)).dvr = some s := by
      simp [scope, hk, hs, Target.dvr?]
    obtain ⟨hlt, hA⟩ := h.rings.scope_dvr hen hdvr
    have hrings : RingInv A ((w.eraseWrite k).protoCmdDestroy req.packet) :=
      h.rings.sameNet (MemOnly.eraseWrite w k |>.trans (.protoCmdDestroy ..)).toSameNet
        fun _ hreq _ _ => .inl (List.mem_of_mem_eraseIdx hreq)
    -- the responses have used one result of libuv's for each client that waits
    rw [sendPreviewResponses_uv hrings hlt hA hres] at hne
    have hne : w.uv (w.nUv + w.waiting s) ≠ 0 := hne
    simp [Server.deletes, hk, hs, hcb, hne, Target.dvr?]

/-! ## One turn -/

/-- A session that is not on its way out stays so. -/
theorem Does.ends_frame {S : Scope} {w₀ : Server} (hd : Does S w₀ w) (hjoin : S.join = none)
    (hexit : S.exit ≠ some s) :
    (w.sessions s).freed = (w₀.sessions s).freed ∧
      (w.sessions s).dvr.closing = (w₀.sessions s).dvr.closing := by
  induction hd with
  | start => exact ⟨rfl, rfl⟩
  | step hd ha ih =>
      cases (ha.meets hjoin hexit).stays with
      | kept _ _ hclosing hfreed => exact ⟨hfreed.trans ih.1, hclosing.trans ih.2⟩
      | left _ hy =>
          rw [hy]
          exact ih

/-- Nothing is added to the manager's ring but by a preview request. -/
theorem Orderly.manager (h : Orderly A l w) (hen : w.Enabled e) (hdel : w.DeletesOwn e)
    (hprev : e.preview = none) (hr : w.handle fuel e = some w') :
    ∃ l', w'.manager.Exact w'.keyOf l' ∧ ∀ t ∈ l', t ∈ l := by
  have htwin : Twin w.dead w.Used (fun s => w.deletes e = some s) w.junk w w :=
    ⟨(w.fill_junk _).symm, h.inUse hen hdel⟩
  obtain ⟨v, -, D', K', O', hv, hsince⟩ := (htwin.handle hen (h.comes hen fuel)).eq_some hr
  obtain ⟨l', hl', hmem, -⟩ := hv.inUse.members
  refine ⟨l', hl', fun t ht => ?_⟩
  have hn : w'.nSessions = w.nSessions :=
    ((handle_does_any hen hr).handles (S := { w.scope e with reach := fun _ => True })
      ((scope_join w e).trans hprev)).nSessions
  have hlink := (hmem t ht).2
  rw [hsince.link, hn] at hlink
  have hnone : (decide (w.nSessions ≤ t) && decide (t < w.nSessions)) = false := by simp
  rw [hnone, Bool.not_false, Bool.and_true] at hlink
  simpa [dead, h.managed.members] using hlink

theorem Orderly.managed_step (h : Orderly A l w) (hdel : w.DeletesOwn e) (hstep : Step w e w') :
    ∃ l', Managed w' l' := by
  obtain ⟨hen, fuel, hr⟩ := hstep
  cases hprev : e.preview with
  | some c =>
      obtain ⟨bytes, junk, rfl⟩ := Event.preview_eq_some hprev
      exact h.managed.dispatchPreview hprev hr
  | none =>
      have hd := handle_does_any hen hr
      have hjoin : ({ w.scope e with reach := fun _ => True } : Scope).join = none :=
        (scope_join w e).trans hprev
      obtain ⟨l', hl', hsub⟩ := h.manager hen hdel hprev hr
      have hframe : (∀ t ∈ l, (w.scope e).exit ≠ some t) → ∃ l', Managed w' l' := by
        intro hexit
        refine ⟨l', hl', fun t ht => ?_⟩
        obtain ⟨hlt, hfreed, hclosing⟩ := h.managed.live t (hsub t ht)
        obtain ⟨hf, hc⟩ := hd.ends_frame hjoin (hexit t (hsub t ht))
        exact ⟨(hd.handles hjoin).nSessions ▸ hlt, hf.trans hfreed, hc.trans hclosing⟩
      cases e with
      | timer s =>
          refine h.managed.sessionExitCb (fun hz => ?_) hr
          exact h.managed.members ▸ hdel s (if_pos hz)
      | dvrClosed s =>
          -- a member is not closing
          refine hframe fun t ht heq => ?_
          obtain rfl := Option.some.inj heq
          have hopen := (h.managed.live s ht).2.2
          rw [hen.1] at hopen
          cases hopen
      | _ => exact hframe fun t _ heq => by cases heq

theorem Orderly.step (h : Orderly A l w) (he : w.Proper e) (hstep : Step w e w') :
    ∃ A' l', Orderly A' l' w' := by
  obtain ⟨A', hrings⟩ := h.rings.step he.joins hstep
  obtain ⟨l', hmanaged⟩ := h.managed_step he.deletes hstep
  exact ⟨A', l', hrings, h.mishandled.step hstep,
    h.exits.step h.rings h.mishandled he.joins (h.managed.findsLive e) hstep, hmanaged⟩

end Orderly

/-! ## Memory that is used again -/

/-- `malloc` gives the memory of the session `s₀`, which was freed, to the next
session. What pointed to the one points to the other now, and finds there what
was there. -/
def recycle (w : Server) (s₀ : Nat) : Server :=
  { w with
    clients := fun c => { w.clients c with
      session := (w.clients c).session.map fun s => if s = s₀ then w.nSessions else s }
    sessions := Function.update w.sessions w.nSessions
      ((w.sessions w.nSessions).holding (w.sessions s₀))
    rings := w.rings.redirect (.head s₀) (.head w.nSessions)
    manager := { w.manager with
      links := w.manager.links.redirect (.session s₀) (.session w.nSessions) } }

/-- One turn of the event loop, in which a session that is allocated gets memory
that was not used before, or that of any session that was freed. -/
def AllocStep (w : Server) (e : Event) (w' : Server) : Prop :=
  Step w e w' ∨ ∃ s₀ < w.nSessions, (w.sessions s₀).freed = true ∧ w.nSessions < w'.nSessions ∧
    Step (w.recycle s₀) e w'

/-- Just the sessions that were freed, and their links, are not in use. -/
def freedMemory (w : Server) : Dead where
  session s := (w.sessions s).freed && decide (s < w.nSessions)
  queue _ := false
  link s := (w.sessions s).freed && decide (s < w.nSessions)

/-- The callback neither reads nor writes the memory of a freed session: whatever
is in there, the callback does the same, and leaves it in there. -/
def LeavesFreed (w : Server) (e : Event) : Prop :=
  ∀ fuel m, (w.fill w.freedMemory m).handle fuel e
    = (w.handle fuel e).map fun v => v.fill w.freedMemory m

section Fill

variable {A : Nat → Prop} {u w w' : Server} {fuel s c : Nat} {l : List Nat} {e : Event} {D F : Dead}
  {K : RingNode → Prop} {O : Nat → Prop} {m m' : Junk}

theorem fill_freed (w : Server) (D : Dead) (m : Junk) (s : Nat) :
    ((w.fill D m).sessions s).freed = (w.sessions s).freed := by
  rw [fill_sessions]
  split
  · rfl
  · rfl

theorem fill_dvr (w : Server) (D : Dead) (m : Junk) (s : Nat) :
    ((w.fill D m).sessions s).dvr = (w.sessions s).dvr := by
  rw [fill_sessions]
  split
  · rfl
  · rfl

theorem fill_waitExitTimer (w : Server) (D : Dead) (m : Junk) (s : Nat) :
    ((w.fill D m).sessions s).waitExitTimer = (w.sessions s).waitExitTimer := by
  rw [fill_sessions]
  split
  · rfl
  · rfl

theorem Twin.used {v : Server} (h : Twin D K O m w v) (s : Nat) :
    v.Used (.head s) ↔ w.Used (.head s) := by
  rw [h.eq, Used, Used, fill_freed, fill_nSessions]

/-- libuv calls back for what it knows of the handles. -/
theorem fill_enabled (w : Server) (D : Dead) (m : Junk) (e : Event) :
    (w.fill D m).Enabled e ↔ w.Enabled e := by
  cases e with
  | dvrConnected s status => simp only [Enabled, fill_dvr, fill_nSessions]
  | dvrPacket s bytes junk => simp only [Enabled, fill_dvr, fill_nSessions]
  | dvrReadError s status => simp only [Enabled, fill_dvr, fill_nSessions]
  | timer s => simp only [Enabled, fill_waitExitTimer, fill_nSessions]
  | dvrClosed s => simp only [Enabled, fill_dvr, fill_freed, fill_writes]
  | _ => rfl

/-- The manager's ring and the rings in use are where they were. -/
theorem InUse.fill (h : InUse D K O w) (m : Junk) : InUse D K O (w.fill D m) where
  apart := h.apart
  closed := by
    refine ⟨fun q hq => ?_, fun q hq => ?_⟩
    · rw [fill_rings, Links.overlay_next (h.apart q hq)]
      exact h.closed.next q hq
    · rw [fill_rings, Links.overlay_prev (h.apart q hq)]
      exact h.closed.prev q hq
  attached := h.attached
  owned := h.owned
  members := by
    obtain ⟨l, hl, hmem, hown⟩ := h.members
    have hkeys : ∀ t ∈ l, (w.fill D m).keyOf t = w.keyOf t := fun t ht => h.keyOf m (hmem t ht).1
    refine ⟨l, hl.overlay (entry_eq_false hmem) hkeys, hmem, fun s hs => ?_⟩
    refine (hown s hs).imp_right fun hno t ht => ?_
    rw [hkeys t ht, h.keyOf m (h.owned s hs)]
    exact hno t ht

theorem Twin.symm {v : Server} (h : Twin D K O m w v) : Twin D K O w.junk v w where
  eq := by
    rw [h.eq, fill_restore]
  inUse := h.eq ▸ h.inUse.fill m

/-- What is in use stays in use when less memory is said to be dead. -/
theorem InUse.within (h : InUse D K O w) (hF : F.Within D) : InUse F K O w where
  apart q hq := Bool.eq_false_iff.mpr fun htrue => by
    have hdead := hF.node q htrue
    rw [h.apart q hq] at hdead
    cases hdead
  closed := h.closed
  attached := h.attached
  owned := h.owned
  members := by
    obtain ⟨l, hl, hmem, hown⟩ := h.members
    refine ⟨l, hl, fun t ht => ⟨(hmem t ht).1, Bool.eq_false_iff.mpr fun htrue => ?_⟩, hown⟩
    have hdead := hF.link t htrue
    rw [(hmem t ht).2] at hdead
    cases hdead

/-- A callback comes across the same memory whatever is put in the memory not in
use. -/
theorem OnlyUses.fill (h : OnlyUses K O fuel w e) (hu : InUse D K O w) (m : Junk) :
    OnlyUses K O fuel (w.fill D m) e where
  newClient := h.newClient
  newSession := h.newSession
  dvr s hs := h.dvr s (by cases e <;> exact hs)
  exit s hs := h.exit s (by cases e <;> exact hs)
  connect := h.connect
  readError := h.readError
  timer s he hz := by
    subst he
    have hK := h.exit s rfl
    rw [fill_sessions, hu.session hK, if_neg Bool.false_ne_true] at hz
    exact h.timer s rfl hz
  notWritten := h.notWritten
  notRead k req s a he hk hcb hs hres hne := by
    have hK := h.dvr s (by simp [he, scope, (show w.writes[k]? = some req from hk), hs, Target.dvr?])
    have htwin : Twin D K O m w (w.fill D m) := ⟨rfl, hu⟩
    obtain ⟨a', ha', hab⟩ :=
      (((htwin.eraseWrite k).protoCmdDestroy req.packet).sendPreviewResponses hK).eq_some' hres
    refine h.notRead k req s a' he hk hcb hs ha' ?_
    rw [hab.eq] at hne
    exact hne

theorem Orderly.freedMemory (h : Orderly A l w) : w.freedMemory.Within w.dead where
  session s hs := by
    obtain ⟨hf, -⟩ := (Bool.and_eq_true _ _).mp hs
    simp [dead, hf]
  queue c hc := by cases hc
  link s hs := by
    obtain ⟨hf, -⟩ := (Bool.and_eq_true _ _).mp hs
    refine decide_eq_true fun hmem => ?_
    rw [h.managed.members] at hmem
    simp [(h.managed.live s hmem).2.1] at hf

/-- What is said about freed memory is said of it in both. -/
theorem fill_freedMemory (w : Server) (D : Dead) (m : Junk) :
    (w.fill D m).freedMemory = w.freedMemory := by
  simp only [Server.freedMemory, fill_freed, fill_nSessions]

/-- A callback that uses only what is in use touches no freed memory. -/
theorem InUse.leavesFreed (hF : w.freedMemory.Within D) (hu : InUse D K O w)
    (hcomes : ∀ fuel, OnlyUses K O fuel w e) (hen : w.Enabled e) : w.LeavesFreed e := by
  intro fuel m
  have htwin : Twin w.freedMemory K O m w (w.fill w.freedMemory m) := ⟨rfl, hu.within hF⟩
  have hrel := htwin.handle hen (hcomes fuel)
  cases hr : w.handle fuel e with
  | none =>
      rw [hr] at hrel
      cases hv : (w.fill w.freedMemory m).handle fuel e with
      | none => rfl
      | some v =>
          rw [hv] at hrel
          cases hrel
  | some w' =>
      obtain ⟨v, hv, D', K', O', hab, hsince⟩ := hrel.eq_some hr
      have hbefore : ∀ s, (w.freedMemory.session s && !(decide (w.nSessions ≤ s) &&
          decide (s < w'.nSessions))) = w.freedMemory.session s := by
        intro s
        by_cases hs : s < w.nSessions
        · simp [Nat.not_le.mpr hs]
        · simp [Server.freedMemory, hs]
      have hsame : D' = w.freedMemory := by
        obtain ⟨session, queue, link⟩ := D'
        have h₁ : session = w.freedMemory.session := funext fun s => (hsince.session s).trans (hbefore s)
        have h₂ : queue = w.freedMemory.queue := funext fun c => Bool.eq_false_iff.mpr fun hc => by
          cases hsince.queue c hc
        have h₃ : link = w.freedMemory.link := funext fun s => (hsince.link s).trans (hbefore s)
        rw [h₁, h₂, h₃]
      rw [hv, hab.eq, hsame]
      rfl

/-- No client is in the session whose memory is given away. -/
theorem Orderly.recycle_clients (h : Orderly A l u) {s₀ : Nat} (hf : (u.sessions s₀).freed = true)
    (m : Junk) : ((u.fill u.dead m).recycle s₀).clients = u.clients := by
  funext c
  show { u.clients c with
    session := (u.clients c).session.map fun s => if s = s₀ then u.nSessions else s } = u.clients c
  cases hc : (u.clients c).session with
  | none => rw [Option.map_none, ← hc]
  | some s =>
      have hne : s ≠ s₀ := by
        rintro rfl
        have hlive := (h.attached hc).2.2.1
        rw [hf] at hlive
        cases hlive
      rw [Option.map_some, if_neg hne, ← hc]

/-- No ring in use leads to the freed session, so pointing its links elsewhere
changes dead memory only. -/
theorem Orderly.recycle_rings (h : Orderly A l u) {s₀ : Nat} (hf : (u.sessions s₀).freed = true)
    (m : Junk) : ((u.fill u.dead m).recycle s₀).rings
      = u.rings.overlay u.dead.node ((u.fill u.dead m).recycle s₀).rings := by
  have hlive : ∀ q, u.Used q → q ≠ .head s₀ := by
    rintro q hq rfl
    rw [hq.2] at hf
    cases hf
  have hnew : u.dead.node (.head u.nSessions) = true := by simp [Dead.node, dead]
  apply Links.redirect_overlay hnew
  · intro q hq
    exact hlive _ (h.closed.next q (u.dead_node.mp hq))
  · intro q hq
    exact hlive _ (h.closed.prev q (u.dead_node.mp hq))

/-- Nor does the manager's ring lead to the freed session. -/
theorem Orderly.recycle_manager (h : Orderly A l u) {s₀ : Nat} (hf : (u.sessions s₀).freed = true)
    (m : Junk) : ((u.fill u.dead m).recycle s₀).manager
      = u.manager.overlay u.dead.entry ((u.fill u.dead m).recycle s₀).manager.links := by
  have hentry : ∀ q, u.dead.entry q = false → q ∈ ManagerNode.head :: l.map .session := by
    intro q hq
    cases q with
    | head => exact List.mem_cons_self
    | session s =>
        have hmem : s ∈ u.members := not_not.mp (of_decide_eq_false hq)
        rw [h.managed.members] at hmem
        exact List.mem_cons_of_mem _ (List.mem_map_of_mem hmem)
  have hmember : ∀ q ∈ ManagerNode.head :: l.map .session, q ≠ .session s₀ := by
    rintro q hq rfl
    obtain ⟨-, hfreed, -⟩ := h.managed.live s₀ (by simpa using hq)
    rw [hfreed] at hf
    cases hf
  have hnew : u.dead.entry (.session u.nSessions) = true := by
    refine decide_eq_true fun hmem => ?_
    rw [h.managed.members] at hmem
    exact Nat.lt_irrefl _ (h.managed.live _ hmem).1
  refine congrArg (fun links => { u.manager with links := links : SessionManager }) ?_
  apply Links.redirect_overlay hnew
  · intro q hq
    exact hmember _ (h.managed.keyed.ring.next_mem (hentry q hq))
  · intro q hq
    exact hmember _ (h.managed.keyed.ring.prev_mem (hentry q hq))

/-- The sessions in use stay as they are. -/
theorem recycle_sessions (u : Server) (m : Junk) (s₀ : Nat) :
    ((u.fill u.dead m).recycle s₀).sessions = fun s => if u.dead.session s = true then
      (u.sessions s).holding (((u.fill u.dead m).recycle s₀).sessions s) else u.sessions s := by
  funext s
  by_cases hs : s = u.nSessions
  · subst hs
    have hnew : u.dead.session u.nSessions = true := by simp [dead]
    rw [if_pos hnew]
    simp [Server.recycle, hnew, SmtsSession.holding]
  · by_cases hd : u.dead.session s = true
    · rw [if_pos hd]
      simp [Server.recycle, hs, hd, SmtsSession.holding]
    · rw [if_neg hd]
      simp [Server.recycle, hs, hd]

/-- To give memory away is to put something else into memory that is not in use. -/
theorem Orderly.recycle (h : Orderly A l u) {s₀ : Nat} (hf : (u.sessions s₀).freed = true) (m : Junk) :
    ∃ m', (u.fill u.dead m).recycle s₀ = u.fill u.dead m' := by
  have hclients := h.recycle_clients hf m
  have hrings := h.recycle_rings hf m
  have hmanager := h.recycle_manager hf m
  have hsessions := u.recycle_sessions m s₀
  generalize hv : (u.fill u.dead m).recycle s₀ = v at hclients hrings hmanager hsessions
  refine ⟨v.junk, ?_⟩
  show v = { u with
    sessions := fun s => if u.dead.session s = true then (u.sessions s).holding (v.sessions s)
      else u.sessions s
    rings := u.rings.overlay u.dead.node v.rings
    manager := u.manager.overlay u.dead.entry v.manager.links }
  rw [← hsessions, ← hrings, ← hmanager, ← hclients, ← hv]
  rfl

/-- Whether an event deletes its own session does not depend on freed memory. -/
theorem Orderly.deletesOwn_fill (h : Orderly A l u) (hen : u.Enabled e) (m : Junk) :
    (u.fill u.dead m).DeletesOwn e ↔ u.DeletesOwn e := by
  have hsession : ∀ s, u.Used (.head s) → (u.fill u.dead m).sessions s = u.sessions s := fun s hs => by
    have hdead : u.dead.session s = false := u.dead_node.mpr hs
    rw [fill_sessions, hdead, if_neg Bool.false_ne_true]
  have hdeletes : (u.fill u.dead m).deletes e = u.deletes e := by
    cases e with
    | timer s =>
        have hs : u.Used (.head s) := (h.comes hen 0).exit s rfl
        rw [Server.deletes, hsession s hs, Server.deletes]
    | _ => rfl
  have hkeys : ∀ t ∈ l, (u.fill u.dead m).keyOf t = u.keyOf t := fun t ht => by
    obtain ⟨hlt, hfreed, -⟩ := h.managed.live t ht
    rw [Server.keyOf, hsession t ⟨hlt, hfreed⟩, Server.keyOf]
  have hmanaged : Managed (u.fill u.dead m) l := by
    refine ⟨h.managed.keyed.overlay (fun q hq => ?_) hkeys, fun t ht => ?_⟩
    · cases q with
      | head => rfl
      | session t => simpa [Dead.entry, dead, h.managed.members] using hq
    · rw [fill_freed, fill_dvr]
      exact h.managed.live t ht
  refine forall_congr' fun s => ?_
  rw [hdeletes]
  refine forall_congr' fun hs => ?_
  rw [hmanaged.members, h.managed.members]
  have hkey : (u.fill u.dead m).keyOf s = u.keyOf s := by
    rw [Server.keyOf, hsession s (h.deletes hen hs), Server.keyOf]
  refine or_congr_right ⟨fun hno t ht => ?_, fun hno t ht => ?_⟩
  · rw [← hkeys t ht, ← hkey]
    exact hno t ht
  · rw [hkeys t ht, hkey]
    exact hno t ht

theorem Orderly.proper_fill (h : Orderly A l u) (hen : u.Enabled e) {m : Junk}
    (he : (u.fill u.dead m).Proper e) : u.Proper e :=
  ⟨he.joins, (h.deletesOwn_fill hen m).mp he.deletes, he.mocks⟩

/-- The ring of a session that is not freed is where it was. -/
theorem Orderly.ringOk_fill (h : Orderly A l u) (hs : u.Used (.head s)) (m : Junk) :
    RingOk (u.fill u.dead m) s := by
  obtain ⟨l, hl, -, hlive⟩ := h.ring hs
  have hA : ¬ A s := fun hA => by
    have hf := (h.rings.aborted s hA).2.1
    rw [hs.2] at hf
    cases hf
  obtain ⟨l', hl', hnd, hsize, hclients, hall⟩ := h.rings.ringOk hs.1 hA
  obtain rfl : l' = l := List.map_injective_iff.mpr (fun _ _ => RingNode.client.inj) (hl'.unique hl)
  have hdead : u.dead.session s = false := u.dead_node.mpr hs
  refine ⟨l', hl.congr (fun q hq => ?_) (fun q hq => ?_), hnd, ?_, hclients, hall⟩
  · exact Links.overlay_next (u.dead_node.mpr (hlive q hq))
  · exact Links.overlay_prev (u.dead_node.mpr (hlive q hq))
  · rw [fill_sessions, hdead, if_neg Bool.false_ne_true]
    exact hsize

theorem Orderly.leavesFreed_fill (h : Orderly A l u) (hen : u.Enabled e) {m : Junk}
    (hdel : (u.fill u.dead m).DeletesOwn e) : (u.fill u.dead m).LeavesFreed e := by
  have hown := (h.deletesOwn_fill hen m).mp hdel
  refine ((h.inUse hen hown).fill m).leavesFreed ?_ (fun fuel => (h.comes hen fuel).fill (h.inUse hen hown) m)
    ((fill_enabled ..).mpr hen)
  rw [fill_freedMemory]
  exact h.freedMemory

/-- A callback's counterpart where other things lie in dead memory. -/
theorem Orderly.step_fill (h : Orderly A l u) (he : u.Proper e) {m : Junk}
    (hstep : Step (u.fill u.dead m) e w') : ∃ u' m', Step u e u' ∧ w' = u'.fill u'.dead m' := by
  obtain ⟨hen, fuel, hr⟩ := hstep
  have hen := (fill_enabled u u.dead m e).mp hen
  have htwin : Twin u.dead u.Used (fun s => u.deletes e = some s) m u (u.fill u.dead m) :=
    ⟨rfl, h.inUse hen he.deletes⟩
  obtain ⟨u', hr', D', K', O', hab, hsince⟩ := (htwin.handle hen (h.comes hen fuel)).eq_some' hr
  have hstep : Step u e u' := ⟨hen, fuel, hr'⟩
  obtain ⟨A', l', h'⟩ := h.step he hstep
  have hd := handle_does_any hen hr'
  -- what was dead before stays dead, unless it was allocated in the step
  have hwithin : D'.Within u'.dead := by
    refine ⟨fun s hs => ?_, fun c hc => ?_, fun s hs => ?_⟩
    · rw [hsince.session] at hs
      obtain ⟨hdead, hold⟩ := (Bool.and_eq_true _ _).mp hs
      rcases (Bool.or_eq_true _ _).mp hdead with hf | hge
      · by_cases hlt : s < u.nSessions
        · simp [dead, hd.freed hlt hf]
        · have hge : u'.nSessions ≤ s := by
            by_contra hlt'
            simp [Nat.not_lt.mp hlt, Nat.not_le.mp hlt'] at hold
          simp [dead, hge]
      · have hge : u.nSessions ≤ s := of_decide_eq_true hge
        have hge : u'.nSessions ≤ s := by
          by_contra hlt'
          simp [hge, Nat.not_le.mp hlt'] at hold
        simp [dead, hge]
    · cases hsession : (u'.clients c).session with
      | none => simp [dead, hsession]
      | some s =>
          have hlive := hab.inUse.apart _ (hab.inUse.attached c s hsession).1
          rw [show D'.node (.client c) = D'.queue c from rfl, hc] at hlive
          cases hlive
    · refine decide_eq_true fun hmem => ?_
      obtain ⟨l'', hl'', hmem'', -⟩ := hab.inUse.members
      rw [h'.managed.members, ← h'.managed.keyed.unique hl''] at hmem
      rw [(hmem'' s hmem).2] at hs
      cases hs
  refine ⟨u', (u'.fill D' m).junk, hstep, ?_⟩
  rw [fill_mono hwithin, hab.eq]

/-- A turn in which memory is used again is one in which it is not, but for what
lies in dead memory. -/
theorem Orderly.allocStep (h : Orderly A l u) {m : Junk} (he : (u.fill u.dead m).Proper e)
    (hstep' : AllocStep (u.fill u.dead m) e w') :
    u.Proper e ∧ ∃ u' m', Step u e u' ∧ w' = u'.fill u'.dead m' := by
  rcases hstep' with hstep | ⟨s₀, -, hf, -, hstep⟩
  · have he := h.proper_fill ((fill_enabled ..).mp hstep.1) he
    exact ⟨he, h.step_fill he hstep⟩
  · rw [fill_freed] at hf
    obtain ⟨m', hm'⟩ := h.recycle hf m
    rw [hm'] at hstep
    have he := h.proper_fill ((fill_enabled ..).mp hstep.1) he
    exact ⟨he, h.step_fill he hstep⟩

end Fill

/-! ## Whole runs -/

section Runs

variable {uv : Nat → Int} {garbage : Nat → Values NvmpName} {es : List Event} {w : Server} {s : Nat}

theorem orderly_of_run
    (h : Transition.Run (fun w e w' => w.Proper e ∧ Step w e w') (init uv garbage) es w) :
    ∃ A l, Orderly A l w :=
  h.invariant (I := fun w => ∃ A l, Orderly A l w)
    (fun _ _ _ ⟨_, _, hi⟩ hs => hi.step hs.1 hs.2) ⟨_, _, init_orderly uv garbage⟩

/-- A run in which memory is used again is one in which it is not, but for what
lies in dead memory. -/
theorem run_of_recycling
    (h : Transition.Run (fun w e w' => w.Proper e ∧ AllocStep w e w') (init uv garbage) es w) :
    ∃ u m, Transition.Run (fun w e w' => w.Proper e ∧ Step w e w') (init uv garbage) es u ∧
      w = u.fill u.dead m := by
  induction h with
  | refl => exact ⟨_, _, .refl, (fill_junk ..).symm⟩
  | snoc _ hs ih =>
      obtain ⟨u, m, hrun, rfl⟩ := ih
      obtain ⟨A, l, hu⟩ := orderly_of_run hrun
      obtain ⟨he, u', m', hstep, rfl⟩ := hu.allocStep hs.1 hs.2
      exact ⟨u', m', hrun.snoc ⟨he, hstep⟩, rfl⟩

/-- Who asks for a preview but once is not attached when it does. -/
theorem proper_of_recycling (hone : PreviewsOnce es)
    (h : Transition.Run (fun w e w' => (w.DeletesOwn e ∧ ¬ e.Mocks) ∧ AllocStep w e w')
      (init uv garbage) es w) :
    Transition.Run (fun w e w' => w.Proper e ∧ AllocStep w e w') (init uv garbage) es w := by
  induction h with
  | refl => exact .refl
  | @snoc es e w w' _ hs ih =>
      obtain ⟨hbefore, -, hlast⟩ := List.pairwise_append.mp hone
      have hrun := ih hbefore
      refine hrun.snoc ⟨⟨fun c hc => ?_, hs.1.1, hs.1.2⟩, hs.2⟩
      obtain ⟨u, m, hu, rfl⟩ := run_of_recycling hrun
      have hnew : ∀ a ∈ es, a.preview ≠ some c := fun a ha hac =>
        hlast a ha e (List.mem_singleton_self e) c hac hc
      have hsteps : Transition.Run Step (init uv garbage) es u := hu.mono fun _ _ _ hs => hs.2
      have hstart : ((init uv garbage).clients c).session = none := rfl
      show (u.clients c).session = none
      exact session_none_of_run hsteps hnew hstart

end Runs

/-! ## Runs that can be computed -/

/-- The memory the next session gets, if it was a freed one's, and the event. -/
abbrev Occasion := Option Nat × Event

/-- If memory is to be used again, it is that of a session that was freed. -/
def Reusable (w : Server) : Option Nat → Prop
  | none => True
  | some s₀ => s₀ < w.nSessions ∧ (w.sessions s₀).freed = true

instance (w : Server) : (x : Option Nat) → Decidable (w.Reusable x)
  | none => inferInstanceAs (Decidable True)
  | some _ => inferInstanceAs (Decidable (_ ∧ _))

/-- The state in which that memory is the next to be allocated. -/
def reuse (w : Server) : Option Nat → Server
  | none => w
  | some s₀ => w.recycle s₀

/-- One turn, in which a session is allocated if memory is given away. -/
def allocHandle (fuel : Nat) (w : Server) (x : Occasion) : Option Server :=
  if w.Reusable x.1 ∧ (w.reuse x.1).Enabled x.2 then
    ((w.reuse x.1).handle fuel x.2).filter fun w' => x.1.isNone || decide (w.nSessions < w'.nSessions)
  else none

theorem allocStep_of_allocHandle {fuel : Nat} {w w' : Server} {x : Occasion}
    (h : w.allocHandle fuel x = some w') : AllocStep w x.2 w' := by
  rw [allocHandle] at h
  split at h
  next hok =>
    obtain ⟨hreuse, hen⟩ := hok
    obtain ⟨hr, hn⟩ := Option.filter_eq_some_iff.mp h
    obtain ⟨x, e⟩ := x
    cases x with
    | none => exact .inl ⟨hen, fuel, hr⟩
    | some s₀ => exact .inr ⟨s₀, hreuse.1, hreuse.2, of_decide_eq_true hn, hen, fuel, hr⟩
  next => cases h

/-- The events are handled in turn, if each can come when it is its turn, and
`ok` has nothing against it. -/
def followAlloc (ok : Server → Event → Prop) [∀ w e, Decidable (ok w e)] (fuel : Nat) (w : Server)
    (xs : List Occasion) : Option Server :=
  xs.foldlM (fun w x => if ok w x.2 then w.allocHandle fuel x else none) w

theorem run_of_followAlloc {ok : Server → Event → Prop} [∀ w e, Decidable (ok w e)] {fuel : Nat}
    {w w' : Server} {xs : List Occasion} (h : w.followAlloc ok fuel xs = some w') :
    Transition.Run (fun w e w' => ok w e ∧ AllocStep w e w') w (xs.map Prod.snd) w' := by
  refine Transition.Run.of_foldlM ?_ h
  intro w x w' hstep
  split at hstep
  next hok => exact ⟨hok, allocStep_of_allocHandle hstep⟩
  next => cases hstep

/-! ## What is asked of every run -/

section Claims

variable {uv : Nat → Int} {garbage : Nat → Values NvmpName} {es : List Event} {w : Server}

/-- `get_session` finds sessions that are not on their way out. -/
theorem findsLive_of_run
    (h : Transition.Run (fun w e w' => w.Proper e ∧ Step w e w') (init uv garbage) es w) :
    Transition.Run (fun w e w' => w.FindsLive e ∧ Step w e w') (init uv garbage) es w := by
  induction h with
  | refl => exact .refl
  | snoc hrun hs ih =>
      obtain ⟨A, l, hu⟩ := orderly_of_run hrun
      exact ih.snoc ⟨hu.managed.findsLive _, hs.2⟩

/-- **The rings hold**, and freed memory is left alone, in every state of every
run in which no client asks for a preview while it is attached, and no session
is deleted in place of another. -/
theorem ringOk_of_recycling
    (h : Transition.Run (fun w e w' => w.Proper e ∧ AllocStep w e w') (init uv garbage) es w) :
    (∀ s < w.nSessions, (w.sessions s).freed = false → RingOk w s) ∧
      ∀ e, w.Enabled e → w.DeletesOwn e → w.LeavesFreed e := by
  obtain ⟨u, m, hrun, rfl⟩ := run_of_recycling h
  obtain ⟨A, l, hu⟩ := orderly_of_run hrun
  refine ⟨fun s hs hf => ?_, fun e hen hdel => ?_⟩
  · rw [fill_freed] at hf
    exact hu.ringOk_fill ⟨hs, hf⟩ m
  · exact hu.leavesFreed_fill ((fill_enabled ..).mp hen) hdel

theorem previewsOnce_of_nodup (h : (es.filterMap Event.preview).Nodup) : PreviewsOnce es := by
  refine (List.pairwise_filterMap.mp h).imp fun {e e'} hne c hc hc' => ?_
  exact hne c hc c hc' rfl

/-- A session ends, and another one gets its memory. -/
def successor : List Occasion :=
  [(none, .connection), (none, previewOf 0 0), (none, .readError 0 (-4095)), (none, .timer 0),
    (none, .dvrConnected 0 (-125)), (none, .dvrClosed 0), (none, .connection), (some 0, previewOf 1 0)]

theorem ringOk_of_recycling_successor :
    ∃ w, Transition.Run (fun w e w' => w.Proper e ∧ AllocStep w e w')
        (init (fun _ => 0) fun _ => Values.zero) (successor.map Prod.snd) w ∧
      (w.sessions 0).freed = true ∧ (w.sessions 1).clientSize = 1 ∧ RingOk w 1 ∧
      w.LeavesFreed (.dvrConnected 1 (-111)) := by
  have hval : ((init (fun _ => 0) fun _ => Values.zero).followAlloc Proper 3 successor).map (fun w =>
      ((w.sessions 0).freed, w.nSessions, (w.sessions 1).freed, (w.sessions 1).clientSize,
        decide (w.Enabled (.dvrConnected 1 (-111))), decide (w.DeletesOwn (.dvrConnected 1 (-111)))))
      = some (true, 2, false, 1, true, true) := by
    decide +kernel
  obtain ⟨w, hw, hval⟩ := Option.map_eq_some_iff.mp hval
  obtain ⟨hfreed, hn, hlive, hsize, hen, hdel⟩ := by simpa using hval
  obtain ⟨hrings, hleaves⟩ := ringOk_of_recycling (run_of_followAlloc hw)
  exact ⟨w, run_of_followAlloc hw, hfreed, hsize, hrings 1 (by omega) hlive, hleaves _ hen hdel⟩

/-- A second request from the same client links its queue in twice: its
neighbour is now itself. -/
theorem not_ringOk_of_preview0_twice :
    ∃ w, Transition.Run Step (init (fun _ => 0) fun _ => Values.zero)
        [.connection, preview0, preview0] w ∧
      0 < w.nSessions ∧ (w.sessions 0).freed = false ∧ ¬ RingOk w 0 := by
  obtain ⟨w, hw⟩ : ∃ w, connected0.handle 2 preview0 = some w :=
    Option.isSome_iff_exists.mp (by decide +kernel)
  obtain ⟨w', hw'⟩ : ∃ w', w.handle 2 preview0 = some w' := by
    have hsome : ((connected0.handle 2 preview0).bind fun w => w.handle 2 preview0).isSome := by
      decide +kernel
    rw [hw, Option.bind_some] at hsome
    exact Option.isSome_iff_exists.mp hsome
  have hen : (connected0.handle 2 preview0).map (fun w =>
      (w.nClients, (w.clients 0).reading, (w.clients 0).closing)) = some (1, true, false) := by
    decide +kernel
  have hval : ((connected0.handle 2 preview0).bind fun w => w.handle 2 preview0).map (fun w =>
      (w.nSessions, (w.sessions 0).freed, (w.clients 0).session, w.rings.prev (.client 0)))
      = some (1, false, some 0, .client 0) := by
    decide +kernel
  rw [hw] at hen hval
  rw [Option.bind_some, hw'] at hval
  obtain ⟨hn, hreading, hclosing⟩ := by simpa using hen
  obtain ⟨hn', hfreed, hsess, hprev⟩ := by simpa using hval
  obtain ⟨-, -, -, hdeliver⟩ := connected0_enabled
  refine ⟨w', .snoc (.snoc (.snoc .refl connected0_step) ⟨connected0_enabled, 2, hw⟩)
    ⟨⟨by omega, hreading, hclosing, hdeliver⟩, 2, hw'⟩, by omega, hfreed, ?_⟩
  rintro ⟨l, hring, -, -, -, hall⟩
  exact hring.prev_ne_self (List.mem_map_of_mem (hall 0 hsess)) hprev.symm

/-- **Idle sessions are on their way out, and busy ones are never freed**, and no
callback comes across a freed one, in every state of every run in which each
connection sends at most one preview command and no session is deleted in place
of another. -/
theorem endsOk_of_recycling (hone : PreviewsOnce es)
    (h : Transition.Run (fun w e w' => (w.DeletesOwn e ∧ ¬ e.Mocks) ∧ AllocStep w e w')
      (init uv garbage) es w) :
    (∀ s < w.nSessions, EndsOk w s) ∧ ∀ e, w.Enabled e → w.DeletesOwn e → w.LeavesFreed e := by
  obtain ⟨u, m, hrun, rfl⟩ := run_of_recycling (proper_of_recycling hone h)
  obtain ⟨A, l, hu⟩ := orderly_of_run hrun
  refine ⟨fun s hs => ?_, fun e hen hdel => hu.leavesFreed_fill ((fill_enabled ..).mp hen) hdel⟩
  have hends := endsOk_of_run hone (findsLive_of_run hrun) hs
  have hlog : (u.fill u.dead m).log = u.log := rfl
  have hlive : .free (.session s) ∉ u.log → (u.fill u.dead m).sessions s = u.sessions s := by
    intro hnot
    have hf : (u.sessions s).freed = false := by
      have hcount := (hu.exits s hs).frees
      rw [List.count_eq_zero.mpr hnot] at hcount
      by_contra hf
      rw [if_pos (Bool.eq_true_of_not_eq_false hf)] at hcount
      cases hcount
    have hused : u.Used (.head s) := ⟨hs, hf⟩
    have hdead : u.dead.session s = false := u.dead_node.mpr hused
    rw [fill_sessions, hdead, if_neg Bool.false_ne_true]
  refine ⟨fun hnot => ?_, fun hnot hz => ?_, fun hnot hc => ?_, hends.stops, hends.frees, hends.clients,
    fun hfree => ?_, fun hfree e hen => ?_⟩
  · rw [hlive hnot]
    exact hends.size hnot
  · rw [hlive hnot] at hz ⊢
    exact hends.idle hnot hz
  · rw [hlive hnot] at hc ⊢
    exact hends.closing hnot hc
  · rw [fill_dvr]
    exact hends.pending hfree
  · exact hends.silent hfree e ((fill_enabled ..).mp hen)

theorem endsOk_of_recycling_successor :
    ∃ w, Transition.Run (fun w e w' => (w.DeletesOwn e ∧ ¬ e.Mocks) ∧ AllocStep w e w')
        (init (fun _ => 0) fun _ => Values.zero) (successor.map Prod.snd) w ∧
      .free (.session 0) ∈ w.log ∧ EndsOk w 0 ∧ EndsOk w 1 ∧
      w.LeavesFreed (.dvrConnected 1 (-111)) := by
  have hval : ((init (fun _ => 0) fun _ => Values.zero).followAlloc
      (fun w e => w.DeletesOwn e ∧ ¬ e.Mocks) 3 successor).map (fun w =>
        (w.nSessions, w.log.contains (.free (.session 0)),
          decide (w.Enabled (.dvrConnected 1 (-111))), decide (w.DeletesOwn (.dvrConnected 1 (-111)))))
      = some (2, true, true, true) := by
    decide +kernel
  have hone : (successor.map Prod.snd).filterMap Event.preview = [0, 1] := by decide +kernel
  obtain ⟨w, hw, hval⟩ := Option.map_eq_some_iff.mp hval
  obtain ⟨hn, hlog, hen, hdel⟩ := by simpa using hval
  have hrun := run_of_followAlloc hw
  obtain ⟨hends, hleaves⟩ := endsOk_of_recycling (previewsOnce_of_nodup (by rw [hone]; decide)) hrun
  exact ⟨w, hrun, hlog, hends 0 (by omega), hends 1 (by omega), hleaves _ hen hdel⟩

/-- Nobody is left in the session 0, and the DVR of 1 cannot be connected to. A
third client asks for the DVR of 1 before 0 ends, five seconds after it was
left. -/
def staleTimer : List Event :=
  [.connection, previewOf 0 0, .connection, previewOf 1 1, .readError 0 (-4095),
    .dvrConnected 1 (-111), .connection, previewOf 2 1, .timer 0, .dvrConnected 0 (-125), .dvrClosed 0]

/-- The exit timer of 1 puts 0, which was freed, back on the manager's ring, and
the next client's key is compared with the one that is found there: what is in
the memory of 0 decides whether a session is started. -/
theorem not_leavesFreed_staleTimer :
    ∃ w m, PreviewsOnce (staleTimer ++ [.timer 1, .connection, previewOf 3 2]) ∧
      Transition.Run (fun w e w' => w.FindsLive e ∧ Step w e w')
        (init (fun _ => 0) fun _ => Values.zero) (staleTimer ++ [.timer 1, .connection]) w ∧
      .free (.session 0) ∈ w.log ∧ w.Enabled (previewOf 3 2) ∧
      (w.handle 6 (previewOf 3 2)).map Server.nSessions = some 4 ∧
      ((w.fill w.freedMemory m).handle 6 (previewOf 3 2)).map Server.nSessions = some 3 ∧
      ¬ w.LeavesFreed (previewOf 3 2) := by
  let m : Junk :=
    { sessions := fun _ => { (default : SmtsSession) with
        key := { dvrId := 2, channelNo := 0, frameMode := 0, type := sessionTypeSmts } }
      rings := { next := id, prev := id }
      links := { next := fun _ => .head, prev := fun _ => .head } }
  have hval : ((init (fun _ => 0) fun _ => Values.zero).followIf Proper 6 staleTimer).bind (fun w =>
      (w.followIf (fun _ e => e.preview = none) 6 [.timer 1, .connection]).map fun w =>
        (w.log.contains (.free (.session 0)), decide (w.Enabled (previewOf 3 2)),
          (w.handle 6 (previewOf 3 2)).map Server.nSessions,
          ((w.fill w.freedMemory m).handle 6 (previewOf 3 2)).map Server.nSessions))
      = some (true, true, some 4, some 3) := by
    decide +kernel
  obtain ⟨w₁, hw₁, hval⟩ := Option.bind_eq_some_iff.mp hval
  obtain ⟨w, hw, hval⟩ := Option.map_eq_some_iff.mp hval
  obtain ⟨hfree, hval⟩ := Prod.mk.inj hval
  obtain ⟨hen, hval⟩ := Prod.mk.inj hval
  obtain ⟨hnew, hfound⟩ := Prod.mk.inj hval
  have hone : (staleTimer ++ [.timer 1, .connection, previewOf 3 2]).filterMap Event.preview
      = [0, 1, 2, 3] := by
    decide +kernel
  have hfirst := findsLive_of_run (run_of_followIf hw₁)
  have hlater : Transition.Run (fun w e w' => w.FindsLive e ∧ Step w e w') w₁
      [.timer 1, .connection] w :=
    (run_of_followIf hw).mono fun _ _ _ hs => ⟨fun hne => absurd hs.1 hne, hs.2⟩
  refine ⟨w, m, previewsOnce_of_nodup (by rw [hone]; decide), hfirst.trans hlater,
    by simpa using hfree, of_decide_eq_true hen, hnew, hfound, fun hleaves => ?_⟩
  -- whatever is in the dead memory, there would be as many sessions
  have hsame : ((w.handle 6 (previewOf 3 2)).map fun v => v.fill w.freedMemory m).map
      Server.nSessions = some 3 := by
    rw [← hleaves 6 m]
    exact hfound
  have hcount : (Server.nSessions ∘ fun v => v.fill w.freedMemory m) = Server.nSessions := rfl
  rw [Option.map_map, hcount, hnew] at hsame
  exact absurd hsame (by decide)

end Claims

end Server

end Smts
