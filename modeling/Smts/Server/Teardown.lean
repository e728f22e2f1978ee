import Smts.Server.Messages
import Smts.Server.Rings

/-!
# Server — how a session is emptied

`stop_media_session` walks the ring it takes apart: every round unlinks the
client it stands on, in one of two places, and counts it out. When the last
one is gone the exit timer runs.
-/

namespace Smts

open Circular

namespace Server

/-! ## Loops over a ring of clients -/

section Loops

variable {w : Server} {fuel s : Nat} {l : List Nat}

/-- A loop whose rounds leave the ring alone or take their client out of it
comes to every client once. -/
theorem forEachClient_eq_foldlM {body : Nat → Server → Option Server}
    (hring : w.rings.IsRing (.head s) (l.map .client)) (hfuel : l.length < fuel)
    (hbody : ∀ c a b, body c a = some b → b.rings = a.rings ∨ b.rings = a.rings.remove (.client c)) :
    w.forEachClient fuel s body = l.foldlM (fun w c => body c w) w := by
  rw [forEachClient, Links.IsRing.forEach (fun q a b hq => ?_) (by rwa [List.length_map]) hring,
    List.foldlM_map]
  cases q with
  | head t => cases hq
  | client c => exact hbody c a b hq

theorem foldlM_of_forEachClient {w' : Server} {body : Nat → Server → Option Server}
    (hring : w.rings.IsRing (.head s) (l.map .client))
    (hbody : ∀ c a b, body c a = some b → b.rings = a.rings ∨ b.rings = a.rings.remove (.client c))
    (hr : w.forEachClient fuel s body = some w') :
    l.foldlM (fun w c => body c w) w = some w' := by
  have hmore : w.forEachClient (fuel + l.length + 1) s body = some w' :=
    Links.forEach_mono (by omega) hr
  rwa [forEachClient_eq_foldlM hring (by omega) hbody] at hmore

/-- One round of `stop_media_session`: the client is answered and stopped. -/
def stopRound (s : Nat) (w : Server) (c : Nat) : Option Server := do
  let w ← w.smtsClientSendPreviewRes c (w.sessions s).status.toInt
  some (w.stopSmtsClient c)

theorem stopRound_rings {c : Nat} {a b : Server} (hb : a.stopRound s c = some b) :
    b.rings = a.rings ∨ b.rings = a.rings.remove (.client c) := by
  obtain ⟨a₁, hres, hb⟩ := Option.bind_eq_some_iff.mp hb
  obtain rfl := Option.some.inj hb
  obtain ⟨htame, hrings | hstop⟩ := smtsClientSendPreviewRes_tame hres
  · exact hrings ▸ (stopSmtsClient_tame a₁ c).rings
  · rw [stopSmtsClient_of_onStop hstop]
    exact htame.rings

theorem stopMediaSession_eq_foldlM (hring : w.rings.IsRing (.head s) (l.map .client))
    (hfuel : l.length < fuel) :
    w.stopMediaSession fuel s = (w.deleteSession fuel s).bind fun w => l.foldlM (stopRound s) w := by
  rw [stopMediaSession]
  cases hdel : w.deleteSession fuel s with
  | none => rfl
  | some w₁ =>
      obtain ⟨⟨m, r⟩, -, h⟩ := Option.bind_eq_some_iff.mp hdel
      obtain rfl := Option.some.inj h
      exact forEachClient_eq_foldlM hring hfuel fun c a b => stopRound_rings

end Loops

/-! ## One round -/

section Round

variable {w w' : Server} {s c : Nat}

/-- A preview response can always be made, whatever the client's status is. -/
theorem smtsClientSendPreviewRes_total (w : Server) (c : Nat) (status : Int) :
    ∃ w', w.smtsClientSendPreviewRes c status = some w' := by
  rw [smtsClientSendPreviewRes]
  split
  · obtain ⟨w₁, henc, -⟩ := w.encodeNew_flat (t := w.previewRes status)
      (show previewCmdRes ∈ payloadFreeTypes by decide)
    rw [henc]
    simp only [Option.bind_eq_bind, Option.bind_some]
    split <;> exact ⟨_, rfl⟩
  · split <;> exact ⟨_, rfl⟩

/-- Stopping a client twice is stopping it once. -/
theorem stopSmtsClient_idem (w : Server) (c : Nat) :
    (w.stopSmtsClient c).stopSmtsClient c = w.stopSmtsClient c :=
  stopSmtsClient_of_onStop (stopSmtsClient_status w c)

/-- Whether the response stopped the client already makes no difference. -/
theorem stopRound_spec (hs : (w.clients c).session = some s) (hst : (w.clients c).status ≠ .onStop) :
    ∃ w', w.stopRound s c = some w' ∧
      w'.rings = w.rings.remove (.client c) ∧
      w'.sessions = Function.update w.sessions s (w.sessions s).leave ∧
      w'.clients = Function.update w.clients c (w.clients c).stopped ∧
      w'.manager = w.manager ∧
      ∃ m, w'.log = w.log ++ m ∧ m.filter Obs.ofStream = [.stop c, .uvClose (.client c)] := by
  obtain ⟨w₁, hres⟩ := w.smtsClientSendPreviewRes_total c (w.sessions s).status.toInt
  obtain ⟨w₂, st, h₂, -, hst₂, hcase⟩ := smtsClientSendPreviewRes_stops hres
  -- the response may have stopped the client; then it is not stopped again
  have hstop : w₁.stopSmtsClient c = w₂.stopSmtsClient c := by
    rcases hcase with rfl | rfl
    · rfl
    · exact stopSmtsClient_idem w₂ c
  have hc : w₂.clients c = { w.clients c with status := st } := by
    rw [h₂.clients]
    simp
  have hne : (w₂.clients c).status ≠ .onStop := by
    rcases hst₂ with rfl | ⟨-, rfl⟩
    · rwa [hc]
    · simp [hc]
  have hround : w.stopRound s c = some (w₂.stopSmtsClient c) := by
    rw [stopRound, hres, ← hstop]
    rfl
  obtain ⟨m, hm, hmo⟩ := h₂.log
  obtain ⟨habs, -⟩ | ⟨-, habs, -⟩ | ⟨-, t, ht, hw'⟩ := stopSmtsClient_cases w₂ c
  · exact absurd habs hne
  · rw [hc] at habs
    exact absurd (hs.symm.trans habs) (by simp)
  · obtain rfl : t = s := by
      rw [hc] at ht
      exact Option.some.inj (ht.symm.trans hs)
    rw [hw'] at hround
    refine ⟨_, hround, ?_, ?_, ?_, h₂.manager, m ++ [.stop c, .uvClose (.client c)], ?_, ?_⟩
    · have hrings : w₂.rings = w.rings := h₂.rings
      simp only [hrings]
    · have hsessions : w₂.sessions = w.sessions := h₂.sessions
      simp only [hsessions]
    · have hclients : w₂.clients
          = Function.update w.clients c { w.clients c with status := st } := h₂.clients
      simp only [hclients, Function.update_self, Function.update_idem]
      rfl
    · rw [hm, ← List.append_assoc]
      rfl
    · rw [List.filter_append, List.filter_eq_nil_iff.mpr fun o ho => by simp [hmo o ho]]
      rfl

end Round

/-! ## All of them -/

/-- The clients `done` have left the session, `rest` are still in its ring. -/
structure Emptied (w : Server) (s : Nat) (done rest : List Nat) (w' : Server) : Prop where
  ring : w'.rings.IsRing (.head s) (rest.map .client)
  size : (w'.sessions s).clientSize = rest.length
  stopped : ∀ c ∈ done, (w'.clients c).session = none ∧ (w'.clients c).status = .onStop ∧
    (w'.clients c).closing = true
  clients : ∀ c, c ∉ done → w'.clients c = w.clients c
  sessions : ∀ t, t ≠ s → w'.sessions t = w.sessions t
  rings : ∀ (t : Nat) (l : List Nat), t ≠ s → w.rings.IsRing (.head t) (l.map .client) →
    (∀ c ∈ l, c ∉ done ++ rest) →
    w'.rings.IsRing (.head t) (l.map .client)
  key : (w'.sessions s).key = (w.sessions s).key
  timer : done ≠ [] → rest = [] → (w'.sessions s).waitExitTimer = true
  log : ∃ m, w'.log = w.log ++ m ∧
    m.filter Obs.ofStream = done.flatMap fun c => [.stop c, .uvClose (.client c)]

section Emptied

variable {w w₁ w' : Server} {fuel s : Nat} {done rest l ms : List Nat}

/-- Nobody has left when the session was taken out of the manager. -/
theorem Emptied.start (hring : w.rings.IsRing (.head s) (l.map .client))
    (hsize : (w.sessions s).clientSize = l.length) (m : SessionManager) :
    Emptied w s [] l { w with manager := m } where
  ring := hring
  size := hsize
  stopped c hc := by cases hc
  clients _ _ := rfl
  sessions _ _ := rfl
  rings _ _ _ h _ := h
  key := rfl
  timer h := absurd rfl h
  log := ⟨[], by simp, rfl⟩

theorem Emptied.keyOf (h : Emptied w s done rest w') : w'.keyOf = w.keyOf := by
  funext t
  by_cases ht : t = s
  · subst ht
    exact h.key
  · rw [Server.keyOf, h.sessions t ht]
    rfl

/-- The socket of one that has left was closed once. -/
theorem Emptied.closed_once (h : Emptied w s done rest w') (hdone : done.Nodup) {c : Nat}
    (hc : c ∈ done) :
    w'.log.count (.uvClose (.client c)) = w.log.count (.uvClose (.client c)) + 1 := by
  obtain ⟨m, hm, hmo⟩ := h.log
  have hcount : ∀ l : List Nat, (l.flatMap fun c => [Obs.stop c, .uvClose (.client c)]).count
      (.uvClose (.client c)) = l.count c := fun l => by
    induction l with
    | nil => rfl
    | cons d l ih => simp [List.count_cons, ih]
  rw [hm, List.count_append, ← List.count_filter (l := m) (p := Obs.ofStream) rfl, hmo, hcount,
    List.count_eq_one_of_mem hdone hc]

/-- One round of the loop stops the next client and takes it out of the ring. -/
theorem Emptied.stopRound {c : Nat} (h : Emptied w s done (c :: rest) w₁) (hc : c ∉ done)
    (hs : (w.clients c).session = some s) (hst : (w.clients c).status ≠ .onStop) :
    ∃ w', w₁.stopRound s c = some w' ∧ w'.manager = w₁.manager ∧
      Emptied w s (done ++ [c]) rest w' := by
  have hsame := h.clients c hc
  obtain ⟨w', hround, hrings, hsessions, hclients, hmanager, m, hm, hmo⟩ :=
    stopRound_spec (w := w₁) (hsame ▸ hs) (hsame ▸ hst)
  have hnode : RingNode.client c ∈ (c :: rest).map RingNode.client := by simp
  -- the client is the first of those left, so its removal leaves the others in order
  have hring := h.ring.remove hnode
  rw [List.map_cons, List.erase_cons_head, ← hrings] at hring
  refine ⟨w', hround, hmanager, hring, ?_, fun d hd => ?_, fun d hd => ?_, fun t ht => ?_,
    fun t l ht hl hdisj => ?_, ?_, fun _ hrest => ?_, ?_⟩
  · have hsize := h.size
    simp only [hsessions, Function.update_self, SmtsSession.leave, hsize, List.length_cons]
    omega
  · rw [hclients]
    by_cases hdc : d = c
    · subst hdc
      simp [SmtsClient.stopped]
    · rw [Function.update_of_ne hdc]
      exact h.stopped d (by simpa [hdc] using hd)
  · simp only [List.mem_append, List.mem_singleton, not_or] at hd
    rw [hclients, Function.update_of_ne hd.2, h.clients d hd.1]
  · rw [hsessions, Function.update_of_ne ht, h.sessions t ht]
  · have hl₁ := h.rings t l ht hl fun d hd hmem => hdisj d hd (by simpa using hmem)
    rw [hrings]
    refine h.ring.remove_frame (List.mem_cons_of_mem _ hnode) hl₁ fun x hx hx' => ?_
    rcases List.mem_cons.mp hx' with rfl | hx'
    · exact ht (by simpa using hx)
    · obtain ⟨d, hd, rfl⟩ := List.mem_map.mp hx'
      refine hdisj d hd ?_
      simp at hx ⊢
      tauto
  · rw [hsessions, Function.update_self]
    exact h.key
  · have hsize := h.size
    rw [hrest] at hsize
    simp [hsessions, SmtsSession.leave, hsize]
  · obtain ⟨m₁, hm₁, hmo₁⟩ := h.log
    refine ⟨m₁ ++ m, by rw [hm, hm₁, List.append_assoc], ?_⟩
    rw [List.filter_append, hmo₁, hmo, List.flatMap_append]
    rfl

/-- The loop over the ring, whatever the manager is by then. -/
theorem Emptied.foldlM (hring : w.rings.IsRing (.head s) (l.map .client))
    (hsize : (w.sessions s).clientSize = l.length)
    (hl : ∀ c ∈ l, (w.clients c).session = some s ∧ (w.clients c).status ≠ .onStop)
    (m : SessionManager) :
    ∃ w', l.foldlM (Server.stopRound s) { w with manager := m } = some w' ∧ w'.manager = m ∧
      Emptied w s l [] w' := by
  have hnodup : l.Nodup := List.Nodup.of_map _ hring.nodes_nodup
  obtain ⟨w', hrun, done, hdone, hm, hw'⟩ := Links.foldlM_total (f := Server.stopRound s)
    (I := fun rest w₁ => ∃ done, done ++ rest = l ∧ w₁.manager = m ∧ Emptied w s done rest w₁)
    (fun c rest w₁ ⟨done, hdone, hm, hw₁⟩ => by
      have hmem : c ∈ l := by simp [← hdone]
      have hc : c ∉ done := fun hc => by
        rw [← hdone] at hnodup
        exact (List.nodup_append.mp hnodup).2.2 c hc c (by simp) rfl
      obtain ⟨w₂, hround, hm₂, hw₂⟩ := hw₁.stopRound hc (hl c hmem).1 (hl c hmem).2
      exact ⟨w₂, hround, done ++ [c], by simpa using hdone, hm₂.trans hm, hw₂⟩)
    ⟨[], rfl, rfl, Emptied.start hring hsize m⟩
  rw [List.append_nil] at hdone
  exact ⟨w', hrun, hm, hdone ▸ hw'⟩

/-- **One pass empties the session**: the loop comes to every client of the
ring once, stops it and closes its socket; the session is in no ring of the
manager's any more, and a second pass finds nothing to do. -/
theorem stopMediaSession_empties (hm : w.manager.Exact w.keyOf ms) (hs : s ∈ ms)
    (hring : w.rings.IsRing (.head s) (l.map .client))
    (hsize : (w.sessions s).clientSize = l.length)
    (hl : ∀ c ∈ l, (w.clients c).session = some s ∧ (w.clients c).status ≠ .onStop)
    (hms : ms.length < fuel) (hfuel : l.length < fuel) :
    ∃ w₁ w', w.deleteSession fuel s = some w₁ ∧ l.foldlM (stopRound s) w₁ = some w' ∧
      w.stopMediaSession fuel s = some w' ∧ Emptied w s l [] w' ∧
      (∀ c ∈ l, w'.log.count (.uvClose (.client c)) = w.log.count (.uvClose (.client c)) + 1) ∧
      w'.manager.Exact w'.keyOf (ms.erase s) ∧ w'.stopMediaSession fuel s = some w' := by
  obtain ⟨m, hdel, hm'⟩ := hm.deleteSession_member hms hs
  obtain ⟨w', hrun, hmanager, hw'⟩ := Emptied.foldlM hring hsize hl m
  have hdel := deleteSession_some hdel
  have hstop : w.stopMediaSession fuel s = some w' := by
    rw [stopMediaSession_eq_foldlM hring hfuel, hdel, Option.bind_some, hrun]
  rw [← hmanager, ← hw'.keyOf] at hm'
  have hnodup : l.Nodup := List.Nodup.of_map _ hring.nodes_nodup
  refine ⟨_, w', hdel, hrun, hstop, hw', fun c hc => hw'.closed_once hnodup hc, hm', ?_⟩
  -- the second time no session has the key, and nobody is in the ring
  have hnone : ∀ t ∈ ms.erase s, w'.keyOf t ≠ w'.keyOf s := fun t ht heq => by
    rw [hw'.keyOf] at heq
    have hts : t = s := List.inj_on_of_nodup_map hm.keys (List.mem_of_mem_erase ht) hs heq
    exact (List.Nodup.not_mem_erase hm.nodup) (hts ▸ ht)
  have hlen : (ms.erase s).length < fuel := lt_of_le_of_lt (List.length_erase_le ..) hms
  rw [stopMediaSession_eq_foldlM hw'.ring (Nat.zero_lt_of_lt hfuel),
    deleteSession_some (hm'.deleteSession_unknown hlen hnone)]
  rfl

end Emptied

/-- All three clients are stopped, and the write of the answer to the first one fails. -/
theorem stopMediaSession_empties_threeClients :
    ∃ w w', (init (brokenPipe 15) fun _ => Values.zero).follow 4 threeClients = some w ∧
      [2, 1, 0].map (fun c => (w.clients c).status) = [.onSendFrames, .onSendFrames, .onInit] ∧
      w.stopMediaSession 4 0 = some w' ∧ Emptied w 0 [2, 1, 0] [] w' := by
  have hval : ((init (brokenPipe 15) fun _ => Values.zero).follow 4 threeClients).map (fun w =>
      decide (w.manager.Exact w.keyOf [0]) &&
        decide (w.rings.IsRing (.head 0) ([2, 1, 0].map .client)) &&
        decide ((w.sessions 0).clientSize = 3) &&
        decide (∀ c ∈ ([2, 1, 0] : List Nat),
          (w.clients c).session = some 0 ∧ (w.clients c).status ≠ .onStop) &&
        decide ([2, 1, 0].map (fun c => (w.clients c).status) = [.onSendFrames, .onSendFrames, .onInit]))
      = some true := by
    decide +kernel
  obtain ⟨w, hw, hval⟩ := Option.map_eq_some_iff.mp hval
  simp only [Bool.and_eq_true, decide_eq_true_eq] at hval
  obtain ⟨⟨⟨⟨hexact, hring⟩, hsize⟩, hlive⟩, hstatuses⟩ := hval
  have hone : [0].length < 4 := by decide
  have hthree : [2, 1, 0].length < 4 := by decide
  obtain ⟨w₁, w', -, -, hstop, hw', -⟩ :=
    stopMediaSession_empties hexact (by decide) hring hsize hlive hone hthree
  exact ⟨w, w', hw, hstatuses, hstop, hw'⟩

end Server

end Smts
