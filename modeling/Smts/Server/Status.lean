import Smts.Server.Reuse

/-!
# Server — a client's status

`status` is set in three places, two of them callbacks of a write. Only
`stop_smts_client` looks whether the client was stopped before it closes the
socket; the callback of the preview response looks at nothing, neither at the
client nor at its own status.
-/

namespace Smts

open Circular

/-- How far a client has come, from `SMTS_CLIENT_ON_INIT` to
`SMTS_CLIENT_ON_STOP`. -/
def ClientStatus.rank : ClientStatus → Nat
  | .onInit => 0
  | .onSendPreviewRes => 1
  | .onSendFrames => 2
  | .onStop => 3

theorem ClientStatus.rank_le (x : ClientStatus) : x.rank ≤ ClientStatus.onStop.rank := by
  cases x <;> decide

namespace Server

/-! ## The clients that can be come across -/

/-- The heads of the rings and the clients in `A`. -/
def Live (A : Nat → Prop) : RingNode → Prop
  | .head _ => True
  | .client c => A c

/-- `A` are the clients that were accepted. Nobody comes across the others,
and those of `A` are closed when they are stopped and not otherwise. -/
structure Accepted (A : Nat → Prop) (w : Server) : Prop where
  lt : ∀ c, A c → c < w.nClients
  rings : w.rings.Closed (Live A)
  reading : ∀ c, (w.clients c).reading = true → A c
  session : ∀ c s, (w.clients c).session = some s → A c
  written : ∀ req ∈ w.writes, ∀ c, req.client = .client c → A c
  stopped : ∀ c, A c → ((w.clients c).closing = true ↔ (w.clients c).status = .onStop)
  closes : ∀ c, w.log.count (.uvClose (.client c)) = if (w.clients c).closing then 1 else 0
  fresh : ∀ c, w.nClients ≤ c → (w.clients c).closing = false ∧ (w.clients c).status = .onInit

section Accepted

variable {A : Nat → Prop} {w w' : Server}

/-- Nothing of the clients is touched, and what is queued is for clients in `A`. -/
theorem Accepted.sameNet (h : Accepted A w) (hn : SameNet w w')
    (hw : ∀ req ∈ w'.writes, req ∈ w.writes ∨ ∀ c, req.client = .client c → A c)
    (hlog : ∀ c, w'.log.count (.uvClose (.client c)) = w.log.count (.uvClose (.client c))) :
    Accepted A w' where
  lt c hc := hn.nClients ▸ h.lt c hc
  rings := hn.rings ▸ h.rings
  reading c hc := h.reading c (hn.clients ▸ hc)
  session c s hc := h.session c s (hn.clients ▸ hc)
  written req hreq c heq := (hw req hreq).elim (fun hold => h.written req hold c heq) fun hA => hA c heq
  stopped c hc := hn.clients ▸ h.stopped c hc
  closes c := by rw [hlog, hn.clients, h.closes]
  fresh c hc := by
    rw [hn.clients]
    exact h.fresh c (hn.nClients ▸ hc)

/-- A change of one client keeps all in order, if the client itself is in order
after it. -/
theorem Accepted.update (h : Accepted A w) {c : Nat} {x : SmtsClient}
    (hn : w'.nClients = w.nClients) (hclients : w'.clients = Function.update w.clients c x)
    (hrings : w'.rings.Closed (Live A))
    (hw : ∀ req ∈ w'.writes, req ∈ w.writes ∨ ∀ c, req.client = .client c → A c)
    (hreading : x.reading = true → A c) (hsession : ∀ s, x.session = some s → A c)
    (hstopped : A c → (x.closing = true ↔ x.status = .onStop))
    (hcloses : ∀ d, w'.log.count (.uvClose (.client d))
      = if d = c then (if x.closing then 1 else 0) else w.log.count (.uvClose (.client d)))
    (hfresh : w.nClients ≤ c → x.closing = false ∧ x.status = .onInit) : Accepted A w' := by
  have hother : ∀ d, d ≠ c → w'.clients d = w.clients d := fun d hd => by
    rw [hclients, Function.update_of_ne hd]
  have hself : w'.clients c = x := by rw [hclients, Function.update_self]
  refine ⟨fun d hd => hn ▸ h.lt d hd, hrings, fun d hd => ?_, fun d s hd => ?_,
    fun req hreq d heq => ?_, fun d hd => ?_, fun d => ?_, fun d hd => ?_⟩
  · by_cases hdc : d = c
    · subst hdc
      exact hreading (hself ▸ hd)
    · exact h.reading d (hother d hdc ▸ hd)
  · by_cases hdc : d = c
    · subst hdc
      exact hsession s (hself ▸ hd)
    · exact h.session d s (hother d hdc ▸ hd)
  · exact (hw req hreq).elim (fun hold => h.written req hold d heq) fun hA => hA d heq
  · by_cases hdc : d = c
    · subst hdc
      rw [hself]
      exact hstopped hd
    · rw [hother d hdc]
      exact h.stopped d hd
  · rw [hcloses]
    by_cases hdc : d = c
    · subst hdc
      rw [if_pos rfl, hself]
    · rw [if_neg hdc, hother d hdc, h.closes]
  · by_cases hdc : d = c
    · subst hdc
      rw [hself]
      exact hfresh (hn ▸ hd)
    · rw [hother d hdc]
      exact h.fresh d (hn ▸ hd)

/-- A client's fields, but for what was done about its socket. -/
theorem Accepted.setClient (h : Accepted A w) (c : Nat) (x : SmtsClient)
    (hclosing : x.closing = (w.clients c).closing) (hreading : x.reading = true → A c)
    (hsession : ∀ s, x.session = some s → A c)
    (hlt : c < w.nClients)
    (hstatus : A c → (x.status = .onStop ↔ (w.clients c).status = .onStop)) :
    Accepted A (w.setClient c x) := by
  refine h.update rfl rfl h.rings (fun _ hreq => .inl hreq) hreading hsession (fun hA => ?_)
    (fun d => ?_) fun hge => absurd hlt (not_lt.mpr hge)
  · rw [hclosing, hstatus hA]
    exact h.stopped c hA
  · split
    next hd =>
      rw [hclosing, hd]
      exact h.closes c
    next => rfl

theorem Accepted.stopSmtsClient (h : Accepted A w) {c : Nat} (hc : A c) :
    Accepted A (w.stopSmtsClient c) := by
  have hcount : (w.clients c).status ≠ .onStop → ∀ d,
      (w.log ++ [Obs.stop c, .uvClose (.client c)]).count (.uvClose (.client d))
        = if d = c then (if (w.clients c).stopped.closing then 1 else 0)
          else w.log.count (.uvClose (.client d)) := fun hst d => by
    have hopen : ¬ (w.clients c).closing = true := fun hcl => hst ((h.stopped c hc).mp hcl)
    have hzero := h.closes c
    rw [if_neg hopen] at hzero
    by_cases hd : d = c
    · subst hd
      simp [hzero, SmtsClient.stopped]
    · simp [Ne.symm hd, if_neg hd]
  have hstopped : ∀ {v : Server}, v.nClients = w.nClients →
      v.clients = Function.update w.clients c (w.clients c).stopped → v.rings.Closed (Live A) →
      v.writes = w.writes → v.log = w.log ++ [.stop c, .uvClose (.client c)] →
      (w.clients c).status ≠ .onStop → Accepted A v := fun hn hclients hrings hwrites hlog hst =>
    h.update hn hclients hrings (fun _ hreq => .inl (hwrites ▸ hreq)) (fun _ => hc) (fun _ _ => hc)
      (fun _ => ⟨fun _ => rfl, fun _ => rfl⟩) (hlog ▸ hcount hst)
      fun hge => absurd (h.lt c hc) (not_lt.mpr hge)
  obtain ⟨-, hw⟩ | ⟨hst, -, hw⟩ | ⟨hst, s, -, hw⟩ := stopSmtsClient_cases w c <;> rw [hw]
  · exact h
  · exact hstopped rfl rfl h.rings rfl rfl hst
  · exact hstopped rfl rfl (h.rings.remove hc) rfl rfl hst

end Accepted

/-! ## What the callbacks do to it -/

section Callbacks

variable {A : Nat → Prop} {S : Scope} {w₀ w w' : Server}

/-- How one action may change a client's status. -/
theorem Action.status_cases (ha : Action S w₀ w w') (hS : S.connection = false) (c : Nat) :
    (w'.clients c).status = (w.clients c).status ∨
      ((w.clients c).status = .onInit ∧ (w'.clients c).status = .onSendPreviewRes) ∨
      (w'.clients c).status = .onStop ∨
      ((w'.clients c).status = .onSendFrames ∧ ∃ req, S.write = some req ∧
        req.cb = .previewResSlient ∧ req.client = .client c) := by
  have hconn : S.connection = true → False := by simp [hS]
  have hset : ∀ (d : Nat) (x : SmtsClient), x.status = (w.clients d).status →
      (Function.update w.clients d x c).status = (w.clients c).status := fun d x hx => by
    by_cases hcd : c = d
    · subst hcd
      rw [Function.update_self, hx]
    · rw [Function.update_of_ne hcd]
  cases ha with
  | uvCall hr => exact .inl (by rw [(MemOnly.uvCall hr).clients])
  | emit _ _ _ _ => exact .inl rfl
  | encodeNew _ _ _ hr => exact .inl (by rw [encodeNew_clients hr])
  | receive _ => exact .inl rfl
  | drop _ => exact .inl rfl
  | addFrame _ _ => exact .inl rfl
  | increaseRef _ => exact .inl rfl
  | addRef _ _ => exact .inl rfl
  | destroy _ => exact .inl rfl
  | dropRef _ hr => exact .inl (by rw [(MemOnly.onSmtsClientSendFrame hr).clients])
  | destroyFrame _ _ => exact .inl rfl
  | send _ _ _ _ hr => exact .inl (by rw [(MemOnly.tcpClientSendMsg hr).clients])
  | @sendPreviewRes d _ _ _ _ _ hd hr =>
      rw [(MemOnly.tcpClientSendMsg hr).clients, setClient_clients]
      by_cases hcd : c = d
      · subst hcd
        exact .inr (.inl ⟨hd, by rw [Function.update_self]⟩)
      · exact .inl (by rw [Function.update_of_ne hcd])
  | complete _ _ _ => exact .inl rfl
  | @previewResDone k req d _ hS hcb hd =>
      rw [setClient_clients]
      by_cases hcd : c = d
      · subst hcd
        exact .inr (.inr (.inr ⟨by rw [Function.update_self], req, hS, hcb, hd⟩))
      · exact .inl (by rw [Function.update_of_ne hcd]; rfl)
  | relay _ _ => exact .inl rfl
  | @stop d _ =>
      obtain ⟨-, h⟩ | ⟨-, -, h⟩ | ⟨-, s, -, h⟩ := stopSmtsClient_cases w d
      · rw [h]
        exact .inl rfl
      -- whoever is stopped is in ON_STOP then, and nobody else's status changes
      all_goals
        by_cases hcd : c = d
        · exact .inr (.inr (.inl (by rw [hcd]; exact stopSmtsClient_status w d)))
        · exact .inl (by rw [(stopSmtsClient_tame w d).clients c hcd])
  | touch _ => exact .inl rfl
  | delete hr =>
      obtain ⟨m, rfl⟩ := deleteSession_eq hr
      exact .inl rfl
  | initClient hS => exact (hconn hS).elim
  | startRead hS _ => exact (hconn hS).elim
  | close hS _ => exact (hconn hS).elim
  | closed _ => exact .inl (hset _ _ rfl)
  | initSession _ _ => exact .inl rfl
  | attach _ _ => exact .inl (hset _ _ rfl)
  | manage _ _ => exact .inl rfl
  | abort _ _ => exact .inl (hset _ _ rfl)

/-- Nothing is queued, and nothing is said of a client's socket. -/
theorem Accepted.memOnly (h : Accepted A w) (hm : MemOnly w w')
    (hw : ∀ req ∈ w'.writes, req ∈ w.writes ∨ ∀ c, req.client = .client c → A c) : Accepted A w' := by
  obtain ⟨m, hlog, hm'⟩ := hm.log
  refine h.sameNet hm.toSameNet hw fun c => ?_
  have hnone : m.count (.uvClose (.client c)) = 0 :=
    List.count_eq_zero.mpr fun hmem => by cases hm' _ hmem
  rw [hlog, List.count_append, hnone, Nat.add_zero]

theorem Accepted.tcpClientSendMsg (h : Accepted A w) {t : Target} {p : Nat} {cb : SendCb} {r : Int}
    (ht : ∀ c, t = .client c → A c) (hr : w.tcpClientSendMsg t p cb = (w', r)) : Accepted A w' := by
  refine h.memOnly (.tcpClientSendMsg hr) fun req hreq => ?_
  obtain ⟨-, rfl⟩ | ⟨-, rfl⟩ := tcpClientSendMsg_cases hr
  · rcases List.mem_append.mp hreq with hreq | hreq
    · exact .inl hreq
    · obtain rfl := List.mem_singleton.mp hreq
      exact .inr ht
  · exact .inl hreq

/-- An action of a callback that concerns only clients in `A`, and is not the
preview response's. -/
theorem Accepted.action (h : Accepted A w) (hconn : S.connection = false)
    (hreach : ∀ c, S.Reaches c → A c) (hjoin : ∀ c, S.join = some c → A c)
    (hcb : ∀ req, S.write = some req → req.cb ≠ .previewResSlient) (ha : Action S w₀ w w') :
    Accepted A w' := by
  have hconn : S.connection = true → False := by simp [hconn]
  have hkeep : ∀ {v : Server}, MemOnly w v → v.writes = w.writes → Accepted A v := fun hm hw =>
    h.memOnly hm fun _ hreq => .inl (hw ▸ hreq)
  cases ha with
  | uvCall hr =>
      refine hkeep (.uvCall hr) ?_
      obtain ⟨rfl, -⟩ := Prod.mk.inj hr
      rfl
  | emit _ hstream _ _ => exact hkeep (.emit w hstream) rfl
  | encodeNew _ _ _ hr => exact hkeep (.encodeNew hr) (encodeNew_writes hr)
  | receive _ => exact hkeep ((MemOnly.setHeap w _).trans (.addCmd ..)) rfl
  | drop _ => exact hkeep ((MemOnly.setHeap w _).trans (.emit _ rfl)) rfl
  | addFrame _ _ => exact hkeep (.addFrame ..) rfl
  | increaseRef _ => exact hkeep (.setCmd ..) rfl
  | addRef _ _ => exact hkeep (.setCmd ..) rfl
  | destroy _ => exact hkeep (.protoCmdDestroy ..) rfl
  | dropRef _ hr =>
      refine hkeep (.onSmtsClientSendFrame hr) ?_
      obtain ⟨-, rfl⟩ | ⟨-, f, -, rfl⟩ := onSmtsClientSendFrame_cases hr <;> rfl
  | destroyFrame _ _ => exact hkeep (.destroySmtsFrame ..) rfl
  | send _ _ _ hclient hr => exact h.tcpClientSendMsg (fun c hc => hreach c (hclient c hc)) hr
  | @sendPreviewRes c _ _ _ _ hv hc hr =>
      refine Accepted.tcpClientSendMsg ?_ (fun d hd => ?_) hr
      · exact h.setClient c _ rfl (h.reading c) (h.session c) (h.lt c (hreach c hv)) fun _ => by
          simp [hc]
      · obtain rfl := Target.client.inj hd
        exact hreach _ hv
  | complete _ _ _ =>
      exact h.memOnly (.eraseWrite ..) fun _ hreq => .inl (List.mem_of_mem_eraseIdx hreq)
  | previewResDone _ hS hcb' _ => exact absurd hcb' (hcb _ hS)
  | relay _ ho =>
      refine h.sameNet (.emit ..) (fun _ hreq => .inl hreq) fun c => ?_
      obtain ⟨s, f, rfl⟩ | ⟨d, f, rfl⟩ | ⟨d, p, rfl, -⟩ := ho <;> simp
  | stop hv => exact h.stopSmtsClient (hreach _ hv)
  | touch _ =>
      exact ⟨h.lt, h.rings, h.reading, h.session, h.written, h.stopped, h.closes, h.fresh⟩
  | delete hr =>
      obtain ⟨m, rfl⟩ := deleteSession_eq hr
      exact ⟨h.lt, h.rings, h.reading, h.session, h.written, h.stopped, h.closes, h.fresh⟩
  -- a client is accepted and read from by the connection's callback only
  | initClient hS => exact (hconn hS).elim
  | startRead hS _ => exact (hconn hS).elim
  | close hS _ => exact (hconn hS).elim
  | @closed c _ =>
      refine h.update rfl rfl h.rings (fun _ hreq => .inl hreq) (h.reading c) (h.session c)
        (h.stopped c) (fun d => ?_) (h.fresh c)
      by_cases hd : d = c
      · subst hd
        simpa using h.closes d
      · simp [hd]
  | initSession _ _ =>
      refine ⟨h.lt, h.rings.init _, h.reading, h.session, h.written, h.stopped, fun c => ?_, h.fresh⟩
      simpa using h.closes c
  | @attach c hS s =>
      refine h.update rfl rfl (h.rings.insertHead trivial (hjoin c hS)) (fun _ hreq => .inl hreq)
        (h.reading c) (fun _ _ => hjoin c hS) (h.stopped c) (fun d => ?_) (h.fresh c)
      by_cases hd : d = c
      · subst hd
        simpa using h.closes d
      · simp [hd]
  | manage _ _ =>
      exact ⟨h.lt, h.rings, h.reading, h.session, h.written, h.stopped, h.closes, h.fresh⟩
  | @abort c _ s =>
      refine h.update rfl rfl h.rings (fun _ hreq => .inl hreq) (h.reading c) (by rintro _ ⟨⟩)
        (h.stopped c) (fun d => ?_) (h.fresh c)
      by_cases hd : d = c
      · subst hd
        simpa using h.closes d
      · simp [hd]

theorem Accepted.does (h : Accepted A w₀) (hconn : S.connection = false)
    (hreach : ∀ c, S.Reaches c → A c) (hjoin : ∀ c, S.join = some c → A c)
    (hcb : ∀ req, S.write = some req → req.cb ≠ .previewResSlient) (hd : Does S w₀ w) :
    Accepted A w := by
  induction hd with
  | start => exact h
  | step _ ha ih => exact ih.action hconn hreach hjoin hcb ha

/-- The loops come only to clients in `A`. -/
theorem Accepted.loops (h : Accepted A w₀) (hreach : S.reach = A) (hconn : S.connection = false)
    (hA : ∀ c, S.Reaches c → A c) (hjoin : ∀ c, S.join = some c → A c)
    (hcb : ∀ req, S.write = some req → req.cb ≠ .previewResSlient) (s : Nat) : S.Loops w₀ s := by
  intro fuel w w' body hd hbody hr
  have hclosed : ∀ v, Does S w₀ v ∧ w.nCmds ≤ v.nCmds → v.rings.Closed (Live A) := fun v hv =>
    (h.does hconn hA hjoin hcb hv.1).rings
  refine (Links.forEach_within (P := Live A) (I := fun v => Does S w₀ v ∧ w.nCmds ≤ v.nCmds) hclosed
    (fun q a b hq ha hb => ?_) ((hclosed w ⟨hd, le_rfl⟩).next (.head s) trivial) ⟨hd, le_rfl⟩ hr).1
  cases q with
  | head t => cases hb
  | client c =>
      have hq : S.reach c := hreach ▸ hq
      obtain ⟨hb, htame⟩ := hbody c a b ha.1 ha.2 hq hb
      exact ⟨hb, ha.2.trans htame.nCmds⟩

/-- How far clients have come, after a callback that is not the preview
response's. -/
structure Onward (w w' : Server) : Prop where
  rank : ∀ c, (w.clients c).status.rank ≤ (w'.clients c).status.rank
  frames : ∀ c, (w'.clients c).status = .onSendFrames → (w.clients c).status = .onSendFrames

theorem Does.onward (hd : Does S w₀ w) (hconn : S.connection = false)
    (hcb : ∀ req, S.write = some req → req.cb ≠ .previewResSlient) : Onward w₀ w := by
  induction hd with
  | start => exact ⟨fun _ => le_rfl, fun _ => id⟩
  | step _ ha ih =>
      refine ⟨fun c => (ih.rank c).trans ?_, fun c hc => ih.frames c ?_⟩
      · rcases ha.status_cases hconn c with heq | ⟨hinit, hres⟩ | hstop | ⟨-, req, hreq, hpre, -⟩
        · rw [heq]
        · rw [hinit, hres]
          decide
        · rw [hstop]
          exact ClientStatus.rank_le _
        · exact absurd hpre (hcb req hreq)
      · rcases ha.status_cases hconn c with heq | ⟨-, hres⟩ | hstop | ⟨-, req, hreq, hpre, -⟩
        · rwa [← heq]
        · rw [hres] at hc
          cases hc
        · rw [hstop] at hc
          cases hc
        · exact absurd hpre (hcb req hreq)

/-! ## Connections -/

/-- A new client may be accepted or not. -/
theorem Accepted.initSmtsClient {B : Nat → Prop} (h : Accepted A w) (hA : ∀ c, A c → B c)
    (hB : ∀ c, B c → A c ∨ c = w.nClients) : Accepted B w.initSmtsClient := by
  have hother : ∀ c, c ≠ w.nClients → w.initSmtsClient.clients c = w.clients c := fun c hc =>
    Function.update_of_ne hc ..
  have hlive : ∀ q, Live A q → Live B q := fun q hq => by
    cases q with
    | head s => trivial
    | client c => exact hA c hq
  refine ⟨fun c hc => ?_, ?_, fun c hc => ?_, fun c s hc => ?_,
    fun req hreq c heq => hA c (h.written req hreq c heq), fun c hc => ?_, fun c => ?_, fun c hc => ?_⟩
  · rcases hB c hc with hc | rfl
    · exact (h.lt c hc).trans (Nat.lt_succ_self _)
    · exact Nat.lt_succ_self _
  -- the ring of the new client is its own, the others are as before
  · have hsplit : ∀ q, Live B q → Live A q ∨ q = .client w.nClients := fun q hq => by
      cases q with
      | head s => exact .inl trivial
      | client c => exact (hB c hq).imp_right (congrArg _)
    refine ⟨fun q hq => ?_, fun q hq => ?_⟩
    · by_cases hqn : q = .client w.nClients
      · rw [initSmtsClient_rings, hqn, Links.init_next_self]
        exact hqn ▸ hq
      · rw [initSmtsClient_rings, Links.init_next hqn]
        exact hlive _ (h.rings.next q ((hsplit q hq).resolve_right hqn))
    · by_cases hqn : q = .client w.nClients
      · rw [initSmtsClient_rings, hqn, Links.init_prev_self]
        exact hqn ▸ hq
      · rw [initSmtsClient_rings, Links.init_prev hqn]
        exact hlive _ (h.rings.prev q ((hsplit q hq).resolve_right hqn))
  · by_cases hcn : c = w.nClients
    · subst hcn
      simp at hc
    · exact hA c (h.reading c (hother c hcn ▸ hc))
  · by_cases hcn : c = w.nClients
    · subst hcn
      simp at hc
    · exact hA c (h.session c s (hother c hcn ▸ hc))
  · by_cases hcn : c = w.nClients
    · subst hcn
      simp
    · rw [hother c hcn]
      exact h.stopped c ((hB c hc).resolve_right hcn)
  · have hlog : w.initSmtsClient.log.count (.uvClose (.client c))
        = w.log.count (.uvClose (.client c)) := by simp
    rw [hlog, h.closes]
    by_cases hcn : c = w.nClients
    · subst hcn
      simp [h.fresh _ le_rfl]
    · rw [hother c hcn]
  · have hc : w.nClients + 1 ≤ c := hc
    rw [hother c (by omega)]
    exact h.fresh c (by omega)

/-- A connection that fails is closed at once. -/
theorem Accepted.closeClient (h : Accepted A w) {c : Nat} (hc : ¬ A c) (hlt : c < w.nClients)
    (hopen : (w.clients c).closing = false) : Accepted A (w.closeClient c) := by
  have hzero := h.closes c
  rw [hopen] at hzero
  refine h.update rfl rfl h.rings (fun _ hreq => .inl hreq) (by simp) (h.session c)
    (fun hA => absurd hA hc) (fun d => ?_) fun hge => absurd hlt (not_lt.mpr hge)
  by_cases hd : d = c
  · subst hd
    simp [hzero]
  · simp [hd, Ne.symm hd]

theorem clientOnConnection_clients (w : Server) {c : Nat} (hc : c ≠ w.nClients) :
    w.clientOnConnection.clients c = w.clients c := by
  rw [Server.clientOnConnection]
  dsimp only
  split
  · simp [Function.update_of_ne hc]
  split
  · simp [Function.update_of_ne hc]
  · simp [Function.update_of_ne hc]

theorem clientOnConnection_status (w : Server) :
    (w.clientOnConnection.clients w.nClients).status = .onInit := by
  rw [Server.clientOnConnection]
  dsimp only
  split
  · simp
  split
  · simp
  · simp

theorem Accepted.clientOnConnection (h : Accepted A w) :
    ∃ A', Accepted A' w.clientOnConnection := by
  have hnot : ¬ A w.nClients := fun hA => Nat.lt_irrefl _ (h.lt _ hA)
  have hcall : ∀ {B : Nat → Prop} {v : Server}, Accepted B v → Accepted B v.uvCall.1 := fun hv =>
    hv.memOnly (.uvCall rfl) fun _ hreq => .inl hreq
  have hfails : ∀ v : Server, Accepted A v → v.clients = w.initSmtsClient.clients →
      v.nClients = w.nClients + 1 → ∃ A', Accepted A' (v.closeClient w.nClients) :=
    fun v hv hclients hn => ⟨A, hv.closeClient hnot (by omega) (by rw [hclients]; simp)⟩
  have h₁ : Accepted A w.initSmtsClient := h.initSmtsClient (fun _ => id) fun _ => .inl
  have h₂ : Accepted (fun c => A c ∨ c = w.nClients) w.initSmtsClient :=
    h.initSmtsClient (fun _ => .inl) fun _ => id
  rw [Server.clientOnConnection]
  dsimp only
  split
  · exact hfails _ (hcall h₁) rfl rfl
  split
  · exact hfails _ (hcall (hcall h₁)) rfl rfl
  · exact ⟨_, (hcall (hcall h₂)).setClient _ _ rfl (fun _ => .inr rfl) (fun _ _ => .inr rfl)
      (Nat.lt_succ_self _) fun _ => Iff.rfl⟩

end Callbacks

/-! ## Whole runs -/

/-- The preview response's callback comes with success, and before its client
was stopped. -/
def HeedsReq (w : Server) (status : Int) : Option WriteReq → Prop
  | some ⟨_, .client c, _, .previewResSlient⟩ => status = 0 ∧ (w.clients c).status ≠ .onStop
  | _ => True

/-- If the event ends the write of a preview response, it is with success, and
before the client was stopped. -/
def Heeds (w : Server) : Event → Prop
  | .writeDone k status => w.HeedsReq status w.writes[k]?
  | _ => True

instance (w : Server) (status : Int) (req : Option WriteReq) : Decidable (w.HeedsReq status req) := by
  unfold HeedsReq
  split <;> infer_instance

instance (w : Server) (e : Event) : Decidable (w.Heeds e) := by
  unfold Heeds
  split <;> infer_instance

/-- A preview response to `c` has been written. -/
def Written (w : Server) (c : Nat) (e : Event) : Prop :=
  ∃ k req, e = .writeDone k 0 ∧ w.writes[k]? = some req ∧ req.cb = .previewResSlient ∧
    req.client = .client c

/-- The clients' statuses only move on, and to frames only when the preview
response was written. -/
structure MovesOn (w : Server) (e : Event) (w' : Server) : Prop where
  rank : ∀ c, (w.clients c).status.rank ≤ (w'.clients c).status.rank
  frames : ∀ c, (w'.clients c).status = .onSendFrames →
    (w.clients c).status = .onSendFrames ∨ w.Written c e

section Runs

variable {A : Nat → Prop} {w w' : Server} {e : Event}

/-- Events that neither accept a connection nor end the write of a preview
response only move statuses on. -/
theorem Accepted.other (h : Accepted A w) (hconn : (w.scope e).connection = false)
    (hcb : ∀ req, (w.scope e).write = some req → req.cb ≠ .previewResSlient)
    (hstep : Step w e w') : Accepted A w' ∧ MovesOn w e w' := by
  obtain ⟨hen, fuel, hr⟩ := hstep
  let S : Scope := { w.scope e with reach := A }
  have hreader : ∀ c, S.reader = some c → A c := fun c hc => by
    cases e with
    | packet d bytes junk =>
        obtain rfl := Option.some.inj hc
        exact h.reading d hen.2.1
    | readError d status =>
        obtain rfl := Option.some.inj hc
        exact h.reading d hen.2.1
    | _ => cases hc
  have hwrite : ∀ req, S.write = some req → req ∈ w.writes := fun req hreq => by
    cases e with
    | writeDone k status => exact List.mem_of_getElem? hreq
    | _ => cases hreq
  have hreach : ∀ c, S.Reaches c → A c := fun c hc => by
    rcases hc with hc | hc | ⟨req, hreq, hc⟩
    · exact hc
    · exact hreader c hc
    · exact h.written req (hwrite req hreq) c hc
  have hjoin : ∀ c, S.join = some c → A c := fun c hc => by
    have hprev : e.preview = some c := (scope_join w e).symm.trans hc
    obtain ⟨bytes, junk, rfl⟩ := Event.preview_eq_some hprev
    exact h.reading c hen.2.1
  have hd : Does S w w' :=
    handle_does A (fun s _ => h.loops (S := S) rfl hconn hreach hjoin hcb s) hen hr
  have honward := hd.onward hconn hcb
  exact ⟨h.does (S := S) hconn hreach hjoin hcb hd, honward.rank,
    fun c hc => .inl (honward.frames c hc)⟩

/-- The end of a preview response's write moves its client's status on, if the
event heeds it. -/
theorem Accepted.previewResDone (h : Accepted A w) {k c : Nat} {status : Int} {req : WriteReq}
    (hk : w.writes[k]? = some req) (hcb : req.cb = .previewResSlient) (hc : req.client = .client c)
    (he : w.Heeds (.writeDone k status)) (hstep : Step w (.writeDone k status) w') :
    Accepted A w' ∧ MovesOn w (.writeDone k status) w' := by
  obtain ⟨rfl, hst⟩ : status = 0 ∧ (w.clients c).status ≠ .onStop := by
    obtain ⟨id, target, p, cb⟩ := req
    subst hcb hc
    rw [Heeds, hk] at he
    exact he
  obtain ⟨-, fuel, hr⟩ := hstep
  obtain ⟨req', hk', hr⟩ := Option.bind_eq_some_iff.mp hr
  obtain rfl := Option.some.inj (hk.symm.trans hk')
  obtain ⟨w₁, hdone, hr⟩ := Option.bind_eq_some_iff.mp hr
  obtain rfl := Option.some.inj hr
  rw [sendCb, hcb, hc] at hdone
  obtain rfl := Option.some.inj hdone
  have h₁ : Accepted A (w.eraseWrite k) :=
    h.memOnly (.eraseWrite ..) fun _ hreq => .inl (List.mem_of_mem_eraseIdx hreq)
  have h₂ : Accepted A (((w.eraseWrite k).protoCmdDestroy req.packet).emit (.previewResDone c)) :=
    (h₁.memOnly (.protoCmdDestroy ..) fun _ hreq => .inl hreq).sameNet (.emit ..)
      (fun _ hreq => .inl hreq) fun d => by simp
  have h₃ := h₂.setClient c { w.clients c with status := .onSendFrames } rfl (h.reading c)
    (h.session c) (h.lt c (h.written req (List.mem_of_getElem? hk) c hc)) fun _ => by simpa using hst
  refine ⟨h₃.memOnly (.emit _ rfl) fun _ hreq => .inl hreq, fun d => ?_, fun d hd => ?_⟩
  · by_cases hdc : d = c
    · subst hdc
      simp only [emit_clients, setClient_clients, Function.update_self]
      cases hrank : (w.clients d).status <;> first | exact absurd hrank hst | decide
    · simp [Function.update_of_ne hdc]
  · by_cases hdc : d = c
    · subst hdc
      exact .inr ⟨k, req, rfl, hk, hcb, hc⟩
    · exact .inl (by simpa [Function.update_of_ne hdc] using hd)

theorem Accepted.step (h : Accepted A w) (he : w.Heeds e) (hstep : Step w e w') :
    ∃ A', Accepted A' w' ∧ MovesOn w e w' := by
  cases e with
  | connection =>
      obtain ⟨-, fuel, hr⟩ := hstep
      obtain rfl := Option.some.inj hr
      obtain ⟨A', hA'⟩ := h.clientOnConnection
      have hsame : ∀ c, (w.clientOnConnection.clients c).status = (w.clients c).status := fun c => by
        by_cases hc : c = w.nClients
        · subst hc
          rw [(h.fresh _ le_rfl).2, clientOnConnection_status]
        · rw [clientOnConnection_clients w hc]
      exact ⟨A', hA', fun c => by rw [hsame], fun c hst => .inl (hsame c ▸ hst)⟩
  | writeDone k status =>
      cases hk : w.writes[k]? with
      | none => exact absurd hstep.1 (by simpa [Enabled] using hk)
      | some req =>
          by_cases hcb : req.cb = .previewResSlient
          · cases hc : req.client with
            | client c => exact ⟨A, h.previewResDone hk hcb hc he hstep⟩
            | dvr s =>
                obtain ⟨-, fuel, hr⟩ := hstep
                obtain ⟨req', hk', hr⟩ := Option.bind_eq_some_iff.mp hr
                obtain rfl := Option.some.inj (hk.symm.trans hk')
                obtain ⟨w₁, hdone, -⟩ := Option.bind_eq_some_iff.mp hr
                rw [sendCb, hcb, hc] at hdone
                cases hdone
          · refine ⟨A, h.other rfl (fun req' hreq' => ?_) hstep⟩
            obtain rfl := Option.some.inj (hk.symm.trans hreq')
            exact hcb
  | _ => exact ⟨A, h.other rfl (by rintro req ⟨⟩) hstep⟩

/-- A client's status and the writes to it are in no session's memory, so they are
what they were when that is used again. -/
theorem Accepted.recycle (h : Accepted A w) (s₀ : Nat) : Accepted A (w.recycle s₀) where
  lt := h.lt
  rings := h.rings.redirect trivial trivial
  reading := h.reading
  session c s hc := by
    obtain ⟨t, ht, -⟩ := Option.map_eq_some_iff.mp hc
    exact h.session c t ht
  written := h.written
  stopped := h.stopped
  closes := h.closes
  fresh := h.fresh

theorem Accepted.allocStep (h : Accepted A w) (he : w.Heeds e) (hstep : AllocStep w e w') :
    ∃ A', Accepted A' w' ∧ MovesOn w e w' := by
  obtain hstep | ⟨s₀, -, -, -, hstep⟩ := hstep
  · exact h.step he hstep
  · have he : (w.recycle s₀).Heeds e := he
    obtain ⟨A', hA', hmoves⟩ := (h.recycle s₀).step he hstep
    exact ⟨A', hA', hmoves.rank, hmoves.frames⟩

end Runs

end Server

end Smts
