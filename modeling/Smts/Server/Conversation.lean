import Smts.Server.Wire

/-!
# Server — conversations

What one client hears over a whole run: acknowledgements at any time, at most
one response to its preview, and after that response a block of the frames of
its session. And what a session's DVR hears: the preview command, at most once,
and the packets that clients sent, as they were.
-/

namespace Smts

/-! ## What a client can hear -/

/-- What one packet says that a client is sent: an acknowledgement of a command,
the response to its preview, or a frame. -/
inductive Said where
  | ack
  | response (r : Int)
  | frame (bytes : List Byte)
deriving DecidableEq, Repr

/-- The bytes of the packet that says it. -/
def Said.packet : Said → List Byte
  | .ack => ackPacket
  | .response r => responsePacket r
  | .frame bytes => bytes

/-- The bytes of the frame, if what is said is a frame. -/
def Said.frame? : Said → Option (List Byte)
  | .frame bytes => some bytes
  | _ => none

/-- The frames of a conversation, in their order. -/
def framesOf (said : List Said) : List (List Byte) := said.filterMap Said.frame?

/-- A conversation, and whether the preview was answered in it. -/
inductive Converses : Bool → List Said → Prop where
  | nil : Converses false []
  | ack {b : Bool} {l : List Said} (h : Converses b l) : Converses b (l ++ [.ack])
  | response {l : List Said} (h : Converses false l) (r : Int) : Converses true (l ++ [.response r])
  | frame {l : List Said} (h : Converses true l) (bytes : List Byte) :
      Converses true (l ++ [.frame bytes])

section Converses

variable {b : Bool} {l m : List Said}

end Converses

/-! ## What is heard, by its kind -/

/-- The callbacks of a response to a preview. -/
def SendCb.isReply : SendCb → Bool
  | .previewResSlient | .errorPreviewRes => true
  | _ => false

/-- The bytes of what was queued, if it is a frame. -/
def frameIn (x : SendCb × List Byte) : Option (List Byte) :=
  if x.1 = .sendFrame then some x.2 else none

/-- The frames that were queued for `c`, in their order. -/
def framesTo (c : Nat) (log : List Obs) : List (List Byte) :=
  (hears (.client c) log).filterMap frameIn

/-- The response to its preview was queued for `c`. -/
def replied (c : Nat) (log : List Obs) : Bool :=
  (hears (.client c) log).any fun x => x.1.isReply

@[simp]
theorem framesTo_append (c : Nat) (l m : List Obs) :
    framesTo c (l ++ m) = framesTo c l ++ framesTo c m := by
  rw [framesTo, hears_append, List.filterMap_append]
  rfl

@[simp]
theorem replied_append (c : Nat) (l m : List Obs) :
    replied c (l ++ m) = (replied c l || replied c m) := by
  rw [replied, hears_append, List.any_append]
  rfl

@[simp]
theorem answersTo_append (c : Nat) (l m : List Obs) :
    answersTo c (l ++ m) = answersTo c l ++ answersTo c m := by
  rw [answersTo, answers_append, List.filter_append, List.map_append]
  rfl

section Logs

variable {c : Nat} {l m : List Obs} {o : Obs} {x : SendCb × List Byte}

/-- A response that was queued is a response. -/
theorem length_answersTo_of_taken (hx : o.taken (.client c) = some x) (hreply : x.1.isReply = true) :
    (answersTo c [o]).length = 1 := by
  obtain ⟨p, rfl⟩ := Obs.taken_eq_some hx
  obtain ⟨cb, bytes⟩ := x
  cases cb with
  | previewResSlient => simp [answersTo, answers, Obs.answer?]
  | errorPreviewRes => simp [answersTo, answers, Obs.answer?]
  | _ => cases hreply

theorem replied_le (c : Nat) (l : List Obs) : (if replied c l then 1 else 0) ≤ (answersTo c l).length := by
  split
  next h =>
    obtain ⟨x, hx, hreply⟩ := List.any_eq_true.mp h
    obtain ⟨o, ho, htaken⟩ := List.mem_filterMap.mp hx
    obtain ⟨a, b, rfl⟩ := List.append_of_mem ho
    have hone := length_answersTo_of_taken htaken hreply
    rw [← List.singleton_append, answersTo_append, answersTo_append]
    simp only [List.length_append]
    omega
  next => exact Nat.zero_le _

/-- What `c` hears is, packet by packet, a conversation, with the frames that
were queued for it. -/
def Hears (c : Nat) (log : List Obs) : Prop :=
  ∃ said, (hears (.client c) log).map Prod.snd = said.map Said.packet ∧
    Converses (replied c log) said ∧ framesOf said = framesTo c log

theorem Hears.nil (c : Nat) : Hears c [] := ⟨[], rfl, .nil, rfl⟩

/-- A client's conversation goes on: with an acknowledgement at any time, with a
response if there was none, and with frames after it. -/
theorem Hears.snoc (h : Hears c l) (ho : ∀ x, o.taken (.client c) = some x →
      x = (.commonRes, ackPacket) ∨
      (x.1.isReply = true ∧ (∃ r, x.2 = responsePacket r) ∧ replied c l = false) ∨
      (x.1 = .sendFrame ∧ replied c l = true)) : Hears c (l ++ [o]) := by
  obtain ⟨said, hbytes, hsaid, hframes⟩ := h
  cases htaken : o.taken (.client c) with
  | none =>
      have hnil : hears (.client c) [o] = [] := by simp [hears, htaken]
      refine ⟨said, ?_, ?_, ?_⟩
      · rw [hears_append, hnil, List.append_nil, hbytes]
      · rwa [replied_append, replied, replied, hnil, List.any_nil, Bool.or_false]
      · rw [framesTo_append, framesTo, framesTo, hnil, List.filterMap_nil, List.append_nil, hframes]
        rfl
  | some x =>
      have hone : hears (.client c) [o] = [x] := by simp [hears, htaken]
      have hbytes' : ∀ y : Said, y.packet = x.2 →
          (hears (.client c) (l ++ [o])).map Prod.snd = (said ++ [y]).map Said.packet := fun y hy => by
        rw [hears_append, hone, List.map_append, List.map_append, hbytes, List.map_singleton,
          List.map_singleton, hy]
      have hreplied : replied c (l ++ [o]) = (replied c l || x.1.isReply) := by
        rw [replied_append, replied, replied, hone, List.any_cons, List.any_nil, Bool.or_false]
      have hframes' : ∀ y : Said, y.frame? = frameIn x →
          framesOf (said ++ [y]) = framesTo c (l ++ [o]) := fun y hy => by
        rw [framesTo_append, framesOf, List.filterMap_append, ← framesOf, hframes]
        congr 1
        rw [framesTo, hone]
        simp only [List.filterMap_cons, List.filterMap_nil, hy]
      -- the packet is an acknowledgement, the response, or a frame behind it
      rcases ho x htaken with rfl | ⟨hreply, ⟨r, hr⟩, hnot⟩ | ⟨hcb, hyes⟩
      · refine ⟨said ++ [.ack], hbytes' _ rfl, ?_, hframes' _ rfl⟩
        rw [hreplied]
        exact (Bool.or_false _).symm ▸ .ack hsaid
      · refine ⟨said ++ [.response r], hbytes' (.response r) hr.symm, ?_, hframes' _ ?_⟩
        · rw [hreplied, hreply, Bool.or_true]
          exact .response (hnot ▸ hsaid) r
        · obtain ⟨cb, bytes⟩ := x
          cases cb <;> first | rfl | cases hreply
      · refine ⟨said ++ [.frame x.2], hbytes' _ rfl, ?_, hframes' _ ?_⟩
        · rw [hreplied, hyes, Bool.true_or]
          exact .frame (hyes ▸ hsaid) x.2
        · rw [frameIn, if_pos hcb]
          rfl

/-- The end of a prefix is in the first of two lists, or in the second. -/
theorem prefix_append_cases {α : Type} {l a b : List α} {x : α} (h : l ++ [x] <+: a ++ b) :
    l ++ [x] <+: a ∨ a <+: l ∧ x ∈ b := by
  have ha : a <+: a ++ b := List.prefix_append a b
  by_cases hlt : l.length < a.length
  · refine .inl (List.prefix_of_prefix_length_le h ha ?_)
    rw [List.length_append]
    exact hlt
  · obtain ⟨l', rfl⟩ := List.prefix_of_prefix_length_le ha ((List.prefix_append l [x]).trans h)
      (not_lt.mp hlt)
    rw [List.append_assoc, List.prefix_append_right_inj] at h
    exact .inr ⟨List.prefix_append a l', h.subset (by simp)⟩

/-- All that is seen while `l` has been, if a response is only given once. -/
theorem Hears.append (h : Hears c l) (hm : ∀ o ∈ m, ∀ x, o.taken (.client c) = some x →
      x = (.commonRes, ackPacket) ∨ (x.1.isReply = true ∧ ∃ r, x.2 = responsePacket r) ∨
      (x.1 = .sendFrame ∧ replied c l = true))
    (hone : (answersTo c (l ++ m)).length ≤ 1) : Hears c (l ++ m) := by
  induction m generalizing l with
  | nil => rwa [List.append_nil]
  | cons o m ih =>
      have hsplit : l ++ o :: m = (l ++ [o]) ++ m := by simp
      rw [hsplit] at hone ⊢
      refine ih (h.snoc fun x hx => ?_) (fun q hq x hx => ?_) hone
      · rcases hm o (List.mem_cons_self ..) x hx with hack | ⟨hreply, hr⟩ | hframe
        · exact .inl hack
        · refine .inr (.inl ⟨hreply, hr, ?_⟩)
          -- the one response is this one
          have hthis := length_answersTo_of_taken hx hreply
          have hbefore := replied_le c l
          simp only [answersTo_append, List.length_append] at hone
          by_cases hrep : replied c l = true
          · rw [if_pos hrep] at hbefore
            omega
          · exact Bool.eq_false_iff.mpr hrep
        · exact .inr (.inr hframe)
      · rcases hm q (List.mem_cons_of_mem o hq) x hx with hack | hreply | ⟨hcb, hyes⟩
        · exact .inl hack
        · exact .inr (.inl hreply)
        · exact .inr (.inr ⟨hcb, by rw [replied_append, hyes, Bool.true_or]⟩)

end Logs

namespace Server

/-! ## At most one response -/

/-- The client is in a session and has not been answered. -/
def Waits (w : Server) (c : Nat) : Prop :=
  (w.clients c).session ≠ none ∧ (w.clients c).status = .onInit

instance (w : Server) (c : Nat) : Decidable (w.Waits c) := inferInstanceAs (Decidable (_ ∧ _))

/-- The responses to a preview that were given to `c`, and the one it waits for. -/
def due (w : Server) (c : Nat) : Nat :=
  (answersTo c w.log).length + if w.Waits c then 1 else 0

section Due

variable {A : Nat → Prop} {a : List (Nat × BitVec 32)} {x : BitVec 32} {w w' v : Server}
  {fuel c d s k p : Nat} {status r : Int} {l : List Nat} {e : Event}

theorem due_congr (hclient : (w'.clients c).session = (w.clients c).session)
    (hstatus : (w'.clients c).status = (w.clients c).status) (hlog : answersTo c w'.log = answersTo c w.log) :
    w'.due c = w.due c := by
  have hwaits : w'.Waits c ↔ w.Waits c := by simp only [Waits, hclient, hstatus]
  simp only [due, hlog, hwaits]

theorem due_le (w : Server) (c : Nat) : w.due c ≤ (answersTo c w.log).length + 1 := by
  rw [due]
  split <;> omega

theorem due_of_session (hs : (w.clients c).session = none) : w.due c = (answersTo c w.log).length := by
  rw [due, if_neg fun h => h.1 hs, Nat.add_zero]

theorem answersTo_of_answers {m : List Obs} (h : answers m = a) :
    answersTo c m = (a.filter fun y => y.1 = c).map Prod.snd := by
  rw [answersTo, h]

/-- A client that waits for an answer after a callback has waited before it. -/
theorem Tells.waits_of (h : Tells a w w') (hc : w'.Waits c) : w.Waits c := by
  obtain ⟨s, hs⟩ := Option.ne_none_iff_exists'.mp hc.1
  exact ⟨by rw [h.session c s hs]; simp, h.waits c s hs hc.2⟩

theorem Tells.due (h : Tells [] w w') (c : Nat) : w'.due c ≤ w.due c := by
  obtain ⟨m, hlog, ha, -⟩ := h.log
  have hnone : answersTo c w'.log = answersTo c w.log := by
    rw [hlog, answersTo_append, answersTo_of_answers ha]
    simp
  rw [Server.due, Server.due, hnone]
  by_cases hc : w'.Waits c
  · rw [if_pos hc, if_pos (h.waits_of hc)]
  · rw [if_neg hc]
    omega

/-- Who is answered was waiting, and is not any more. -/
theorem Tells.due_told (h : Tells (w.told l x) w w') (hnodup : l.Nodup)
    (hmem : ∀ c ∈ l, (w.clients c).session ≠ none) (hdone : ∀ c ∈ l, (w'.clients c).status ≠ .onInit)
    (c : Nat) : w'.due c ≤ w.due c := by
  obtain ⟨m, hlog, ha, -⟩ := h.log
  have hlen : (answersTo c m).length = if c ∈ l ∧ (w.clients c).status = .onInit then 1 else 0 := by
    have hone : (l.filter fun d => (w.clients d).status = .onInit).Nodup := hnodup.filter _
    rw [answersTo_of_answers ha, told, List.length_map, List.filter_map, List.length_map,
      ← List.countP_eq_length_filter]
    calc _ = List.count c (l.filter fun d => (w.clients d).status = .onInit) :=
          List.countP_congr fun d _ => by simp
      _ = _ := by
          split
          next hc => exact List.count_eq_one_of_mem hone (List.mem_filter.mpr ⟨hc.1, by simpa using hc.2⟩)
          next hc =>
            refine List.count_eq_zero.mpr fun hc' => hc ?_
            obtain ⟨hl, hst⟩ := List.mem_filter.mp hc'
            exact ⟨hl, by simpa using hst⟩
  rw [Server.due, Server.due, hlog, answersTo_append, List.length_append, hlen]
  by_cases hc : c ∈ l ∧ (w.clients c).status = .onInit
  · have hbefore : w.Waits c := ⟨hmem c hc.1, hc.2⟩
    have hafter : ¬ w'.Waits c := fun hw => hdone c hc.1 hw.2
    rw [if_pos hc, if_pos hbefore, if_neg hafter]
  · rw [if_neg hc, Nat.add_zero]
    by_cases hw : w'.Waits c
    · rw [if_pos hw, if_pos (h.waits_of hw)]
    · rw [if_neg hw]
      omega

/-- Everybody who is still there when a session is torn down is answered. -/
theorem stopMediaSession_due (hA : RingInv A w) (hs : s < w.nSessions) (hAs : ¬ A s)
    (hr : (w.setExitCode s r).stopMediaSession fuel s = some w') (c : Nat) : w'.due c ≤ w.due c := by
  obtain ⟨l, hring, -, hmem⟩ := hA.ring s hs hAs
  obtain ⟨h, hdone⟩ := tearDown_tells (.refl w) rfl hring hr
  exact h.due_told (List.Nodup.of_map _ hring.nodes_nodup)
    (fun d hd => by rw [(hmem d).mp hd]; exact Option.some_ne_none s) hdone c

theorem onConnectedToDvr_due (hA : RingInv A w) (hs : s < w.nSessions) (hAs : ¬ A s)
    (hr : w.onConnectedToDvr fuel s status = some w') (c : Nat) : w'.due c ≤ w.due c := by
  rw [onConnectedToDvr] at hr
  split at hr
  · exact stopMediaSession_due hA hs hAs hr c
  · obtain ⟨⟨v, r⟩, hprev, hr⟩ := Option.bind_eq_some_iff.mp hr
    obtain ⟨l, hring, -, hmem⟩ := hA.ring s hs hAs
    obtain ⟨-, hsent, hfailed⟩ := smtsDvrClientPreview_tells hring hprev
    dsimp only at hr
    split at hr
    next hne =>
      obtain ⟨h, hdone⟩ := hfailed hne
      have h₁ := h.due_told (List.Nodup.of_map _ hring.nodes_nodup)
        (fun d hd => by rw [(hmem d).mp hd]; exact Option.some_ne_none s) hdone c
      have hd := (Does.start (S := { dvr := some s })).smtsDvrClientPreview rfl
        (Scope.loops_of_forall (fun _ => trivial) w s) hprev
      have hAv : RingInv A v := hA.does rfl (by rintro t ⟨⟩; exact ⟨hs, hAs⟩) hd
      exact (stopMediaSession_due hAv (hs.trans_le hd.grows.nSessions) hAs hr c).trans h₁
    next hok =>
      obtain rfl := Option.some.inj hr
      exact (hsent (not_not.mp hok)).due c

theorem onSmtsDvrClientSendPreview_due (hA : RingInv A w) (hs : s < w.nSessions) (hAs : ¬ A s)
    (hr : w.onSmtsDvrClientSendPreview fuel s status = some w') (c : Nat) : w'.due c ≤ w.due c := by
  rw [onSmtsDvrClientSendPreview] at hr
  split at hr
  · exact stopMediaSession_due hA hs hAs hr c
  · obtain ⟨v, hres, hr⟩ := Option.bind_eq_some_iff.mp hr
    obtain ⟨l, hring, hsize, hmem⟩ := hA.ring s hs hAs
    obtain ⟨h, hdone⟩ := sendPreviewResponses_tells hring hsize hres
    have h₁ := h.due_told (List.Nodup.of_map _ hring.nodes_nodup)
      (fun d hd => by rw [(hmem d).mp hd]; exact Option.some_ne_none s) hdone c
    let u := (v.setSession s { v.sessions s with status := .running }).smtsDvrClientStartReadFrames s
    have hu : u.1.due c = v.due c := rfl
    have hd : Does { dvr := some s } w u.1 := by
      have hd₁ := (Does.start (S := { dvr := some s })).sendPreviewResponses
        (Scope.loops_of_forall (fun _ => trivial) w s) hres
      exact (hd₁.step (.touch (s := s) (x := { v.sessions s with status := .running })
        ⟨.inl rfl, rfl, rfl, id, .inr ⟨rfl, rfl, rfl⟩, .inl rfl, .inr (.inr rfl)⟩)).smtsDvrClientStartReadFrames rfl
    have hr : (if u.2 ≠ 0 then (u.1.setExitCode s u.2).stopMediaSession fuel s else some u.1)
        = some w' := hr
    split at hr
    · have hAu : RingInv A u.1 := hA.does rfl (by rintro t ⟨⟩; exact ⟨hs, hAs⟩) hd
      exact (stopMediaSession_due hAu (hs.trans_le hd.grows.nSessions) hAs hr c).trans (hu ▸ h₁)
    · obtain rfl := Option.some.inj hr
      exact hu ▸ h₁

theorem tcpClientSendMsgCb_due (hA : RingInv A w) (hen : w.Enabled (.writeDone k status))
    (hr : w.tcpClientSendMsgCb fuel k status = some w') (c : Nat) : w'.due c ≤ w.due c := by
  obtain ⟨req, hk, hr⟩ := Option.bind_eq_some_iff.mp hr
  obtain ⟨v, hcb, hr⟩ := Option.bind_eq_some_iff.mp hr
  obtain rfl := Option.some.inj hr
  have hemit : Tells [] v (v.emit (.free (.writeReq req.id))) := .emit v (.of_ofStream rfl rfl)
  refine (hemit.due c).trans ?_
  by_cases hdvr : req.cb = .dvrPreview
  · obtain ⟨s, hclient⟩ : ∃ s, req.client = .dvr s := by
      cases hc : req.client with
      | dvr s => exact ⟨s, rfl⟩
      | client c =>
          rw [sendCb, hc, hdvr] at hcb
          cases hcb
    obtain ⟨hs, hAs⟩ := hA.scope_dvr hen (s := s) (by simp [scope, hk, hclient, Target.dvr?])
    rw [sendCb, hclient, hdvr] at hcb
    have hA₁ : RingInv A ((w.eraseWrite k).protoCmdDestroy req.packet) :=
      hA.sameNet ⟨rfl, rfl, rfl, rfl, rfl, rfl⟩ fun req' hreq' _ _ => .inl (List.mem_of_mem_eraseIdx hreq')
    exact (onSmtsDvrClientSendPreview_due hA₁ hs hAs hcb c).trans ((writtenDone_tells w k _).due c)
  · exact ((Tells.eraseWrite w k).mute (sendCb_tells hdvr hcb)).due c

/-- What the client of a preview request is told at once counts as its answer. -/
theorem mediaClientStartPreview_due {key : SessionKey} (hnone : (w.clients c).session = none)
    (hr : w.mediaClientStartPreview fuel c key = some (w', r)) :
    (∀ d, d ≠ c → w'.due d ≤ w.due d) ∧ w'.due c ≤ w.due c + 1 ∧
      (r ≠ 0 → (w'.clients c).session = none ∧ w'.due c = w.due c) := by
  obtain ⟨found, hget, -⟩ := Option.bind_eq_some_iff.mp hr
  have hbefore := due_of_session hnone
  cases found with
  | some s =>
      -- who joins is told at once
      obtain ⟨rfl, hres⟩ := mediaClientStartPreview_found hget hr
      have h := smtsClientSendPreviewRes_answers hres
      have hadd : ∀ d, answersTo d (w.addSmtsClient s c).log = answersTo d w.log := fun d => by
        rw [addSmtsClient_log, answersTo_append]
        exact List.append_nil _
      have hd := h.toTells.due_told (List.nodup_singleton c)
        (fun d hd => by rw [List.mem_singleton.mp hd]; simp)
        (fun d hd => by rw [List.mem_singleton.mp hd]; exact h.done)
      refine ⟨fun d hdc => (hd d).trans (due_congr ?_ ?_ (hadd d)).le, (hd c).trans ?_, fun hne =>
        absurd rfl hne⟩
      · simp [Function.update_of_ne hdc]
      · simp [Function.update_of_ne hdc]
      · rw [hbefore, ← hadd c]
        exact due_le ..
  | none =>
      -- nobody is told anything while a session is set up
      obtain ⟨⟨k, hlog⟩, -, -, -, hothers, hnew⟩ := (mediaClientStartPreview_new hget hr).spec
      have hlog : ∀ d, answersTo d w'.log = answersTo d w.log := fun d => by
        have hquiet : ∀ (n : Nat) (m : List Obs), answersTo d m = [] →
            answersTo d (List.replicate n (.uvInit (.dvr w.nSessions)) ++ m) = [] := fun n m hm => by
          rw [answersTo_append, hm, List.append_nil, answersTo_of_answers (a := []), List.filter_nil,
            List.map_nil]
          exact List.filterMap_eq_nil_iff.mpr fun o ho => by
            rw [List.eq_of_mem_replicate ho]
            rfl
        rw [hlog, List.append_assoc, answersTo_append, hquiet, List.append_nil, addSmtsClient_log,
          initMediaSession_log, answersTo_append, answersTo_append]
        · exact (List.append_nil _).trans (List.append_nil _)
        · split <;> rfl
      refine ⟨fun d hdc => (due_congr ?_ ?_ (hlog d)).le, ?_, fun hne => ?_⟩
      · rw [hothers d hdc]
        simp [Function.update_of_ne hdc]
      · rw [hothers d hdc]
        simp [Function.update_of_ne hdc]
      · rw [hbefore, ← hlog c]
        exact due_le ..
      · obtain ⟨-, hc, -⟩ | ⟨hz, -⟩ := hnew
        · have hsession : (w'.clients c).session = none := by rw [hc]
          exact ⟨hsession, by rw [due_of_session hsession, hlog, hbefore]⟩
        · exact absurd hz hne

theorem dispatchPreview_due {bytes : List Byte} {junk : Int → Byte}
    (hnone : (w.clients c).session = none) (hprev : (Event.packet c bytes junk).preview = some c)
    (hr : w.dispatchPacket fuel c bytes junk = some w') :
    (∀ d, d ≠ c → w'.due d ≤ w.due d) ∧ w'.due c ≤ w.due c + 1 := by
  obtain ⟨t, w₁, -, hstart, rfl⟩ := dispatchPacket_decoded hprev hr
  let w₀ := (w.setHeap (w.heap.receive bytes).1).addCmd t
  obtain ⟨w₂, r, hmedia, hcase⟩ := smtsStartPreview_cases hstart
  have hnone₀ : (w₀.clients c).session = none := hnone
  have hsame : ∀ d, w₀.due d = w.due d := fun _ => rfl
  obtain ⟨hothers, hc, hfails⟩ := mediaClientStartPreview_due hnone₀ hmedia
  have hdestroy := Tells.protoCmdDestroy w₁ w.nCmds
  -- what the packet is destroyed with tells nobody anything
  suffices h : (∀ d, d ≠ c → w₁.due d ≤ w₂.due d) ∧ w₁.due c ≤ w.due c + 1 by
    exact ⟨fun d hd => ((hdestroy.due d).trans (h.1 d hd)).trans (hothers d hd),
      (hdestroy.due c).trans h.2⟩
  obtain ⟨-, rfl⟩ | ⟨hne, w₃, w₄, r', henc, hsend, hw₁⟩ := hcase
  · exact ⟨fun _ _ => le_rfl, hc⟩
  · obtain ⟨hsession, hsum⟩ := hfails hne
    have h₄ := errorPreviewRes_answers henc hsend
    have h₁ : Tells [(c, BitVec.ofInt 32 r)] w₂ w₁ := by
      rcases hw₁ with rfl | rfl
      · exact h₄
      · exact h₄.mute (.protoCmdDestroy ..)
    obtain ⟨m, hlog, ha, -⟩ := h₁.log
    -- the client whose start failed is outside, and due nothing but this response
    have hsession₁ : (w₁.clients c).session = none := by
      by_contra hs
      obtain ⟨s, hs⟩ := Option.ne_none_iff_exists'.mp hs
      have hs₂ := h₁.session c s hs
      rw [hsession] at hs₂
      cases hs₂
    refine ⟨fun d hd => ?_, ?_⟩
    · have hlog' : answersTo d w₁.log = answersTo d w₂.log := by
        rw [hlog, answersTo_append, answersTo_of_answers ha]
        simp [Ne.symm hd]
      rw [due, due, hlog']
      by_cases hw : w₁.Waits d
      · rw [if_pos hw, if_pos (h₁.waits_of hw)]
      · rw [if_neg hw]
        omega
    · rw [due_of_session hsession₁, hlog, answersTo_append, answersTo_of_answers ha, List.length_append,
        ← due_of_session hsession, hsum, hsame]
      simp

/-- **One callback**: nobody is given a response that does not wait for one, but
the client whose request is handled. -/
theorem step_due (hA : RingInv A w) (hjoin : w.JoinsOnce e) (hstep : Step w e w') (c : Nat) :
    w'.due c ≤ w.due c + if e.preview = some c then 1 else 0 := by
  obtain ⟨hen, fuel, hr⟩ := hstep
  have hmute : Tells [] w w' → w'.due c ≤ w.due c + if e.preview = some c then 1 else 0 := fun h =>
    (h.due c).trans (Nat.le_add_right ..)
  cases e with
  | connection =>
      obtain rfl := Option.some.inj hr
      exact hmute (clientOnConnection_tells w)
  | packet d bytes junk =>
      cases hprev : (Event.packet d bytes junk).preview with
      | none => exact (dispatchPacket_tells hprev hr).due c
      | some d' =>
          obtain ⟨bytes', junk', heq⟩ := Event.preview_eq_some hprev
          obtain rfl : d = d' := (Event.packet.inj heq).1
          obtain ⟨hothers, hd⟩ := dispatchPreview_due (hjoin d hprev) hprev hr
          -- only who asked is due one response more
          by_cases hc : c = d
          · rw [hc, if_pos rfl]
            exact hd
          · rw [if_neg fun h => hc (Option.some.inj h).symm]
            exact hothers c hc
  | readError d status =>
      obtain rfl := Option.some.inj hr
      exact hmute (.stopSmtsClient w d)
  | dvrConnected s status =>
      obtain ⟨hs, hAs⟩ := hA.scope_dvr hen (s := s) rfl
      obtain ⟨v, hconn, hr⟩ := Option.bind_eq_some_iff.mp hr
      obtain rfl := Option.some.inj hr
      have hA₁ : RingInv A (w.connectDone s) := hA.setSession s _ rfl id fun h => absurd h hAs
      have hconn : (w.connectDone s).onConnectedToDvr fuel s status = some v := hconn
      have hemit : Tells [] v (v.emit (.free (.connectReq s))) := .emit v (.of_ofStream rfl rfl)
      exact (hemit.due c).trans (onConnectedToDvr_due hA₁ hs hAs hconn c)
  | dvrPacket s bytes junk => exact hmute (onDvrClientReadFrameCb_tells hr)
  | dvrReadError s status =>
      obtain ⟨hs, hAs⟩ := hA.scope_dvr hen (s := s) rfl
      have hr : (w.readDone s).onSmtsDvrClientRecvFrame fuel s none dvrRecvFrameError = some w' := hr
      rw [onSmtsDvrClientRecvFrame, if_pos (by decide)] at hr
      have hA₁ : RingInv A (w.readDone s) := hA.setSession s _ rfl id fun h => absurd h hAs
      exact stopMediaSession_due hA₁ hs hAs hr c
  | writeDone k status => exact tcpClientSendMsgCb_due hA hen hr c
  | timer s => exact hmute (sessionExitCb_tells hr)
  | clientClosed d =>
      obtain rfl := Option.some.inj hr
      exact hmute (clientCloseCb_tells w d)
  | dvrClosed s =>
      obtain rfl := Option.some.inj hr
      exact hmute (onDvrClientCloseCb_tells w s)

end Due

/-! ## Nothing before the response -/

/-- `c` gets frames, or will when a write of its response completes. -/
def Ready (w : Server) (c : Nat) : Prop := (w.clients c).status = .onSendFrames ∨ w.Slient c

/-- The response to `c` was queued, to be followed by frames. -/
def Granted (c : Nat) (log : List Obs) : Prop :=
  ∃ p b, .uvWrite (.client c) p .previewResSlient b 0 ∈ log

section Granted

variable {S : Scope} {w₀ w w' : Server} {c : Nat}

theorem Granted.append {l : List Obs} (h : Granted c l) (m : List Obs) : Granted c (l ++ m) := by
  obtain ⟨p, b, hmem⟩ := h
  exact ⟨p, b, List.mem_append_left m hmem⟩

/-- Nobody gets ready for frames but by the callback of a preview response. -/
theorem Action.ready (ha : Action S w₀ w w') (hc : w'.Ready c) : w.Ready c ∨ Granted c w'.log := by
  have hother : ∀ {v : Server} (d : Nat) (x : SmtsClient), v.Ready c →
      v.clients = Function.update w.clients d x → (∀ req ∈ v.writes, req ∈ w.writes) →
      x.status ≠ .onSendFrames ∨ x.status = (w.clients d).status →
      w.Ready c := fun {v} d x hv hclients hwrites hx => by
    rcases hv with hst | hsl
    · rw [hclients] at hst
      by_cases hcd : c = d
      · subst hcd
        rw [Function.update_self] at hst
        exact .inl (hx.elim (absurd hst) fun h => h ▸ hst)
      · rw [Function.update_of_ne hcd] at hst
        exact .inl hst
    · exact .inr (.of_writes hwrites hsl)
  cases ha with
  | uvCall hr =>
      obtain ⟨rfl, -⟩ := Prod.mk.inj hr
      exact .inl hc
  | encodeNew _ _ _ hr =>
      obtain ⟨⟨h', t'⟩, -, hr⟩ := Option.bind_eq_some_iff.mp hr
      obtain rfl := Option.some.inj hr
      exact .inl hc
  | dropRef _ hr =>
      obtain ⟨-, rfl⟩ | ⟨-, f, -, rfl⟩ := onSmtsClientSendFrame_cases hr
      · exact .inl hc
      · exact .inl hc
  | send _ hcb _ _ hr =>
      have hclients := (MemOnly.tcpClientSendMsg hr).clients
      rcases hc with hst | hsl
      · exact .inl (.inl (hclients ▸ hst))
      · exact .inl (.inr (.of_send (.inl hcb) hr hsl))
  | @sendPreviewRes d p w' r _ _ _ hr =>
      have hlog := tcpClientSendMsg_log hr
      obtain ⟨rfl, rfl⟩ | ⟨-, rfl⟩ := tcpClientSendMsg_cases hr
      · by_cases hcd : c = d
        · subst hcd
          exact .inr ⟨p, _, by rw [hlog]; exact List.mem_append_right _ (List.mem_singleton_self _)⟩
        · rcases hc with hst | ⟨req, hreq, hcb, hclient⟩
          · have hst : (Function.update w.clients d { w.clients d with status := .onSendPreviewRes } c).status
                = .onSendFrames := hst
            rw [Function.update_of_ne hcd] at hst
            exact .inl (.inl hst)
          · rcases List.mem_append.mp hreq with hreq | hreq
            · exact .inl (.inr ⟨req, hreq, hcb, hclient⟩)
            · obtain rfl := List.mem_singleton.mp hreq
              exact absurd (Target.client.inj hclient).symm hcd
      · exact .inl (hother d { w.clients d with status := .onSendPreviewRes } hc rfl
          (fun _ hreq => hreq) (.inl (by simp)))
  | complete _ _ _ =>
      rcases hc with hst | hsl
      · exact .inl (.inl hst)
      · exact .inl (.inr (.of_writes (fun _ hreq => List.mem_of_mem_eraseIdx hreq) hsl))
  | @previewResDone k req d hk _ hcb hclient =>
      by_cases hcd : c = d
      · subst hcd
        exact .inl (.inr ⟨req, List.mem_of_getElem? hk, hcb, hclient⟩)
      · rcases hc with hst | hsl
        · have hst : (Function.update w.clients d { w.clients d with status := .onSendFrames } c).status
              = .onSendFrames := hst
          rw [Function.update_of_ne hcd] at hst
          exact .inl (.inl hst)
        · exact .inl (.inr (.of_writes (fun _ hreq => List.mem_of_mem_eraseIdx hreq) hsl))
  | @stop d _ =>
      have hwrites : ∀ req ∈ (w.stopSmtsClient d).writes, req ∈ w.writes := fun _ hreq =>
        stopSmtsClient_writes w d ▸ hreq
      have hrelays : Relays 0 [] w (w.stopSmtsClient d) := .stopSmtsClient w d
      exact .inl (hc.imp (hrelays.ready c) (.of_writes hwrites))
  | delete hr =>
      obtain ⟨m, rfl⟩ := deleteSession_eq hr
      exact .inl hc
  | initClient _ =>
      exact .inl (hother w.nClients _ hc (funext (initSmtsClient_clients w)) (fun _ hreq => hreq)
        (.inl (by simp)))
  | startRead _ d =>
      exact .inl (hother d { w.clients d with reading := true } hc rfl (fun _ hreq => hreq)
        (.inr rfl))
  | @close _ d _ =>
      exact .inl (hother d { w.clients d with reading := false, closing := true } hc rfl (fun _ hreq => hreq)
        (.inr rfl))
  | @closed d _ =>
      exact .inl (hother d { w.clients d with freed := true } hc rfl (fun _ hreq => hreq)
        (.inr rfl))
  | @attach d _ s =>
      exact .inl (hother d { w.clients d with session := some s } hc rfl (fun _ hreq => hreq)
        (.inr rfl))
  | @abort d _ s =>
      exact .inl (hother d { w.clients d with session := none } hc rfl (fun _ hreq => hreq)
        (.inr rfl))
  | _ => exact .inl hc

theorem Does.granted (hd : Does S w₀ w) (h : w₀.Ready c → Granted c w₀.log) (hc : w.Ready c) :
    Granted c w.log := by
  induction hd with
  | start => exact h hc
  | step _ ha ih =>
      obtain ⟨m, hlog, -⟩ := ha.logs
      rcases ha.ready hc with hc | hg
      · exact hlog ▸ (ih hc).append m
      · exact hg

theorem granted_of_run {uv : Nat → Int} {garbage : Nat → Values NvmpName} {es : List Event}
    (h : Transition.Run Step (init uv garbage) es w) (hc : w.Ready c) : Granted c w.log := by
  refine h.invariant (I := fun w => w.Ready c → Granted c w.log) (fun v e v' hv hstep => ?_) ?_ hc
  · obtain ⟨hen, fuel, hr⟩ := hstep
    exact (handle_does_any hen hr).granted hv
  · rintro (hst | ⟨req, hreq, -⟩)
    · cases hst
    · cases hreq

end Granted

/-! ## What a client hears -/

/-- The packets that the DVR of `s` has delivered. -/
def dvrPackets (s : Nat) (es : List Event) : List (List Byte) :=
  es.filterMap fun e => match e with
    | .dvrPacket t bytes _ => if t = s then some bytes else none
    | _ => none

/-- Each DVR's packets have at least the fields of a frame. -/
def LongFrames (es : List Event) : Prop := ∀ s bytes junk, .dvrPacket s bytes junk ∈ es → 24 ≤ bytes.length

/-- What the frames were when they came, and that they are what was sent. -/
structure Framed (B : Nat → List Byte) (es : List Event) (w : Server) : Prop where
  came : ∀ s, (received s w.log).map B = dvrPackets s es
  passed : ∀ c, framesTo c w.log = (sent c w.log).map fun f => relayed (B f)
  below : ∀ c, ∀ f ∈ sent c w.log, f < w.nFrames

section Runs

variable {uv : Nat → Int} {garbage : Nat → Values NvmpName} {es : List Event} {w w' : Server}
  {e : Event} {c s : Nat}

theorem dvrPackets_snoc (s : Nat) (es : List Event) (e : Event) :
    dvrPackets s (es ++ [e]) = dvrPackets s es ++ dvrPackets s [e] :=
  List.filterMap_append

theorem LongFrames.of_snoc (h : LongFrames (es ++ [e])) : LongFrames es :=
  fun s bytes junk he => h s bytes junk (List.mem_append_left _ he)

theorem PreviewsOnce.of_snoc (h : PreviewsOnce (es ++ [e])) :
    PreviewsOnce es ∧ ∀ c, e.preview = some c → ∀ a ∈ es, a.preview ≠ some c := by
  obtain ⟨hbefore, -, hlast⟩ := List.pairwise_append.mp h
  exact ⟨hbefore, fun c hc a ha hac => hlast a ha e (List.mem_singleton_self e) c hac hc⟩

/-- Each connection is given one response at most, and none if it asks for
none. -/
theorem due_of_run (hone : PreviewsOnce es) (h : Transition.Run Step (init uv garbage) es w) (c : Nat) :
    w.due c ≤ 1 ∧ ((∀ e ∈ es, e.preview ≠ some c) → w.due c = 0) := by
  induction h with
  | refl =>
      have hzero : (init uv garbage).due c = 0 := due_of_session rfl
      exact ⟨hzero.le.trans (Nat.zero_le 1), fun _ => hzero⟩
  | @snoc es e w w' hrun hstep ih =>
      obtain ⟨hbefore, hnew⟩ := hone.of_snoc
      obtain ⟨A, hA⟩ := (flows_of_run hbefore hrun).ring
      have hjoin : w.JoinsOnce e := fun c hc => session_none_of_run hrun (hnew c hc) rfl
      have hdue := step_due hA hjoin hstep c
      obtain ⟨hle, hzero⟩ := ih hbefore
      by_cases hc : e.preview = some c
      · rw [if_pos hc, hzero (hnew c hc)] at hdue
        exact ⟨hdue, fun hno => absurd hc (hno e (by simp))⟩
      · rw [if_neg hc, Nat.add_zero] at hdue
        refine ⟨hdue.trans hle, fun hno => Nat.le_zero.mp (hdue.trans ?_)⟩
        exact (hzero fun a ha => hno a (List.mem_append_left _ ha)).le

/-- Of what one callback writes to `c`, each packet fits in the conversation. -/
theorem step_hears (hlong : ∀ s bytes junk, e = .dvrPacket s bytes junk → 24 ≤ bytes.length)
    (hready : ∀ c, (w.clients c).status = .onSendFrames → replied c w.log = true)
    (hstep : Step w e w') :
    ∃ m, w'.log = w.log ++ m ∧ ∀ c, ∀ o ∈ m, ∀ x, o.taken (.client c) = some x →
      x = (.commonRes, ackPacket) ∨ (x.1.isReply = true ∧ ∃ r, x.2 = responsePacket r) ∨
      (x.1 = .sendFrame ∧ replied c w.log = true) := by
  -- frames come from a DVR's packet, and responses from all else
  by_cases hrelay : (w.scope e).relay = true
  · cases e with
    | dvrPacket s bytes junk =>
        obtain ⟨⟨-, -, -, -, hmax, hlw⟩, fuel, hr⟩ := hstep
        obtain ⟨v, hclients, hv, hrelays⟩ :=
          onDvrClientReadFrameCb_relays (hlong s bytes junk rfl) hmax hlw hr
        obtain ⟨m, hm, hmo, -⟩ := hrelays.log
        refine ⟨.recvFrame s w.nFrames :: m, by rw [hm, hv, List.append_assoc]; rfl,
          fun c o ho x hx => ?_⟩
        obtain ⟨p, rfl⟩ := Obs.taken_eq_some hx
        obtain ho | ho := List.mem_cons.mp ho
        · cases ho
        · obtain ⟨d, ht, hcb, -, hst⟩ := hmo _ _ _ _ _ ho
          obtain rfl := Target.client.inj ht
          exact .inr (.inr ⟨hcb, hready c (hclients ▸ hst)⟩)
    | _ => cases hrelay
  · obtain ⟨m, hm, hmo⟩ := step_writes (Bool.eq_false_iff.mpr hrelay) hstep
    refine ⟨m, hm, fun c o ho x hx => ?_⟩
    obtain ⟨p, rfl⟩ := Obs.taken_eq_some hx
    obtain ⟨bytes, hb, hsays⟩ := (hmo _ ho).1 _ _ _ _ _ rfl
    obtain ⟨cb, b⟩ := x
    obtain rfl : b = bytes := Option.some.inj hb
    have hslient : (∃ d r, Target.client c = .client d ∧ cb = .previewResSlient ∧ b = responsePacket r) →
        cb.isReply = true ∧ ∃ r, b = responsePacket r := by
      rintro ⟨d, r, -, rfl, hr⟩
      exact ⟨rfl, r, hr⟩
    cases e with
    | packet d bytes junk =>
        rcases hsays with ⟨-, -, rfl | rfl, hr⟩ | ⟨-, -, rfl, rfl⟩ | ⟨s, ht, -⟩
        · exact .inr (.inl ⟨rfl, hr⟩)
        · exact .inr (.inl ⟨rfl, hr⟩)
        · exact .inl rfl
        · cases ht
    | dvrConnected s status =>
        rcases hsays with h | ⟨ht, -⟩
        · exact .inr (.inl (hslient h))
        · cases ht
    | dvrPacket s bytes junk => exact absurd rfl hrelay
    | _ => exact .inr (.inl (hslient hsays))

/-- Every write of a run has bytes that were written before. -/
theorem written_of_run (hlong : LongFrames es) (h : Transition.Run Step (init uv garbage) es w)
    {t : Target} {p : Nat} {cb : SendCb} {b : Option (List Byte)} {r : Int}
    (ho : .uvWrite t p cb b r ∈ w.log) : ∃ bytes, b = some bytes := by
  induction h with
  | refl => cases ho
  | @snoc es e w w' hrun hstep ih =>
      obtain ⟨m, hm, hmo⟩ := step_says (fun s bytes junk he => hlong s bytes junk (by simp [he])) hstep
      rw [hm] at ho
      rcases List.mem_append.mp ho with ho | ho
      · exact ih hlong.of_snoc ho
      · obtain ⟨bytes, hb, -⟩ := hmo _ _ _ _ _ ho
        exact ⟨bytes, hb⟩

theorem replied_of_run (hlong : LongFrames es) (h : Transition.Run Step (init uv garbage) es w)
    (hc : w.Ready c) : replied c w.log = true := by
  obtain ⟨p, b, hmem⟩ := granted_of_run h hc
  obtain ⟨bytes, rfl⟩ := written_of_run hlong h hmem
  refine List.any_eq_true.mpr ⟨(.previewResSlient, bytes), ?_, rfl⟩
  exact List.mem_filterMap.mpr ⟨_, hmem, by simp [Obs.taken]⟩

/-- Who is sent a packet has been sent all that is due before it. -/
theorem heard_of_run (hlong : LongFrames es) (h : Transition.Run Step (init uv garbage) es w)
    {l : List (SendCb × List Byte)} {x : SendCb × List Byte} (hx : l ++ [x] <+: hears (.client c) w.log) :
    x = (.commonRes, ackPacket) ∨ (x.1.isReply = true ∧ ∃ r, x.2 = responsePacket r) ∨
      (x.1 = .sendFrame ∧ l.any (fun y => y.1.isReply) = true) := by
  induction h with
  | refl => exact absurd (List.prefix_nil.mp hx) (by simp)
  | @snoc es e w w' hrun hstep ih =>
      obtain ⟨m, hm, hmo⟩ := step_hears (fun s bytes junk he => hlong s bytes junk (by simp [he]))
        (fun d hd => replied_of_run hlong.of_snoc hrun (.inl hd)) hstep
      rw [hm, hears_append] at hx
      rcases prefix_append_cases hx with hbefore | ⟨⟨l', rfl⟩, hnow⟩
      · exact ih hlong.of_snoc hbefore
      · obtain ⟨o, ho, htaken⟩ := List.mem_filterMap.mp hnow
        rcases hmo c o ho x htaken with hack | hreply | ⟨hcb, hyes⟩
        · exact .inl hack
        · exact .inr (.inl hreply)
        · refine .inr (.inr ⟨hcb, ?_⟩)
          rw [List.any_append, show (hears (.client c) w.log).any (fun y => y.1.isReply) = true from hyes]
          rfl

theorem ackPacket_ne_responsePacket (r : Int) : ackPacket ≠ responsePacket r := by
  intro heq
  have hlen := congrArg List.length heq
  simp [ackPacket, responsePacket, wordsPacket] at hlen

theorem ackPacket_ne_relayed (bytes : List Byte) : ackPacket ≠ relayed bytes := by
  intro heq
  have hword : wordOf (relayed bytes) 4 = sendFrameCmdNo :=
    wordOf_wordsPacket _ _ (i := 1) (by simp)
  rw [← heq] at hword
  exact absurd hword (by decide)

/-- Nothing is acknowledged that was not sent, and no preview is. -/
theorem ack_of_run (hlong : LongFrames es) (h : Transition.Run Step (init uv garbage) es w) {c : Nat}
    (hack : ackPacket ∈ (hears (.client c) w.log).map Prod.snd) :
    ∃ bytes junk, .packet c bytes junk ∈ es ∧ (Event.packet c bytes junk).preview = none := by
  induction h with
  | refl => cases hack
  | @snoc es e w w' hrun hstep ih =>
      obtain ⟨m, hm, hmo⟩ := step_says (fun s bytes junk he => hlong s bytes junk (by simp [he])) hstep
      rw [hm, hears_append, List.map_append] at hack
      rcases List.mem_append.mp hack with hack | hack
      · obtain ⟨bytes, junk, hmem, hnone⟩ := ih hlong.of_snoc hack
        exact ⟨bytes, junk, List.mem_append_left _ hmem, hnone⟩
      · obtain ⟨x, hx, hbytes⟩ := List.mem_map.mp hack
        obtain ⟨o, ho, htaken⟩ := List.mem_filterMap.mp hx
        obtain ⟨p, rfl⟩ := Obs.taken_eq_some htaken
        obtain ⟨b, hb, hsays⟩ := hmo _ _ _ _ _ ho
        obtain rfl : x.2 = b := Option.some.inj hb
        rw [hbytes] at hsays
        have hno : ∀ r, ackPacket = responsePacket r → False := ackPacket_ne_responsePacket
        cases e with
        | packet d bytes junk =>
            rcases hsays with ⟨-, -, -, r, heq⟩ | ⟨ht, hnone, -, -⟩ | ⟨s, ht, -⟩
            · exact (hno r heq).elim
            · obtain rfl := Target.client.inj ht
              exact ⟨bytes, junk, List.mem_append_right _ (List.mem_singleton_self _), hnone⟩
            · cases ht
        | dvrPacket s bytes junk =>
            obtain ⟨d, -, -, heq⟩ := hsays
            exact absurd heq (ackPacket_ne_relayed bytes)
        | dvrConnected s status =>
            rcases hsays with ⟨d, r, -, -, heq⟩ | ⟨ht, -⟩
            · exact (hno r heq).elim
            · cases ht
        | _ =>
            obtain ⟨d, r, -, -, heq⟩ := hsays
            exact (hno r heq).elim

/-- In every run in which each connection asks for one preview at most,
everybody hears a conversation. -/
theorem converses_of_run (hone : PreviewsOnce es) (hlong : LongFrames es)
    (h : Transition.Run Step (init uv garbage) es w) (c : Nat) : Hears c w.log := by
  induction h with
  | refl => exact .nil c
  | @snoc es e w w' hrun hstep ih =>
      obtain ⟨hbefore, -⟩ := hone.of_snoc
      obtain ⟨m, hm, hmo⟩ := step_hears (fun s bytes junk he => hlong s bytes junk (by simp [he]))
        (fun d hd => replied_of_run hlong.of_snoc hrun (.inl hd)) hstep
      have hdue := (due_of_run hone (.snoc hrun hstep) c).1
      have hle : (answersTo c w'.log).length ≤ w'.due c := Nat.le_add_right ..
      rw [hm] at hle ⊢
      exact (ih hbefore hlong.of_snoc).append (hmo c) (hle.trans hdue)

theorem Framed.step {B : Nat → List Byte} (h : Framed B es w) (hflows : Flows w)
    (hlong : ∀ s bytes junk, e = .dvrPacket s bytes junk → 24 ≤ bytes.length) (hstep : Step w e w') :
    ∃ B', Framed B' (es ++ [e]) w' := by
  -- only a frame packet of a DVR brings a frame; the other callbacks send none
  by_cases hrelay : (w.scope e).relay = true
  · cases e with
    | dvrPacket s bytes junk =>
        obtain ⟨A, hA⟩ := hflows.ring
        obtain ⟨hs, hAs⟩ := hA.scope_dvr hstep.1 (s := s) rfl
        obtain ⟨⟨-, -, -, -, hmax, hlw⟩, fuel, hr⟩ := hstep
        obtain ⟨-, hframes, hrecv⟩ := hflows.standing.onDvrClientReadFrameCb hA hs hAs hr
        obtain ⟨v, -, hv, hrelays⟩ := onDvrClientReadFrameCb_relays (hlong s bytes junk rfl) hmax hlw hr
        obtain ⟨m, hm, -, hsent⟩ := hrelays.log
        have hlog : w'.log = w.log ++ (.recvFrame s w.nFrames :: m) := by
          rw [hm, hv, List.append_assoc]
          rfl
        have hnew : ∀ c, framesTo c (.recvFrame s w.nFrames :: m)
            = (sent c m).map fun _ => relayed bytes := fun c => by
          have hsame : framesTo c (.recvFrame s w.nFrames :: m) = framesTo c m := rfl
          rw [hsame, framesTo, (hsent c).1, List.filterMap_map]
          exact (congrFun (List.filterMap_eq_map (f := fun _ => relayed bytes)) _).trans rfl
        -- the new frame stands for these bytes, the earlier ones keep theirs
        refine ⟨Function.update B w.nFrames bytes, fun t => ?_, fun c => ?_, fun c f hf => ?_⟩
        · have hold : (received t w.log).map (Function.update B w.nFrames bytes)
              = (received t w.log).map B := List.map_congr_left fun f hf =>
            Function.update_of_ne (hflows.below t f hf).ne ..
          rw [hrecv, List.map_append, hold, h.came, dvrPackets_snoc]
          by_cases ht : s = t
          · simp [ht, dvrPackets]
          · simp [ht, dvrPackets]
        · have hold : ((sent c w.log).map fun f => relayed (Function.update B w.nFrames bytes f))
              = (sent c w.log).map fun f => relayed (B f) := List.map_congr_left fun f hf => by
            rw [Function.update_of_ne (h.below c f hf).ne]
          have hsame : sent c (.recvFrame s w.nFrames :: m) = sent c m := rfl
          rw [hlog, framesTo_append, sent_append, List.map_append, hold, h.passed, hnew, hsame]
          refine congrArg _ (List.map_congr_left fun f hf => ?_)
          rw [(hsent c).2 f hf, Function.update_self]
        · rw [hlog, sent_append] at hf
          rcases List.mem_append.mp hf with hf | hf
          · exact (h.below c f hf).trans (by omega)
          · rw [(hsent c).2 f hf]
            omega
    | _ => cases hrelay
  · have hrelay := Bool.eq_false_iff.mpr hrelay
    obtain ⟨m, hm, hmo⟩ := step_writes hrelay hstep
    obtain ⟨hen, fuel, hr⟩ := hstep
    have hd := handle_does_any hen hr
    have hnone : ∀ s, dvrPackets s [e] = [] := fun s => by
      cases e with
      | dvrPacket t bytes junk => cases hrelay
      | _ => rfl
    have hsent : ∀ c, sent c m = [] := sent_eq_nil fun o ho => (hmo o ho).2
    have hframes : ∀ c, framesTo c m = [] := fun c => by
      refine List.filterMap_eq_nil_iff.mpr fun x hx => ?_
      obtain ⟨o, ho, htaken⟩ := List.mem_filterMap.mp hx
      obtain ⟨p, rfl⟩ := Obs.taken_eq_some htaken
      obtain ⟨bytes, -, hsays⟩ := (hmo _ ho).1 _ _ _ _ _ rfl
      refine if_neg fun hcb => ?_
      rw [hcb] at hsays
      cases e <;> simp [Says] at hsays hrelay
      cases hrelay
    refine ⟨B, fun s => ?_, fun c => ?_, fun c f hf => ?_⟩
    · rw [hd.received hrelay, h.came, dvrPackets_snoc, hnone, List.append_nil]
    · rw [hm, framesTo_append, sent_append, hsent, hframes, List.append_nil, List.append_nil, h.passed]
    · rw [hm, sent_append, hsent, List.append_nil] at hf
      exact (h.below c f hf).trans_le hd.grows.nFrames

theorem framed_of_run (hone : PreviewsOnce es) (hlong : LongFrames es)
    (h : Transition.Run Step (init uv garbage) es w) : ∃ B, Framed B es w := by
  induction h with
  | refl => exact ⟨fun _ => [], fun _ => rfl, fun _ => rfl, fun c f hf => absurd hf List.not_mem_nil⟩
  | @snoc es e w w' hrun hstep ih =>
      obtain ⟨hbefore, -⟩ := hone.of_snoc
      obtain ⟨B, hB⟩ := ih hbefore hlong.of_snoc
      exact hB.step (flows_of_run hbefore hrun) (fun s bytes junk he => hlong s bytes junk (by simp [he]))
        hstep

/-- A client that was in no session is sent no frame. -/
theorem At.sent_of_notMem (h : At w c []) (hno : ∀ s, .attach c s ∉ w.log) : sent c w.log = [] := by
  cases h with
  | outside _ _ _ _ _ hsent => exact hsent
  | waiting _ _ _ _ hsent _ => exact hsent
  | @streaming s _ _ _ _ _ _ _ _ _ attach => exact absurd ((attach s).mpr rfl) (hno s)
  | @stopped s _ _ _ _ _ _ _ _ _ _ attach => exact absurd ((attach s).mpr rfl) (hno s)

/-- The frames sent to a client are a block of what its session received, and
the last of them unless it was stopped. -/
theorem At.sent_block (h : At w c []) (hs : .attach c s ∈ w.log) :
    sent c w.log <:+: received s w.log ∧
      (.stop c ∉ w.log → sent c w.log <:+ received s w.log) := by
  obtain ⟨-, lost, -, hair, hlost⟩ := h.onAir hs
  obtain ⟨before, after, hrecv, hafter⟩ := received_onAir s c w.log
  rw [hair] at hrecv
  rw [hrecv]
  refine ⟨⟨before, lost ++ after, by simp⟩, fun hstop => ?_⟩
  rw [hlost hstop, hafter hstop, List.append_nil, List.append_nil]
  exact List.suffix_append before _

/-- The frames that are queued for a client are a block of what its session's
DVR has delivered. -/
theorem framesTo_of_run (hone : PreviewsOnce es) (hlong : LongFrames es)
    (h : Transition.Run Step (init uv garbage) es w) (c : Nat) :
    ((∀ s, .attach c s ∉ w.log) → framesTo c w.log = []) ∧
      ∀ s, .attach c s ∈ w.log → framesTo c w.log <:+: (dvrPackets s es).map relayed ∧
        (.stop c ∉ w.log → framesTo c w.log <:+ (dvrPackets s es).map relayed) := by
  obtain ⟨B, hB⟩ := framed_of_run hone hlong h
  have hat := (flows_of_run hone h).standing.clients c
  have hblock : framesTo c w.log = ((sent c w.log).map B).map relayed := by
    rw [hB.passed, List.map_map]
    rfl
  constructor
  · intro hno
    rw [hblock, hat.sent_of_notMem hno]
    rfl
  · intro s hs
    obtain ⟨hmid, hend⟩ := hat.sent_block hs
    rw [hblock, ← hB.came s]
    exact ⟨(hmid.map B).map relayed, fun hgo => ((hend hgo).map B).map relayed⟩

theorem hears_of_run (hone : PreviewsOnce es) (hlong : LongFrames es)
    (h : Transition.Run Step (init uv garbage) es w) (c : Nat) :
    ∃ said b, (hears (.client c) w.log).map Prod.snd = said.map Said.packet ∧ Converses b said ∧
      ((∀ e ∈ es, e.preview ≠ some c) → b = false) ∧
      ((∀ s, .attach c s ∉ w.log) → framesOf said = []) ∧
      ∀ s, .attach c s ∈ w.log → framesOf said <:+: (dvrPackets s es).map relayed ∧
        (.stop c ∉ w.log → framesOf said <:+ (dvrPackets s es).map relayed) := by
  obtain ⟨said, hbytes, hsaid, hframes⟩ := converses_of_run hone hlong h c
  refine ⟨said, _, hbytes, hsaid, fun hno => ?_, ?_⟩
  · have hzero := (due_of_run hone h c).2 hno
    have hle := replied_le c w.log
    rw [due] at hzero
    by_contra hrep
    rw [if_pos (Bool.eq_true_of_not_eq_false hrep)] at hle
    omega
  · rw [hframes]
    exact framesTo_of_run hone hlong h c

/-- **What a client hears**, in every run in which each connection sends at most
one preview command, and no session is deleted in place of another:
acknowledgements, at most one response to its preview and no sooner, and after
the response, mixed with more acknowledgements, a block of the packets that the
DVR of its session has delivered, in their order and without a gap, as frames; up
to the last one that came, unless it was stopped. Nothing is written to it whose
bytes are not defined. -/
theorem hears_of_recycling (hone : PreviewsOnce es) (hlong : LongFrames es)
    (h : Transition.Run (fun w e w' => (w.DeletesOwn e ∧ ¬ e.Mocks) ∧ AllocStep w e w')
      (init uv garbage) es w) (c : Nat) :
    (∀ p cb b r, .uvWrite (.client c) p cb b r ∈ w.log → ∃ bytes, b = some bytes) ∧
    ∃ said b, (hears (.client c) w.log).map Prod.snd = said.map Said.packet ∧ Converses b said ∧
      ((∀ e ∈ es, e.preview ≠ some c) → b = false) ∧
      ((∀ s, .attach c s ∉ w.log) → framesOf said = []) ∧
      ∀ s, .attach c s ∈ w.log → framesOf said <:+: (dvrPackets s es).map relayed ∧
        (.stop c ∉ w.log → framesOf said <:+ (dvrPackets s es).map relayed) := by
  obtain ⟨u, m, hrun, rfl⟩ := run_of_recycling (proper_of_recycling hone h)
  have hsteps := hrun.mono fun _ _ _ hs => hs.2
  exact ⟨fun _ _ _ _ ho => written_of_run hlong hsteps ho, hears_of_run hone hlong hsteps c⟩

/-- The second client is answered first, and hears the first frame, which the
other one does not. -/
theorem hears_of_recycling_twoClients :
    ∃ w said b said' b', Transition.Run
        (fun w e w' => (w.DeletesOwn e ∧ ¬ e.Mocks) ∧ AllocStep w e w')
        (init (fun n => if n = 17 then -32 else 0) fun _ => Values.zero) twoClients w ∧
      said.map Said.packet = [responsePacket 0, relayed zeroDvrFrame, relayed zeroDvrFrame] ∧
      Converses b said ∧ framesOf said <:+ (dvrPackets 0 twoClients).map relayed ∧
      said'.map Said.packet = [responsePacket 0, relayed zeroDvrFrame, relayed zeroDvrFrame] ∧
      Converses b' said' ∧ framesOf said' <:+: (dvrPackets 0 twoClients).map relayed ∧
      .stop 1 ∈ w.log := by
  have hval : ((init (fun n => if n = 17 then -32 else 0) fun _ => Values.zero).followAlloc
      (fun w e => w.DeletesOwn e ∧ ¬ e.Mocks) 3 (twoClients.map (none, ·))).map (fun w =>
        ((hears (.client 0) w.log).map Prod.snd, (hears (.client 1) w.log).map Prod.snd,
          w.log.contains (.attach 0 0), w.log.contains (.attach 1 0), w.log.contains (.stop 0),
          w.log.contains (.stop 1)))
      = some ([responsePacket 0, relayed zeroDvrFrame, relayed zeroDvrFrame],
          [responsePacket 0, relayed zeroDvrFrame, relayed zeroDvrFrame], true, true, false, true) := by
    decide +kernel
  have hpreviews : twoClients.filterMap Event.preview = [0, 1] := by decide +kernel
  obtain ⟨w, hw, hval⟩ := Option.map_eq_some_iff.mp hval
  obtain ⟨hheard, hval⟩ := Prod.mk.inj hval
  obtain ⟨hheard', hval⟩ := Prod.mk.inj hval
  obtain ⟨hattach, hattach', hstop, hstop'⟩ := by simpa using hval
  have hrun := run_of_followAlloc hw
  rw [List.map_map, show Prod.snd ∘ (fun e : Event => ((none, e) : Occasion)) = id from rfl,
    List.map_id] at hrun
  have hone : PreviewsOnce twoClients := previewsOnce_of_nodup (by rw [hpreviews]; decide)
  have hlong : LongFrames twoClients := by
    intro s bytes junk he
    obtain ⟨-, rfl, -⟩ := by simpa [twoClients, previewOf, frameOf] using he
    decide
  obtain ⟨-, said, b, hsaid, hconv, -, -, hframes⟩ := hears_of_recycling hone hlong hrun 0
  obtain ⟨-, said', b', hsaid', hconv', -, -, hframes'⟩ := hears_of_recycling hone hlong hrun 1
  exact ⟨w, said, b, said', b', hrun, hsaid.symm.trans hheard, hconv, (hframes 0 hattach).2 hstop,
    hsaid'.symm.trans hheard', hconv', (hframes' 0 hattach').1, hstop'⟩

end Runs

end Server

end Smts
