import Smts.Test.Dvr

/-!
# Test — the test bed

`test_preview_suite`: the server between test clients and mock DVRs. What one
end of a connection sends is read at the other end in that order, some time
later; what else happens meanwhile is open. The test's assertions are about
packets that went through all of it.
-/

namespace Smts

open Checked

/-! ## What is on its way -/

/-- The packet that an event brings, and who sent it. -/
def Event.brings : Event → Option (Target × List Byte)
  | .packet c bytes _ => some (.client c, bytes)
  | .dvrPacket s bytes _ => some (.dvr s, bytes)
  | _ => none

/-- The packet that the event brings the server, if it is one of `t`. -/
def Event.broughtBy (t : Target) (e : Event) : Option (List Byte) :=
  e.brings.bind fun x => if x.1 = t then some x.2 else none

/-- The packets that the server has read of `t`, in their order. -/
def broughtBy (t : Target) (es : List Event) : List (List Byte) := es.filterMap (Event.broughtBy t)

/-- What happens in the test bed; `garbage` is in the structs that are allocated. -/
inductive Occurrence where
  /-- a callback of the server, and the memory that its next session gets -/
  | server (x : Server.Occasion)
  | connected (c : Nat) (garbage : Values NvmpName)
  | previewSent (c : Nat)
  | clientReads (c : Nat) (garbage garbage' : Values NvmpName)
  | dvrReads (s : Nat) (garbage : Values NvmpName)
  | dvrReadError (s : Nat)
  | frameDue (s : Nat) (bin : List Byte) (garbage : Values NvmpName)
  | dvrStops (s : Nat)

/-- The callback of the server's, if it is one. -/
def Occurrence.event? : Occurrence → Option Event
  | .server x => some x.2
  | _ => none

/-- The events of the server's in a run of the test bed. -/
def events (os : List Occurrence) : List Event := os.filterMap Occurrence.event?

/-- The server and the programs around it: its test clients, and a mock DVR for
each session. -/
structure TestBed where
  server : Server
  clients : Nat → TestSmtsClient
  dvrs : Nat → MockDvr
  /-- how many packets of the other end the server has read -/
  readFrom : Target → Nat
  /-- how many packets of the server the other end has read -/
  readBy : Target → Nat

section Brought

variable {t : Target} {es : List Event} {e : Event} {bytes : List Byte}

theorem broughtBy_snoc (t : Target) (es : List Event) (e : Event) :
    broughtBy t (es ++ [e]) = broughtBy t es ++ broughtBy t [e] := List.filterMap_append

theorem events_snoc (os : List Occurrence) (o : Occurrence) :
    events (os ++ [o]) = events os ++ o.event?.toList := by
  rw [events, List.filterMap_append]
  cases o <;> rfl

/-- What comes next makes a longer prefix. -/
theorem prefix_concat {α : Type} {l m : List α} {x : α} (h : l <+: m) (hx : m[l.length]? = some x) :
    l ++ [x] <+: m := by
  obtain ⟨k, rfl⟩ := h
  rw [List.getElem?_append_right le_rfl, Nat.sub_self] at hx
  cases k with
  | nil => cases hx
  | cons y k =>
      obtain rfl := Option.some.inj hx
      exact ⟨k, by simp⟩

theorem mem_broughtBy : bytes ∈ broughtBy t es ↔ ∃ e ∈ es, e.brings = some (t, bytes) := by
  rw [broughtBy, List.mem_filterMap]
  refine exists_congr fun e => and_congr_right fun _ => ?_
  cases h : e.brings with
  | none => simp [Event.broughtBy, h]
  | some x =>
      obtain ⟨u, b⟩ := x
      by_cases hu : u = t <;> simp [Event.broughtBy, h, hu]

/-- An event that brings a packet brings it from its sender, and nothing from
anybody else. -/
theorem broughtBy_singleton (he : e.brings = some (t, bytes)) (u : Target) :
    broughtBy u [e] = if t = u then [bytes] else [] := by
  rw [broughtBy, List.filterMap_cons, Event.broughtBy, he]
  by_cases hu : t = u <;> simp [hu]

theorem broughtBy_none (he : e.brings = none) (u : Target) : broughtBy u [e] = [] := by
  rw [broughtBy, List.filterMap_cons, Event.broughtBy, he]
  rfl

theorem broughtBy_dvr (s : Nat) (es : List Event) : broughtBy (.dvr s) es = Server.dvrPackets s es := by
  refine List.filterMap_congr fun e _ => ?_
  cases e <;> simp [Event.broughtBy, Event.brings]

/-- The command of a packet that has one. -/
theorem decodeInt32_beyond_cmd (junk : Int → Byte) (hlen : 8 ≤ bytes.length) :
    decodeInt32 (Reader.beyond bytes junk) 4 = some (cmdWord bytes) := by
  have htake := Reader.take_within bytes 4 4 (by omega)
  rw [if_pos (show 4 + 4 ≤ bytes.length from hlen)] at htake
  have hbeyond : (Reader.beyond bytes junk).take 4 4 = _ := Reader.take_beyond junk htake
  rw [decodeInt32, decodeInt_value, hbeyond]
  rfl

theorem preview_of_cmdWord (c : Nat) (junk : Int → Byte) (hlen : 8 ≤ bytes.length) :
    (Event.packet c bytes junk).preview = if cmdWord bytes = previewCmdNo then some c else none := by
  rw [Event.preview, decodeInt32_beyond_cmd junk hlen]
  simp

end Brought

/-! ## What the programs keep to -/

/-- The frames of `l` are numbered, from 0. -/
def Numbered (l : List (List Byte)) : Prop :=
  ∀ (i : Nat) p, l[i]? = some p → 24 ≤ p.length ∧ (wordOf p 8).toInt = i

section Numbered

variable {l m : List (List Byte)} {p q : List Byte}

theorem Numbered.snoc (h : Numbered l) (hlen : 24 ≤ p.length) (hseq : (wordOf p 8).toInt = l.length) :
    Numbered (l ++ [p]) := by
  intro i q hq
  rw [List.getElem?_append] at hq
  split at hq
  next => exact h i q hq
  next hi =>
    obtain ⟨hi', hq⟩ := List.getElem?_eq_some_iff.mp hq
    have hil : i = l.length := by
      rw [List.length_singleton] at hi'
      omega
    subst hil
    simp only [Nat.sub_self, List.getElem_cons_zero] at hq
    exact hq ▸ ⟨hlen, hseq⟩

theorem wordOf_relayed (bytes : List Byte) : wordOf (relayed bytes) 8 = wordOf bytes 8 :=
  wordOf_wordsPacket _ _ (i := 2) (by simp)

/-- What is passed on from a numbered list, without a gap, has the next number. -/
theorem Numbered.next (h : Numbered l) (hin : m ++ [q] <:+: l.map relayed) :
    ∃ p, q = relayed p ∧ 24 ≤ p.length ∧
      ∀ f, m.getLast? = some f → (wordOf f 8).toInt + 1 = (wordOf p 8).toInt := by
  obtain ⟨a, z, hsplit⟩ := hin
  have hq : (l.map relayed)[a.length + m.length]? = some q := by
    rw [← hsplit]
    simp
  rw [List.getElem?_map] at hq
  obtain ⟨p, hp, rfl⟩ := Option.map_eq_some_iff.mp hq
  obtain ⟨hlen, hseq⟩ := h _ _ hp
  refine ⟨p, rfl, hlen, fun f hf => ?_⟩
  obtain ⟨m', rfl⟩ := List.getLast?_eq_some_iff.mp hf
  have hf : (l.map relayed)[a.length + m'.length]? = some f := by
    rw [← hsplit]
    simp
  rw [List.getElem?_map] at hf
  obtain ⟨p', hp', rfl⟩ := Option.map_eq_some_iff.mp hf
  obtain ⟨-, hseq'⟩ := h _ _ hp'
  rw [wordOf_relayed, hseq, hseq', List.length_append, List.length_singleton]
  push_cast
  omega

end Numbered

/-- A client asks for a preview, and sends a command when it is answered. -/
inductive TestSmtsClient.Spoke (x : TestSmtsClient) : Prop where
  | silent (hsent : x.sent = []) (hreading : x.reading = false) (hstatus : x.status = 0)
  | asked {p : List Byte} (hsent : x.sent = [p]) (hcmd : cmdWord p = previewCmdNo)
      (hlen : 8 ≤ p.length) (hstatus : x.status = 0)
  | answered {p q : List Byte} (hsent : x.sent = [p, q]) (hcmd : cmdWord p = previewCmdNo)
      (hlen : 8 ≤ p.length) (hcmd' : cmdWord q = testPTZCmd.cmd) (hlen' : 8 ≤ q.length)
      (hstatus : x.status = 1)

theorem TestSmtsClient.Spoke.sends {x : TestSmtsClient} {p : List Byte} (h : x.Spoke) (hp : p ∈ x.sent) :
    8 ≤ p.length ∧ (cmdWord p = previewCmdNo ∨ cmdWord p = testPTZCmd.cmd) := by
  cases h with
  | silent hsent =>
      rw [hsent] at hp
      cases hp
  | asked hsent hcmd hlen =>
      rw [hsent, List.mem_singleton] at hp
      exact hp ▸ ⟨hlen, .inl hcmd⟩
  | answered hsent hcmd hlen hcmd' hlen' =>
      rw [hsent] at hp
      rcases List.mem_pair.mp hp with rfl | rfl
      · exact ⟨hlen, .inl hcmd⟩
      · exact ⟨hlen', .inr hcmd'⟩

theorem TestSmtsClient.Spoke.congr {x y : TestSmtsClient} (h : x.Spoke) (hsent : y.sent = x.sent)
    (hreading : y.reading = x.reading) (hstatus : y.status = x.status) : y.Spoke := by
  cases h with
  | silent h₁ h₂ h₃ => exact .silent (hsent.trans h₁) (hreading.trans h₂) (hstatus.trans h₃)
  | asked h₁ h₂ h₃ h₄ => exact .asked (hsent.trans h₁) h₂ h₃ (hstatus.trans h₄)
  | answered h₁ h₂ h₃ h₄ h₅ h₆ => exact .answered (hsent.trans h₁) h₂ h₃ h₄ h₅ (hstatus.trans h₆)

/-- The frames among the packets that were read. -/
def framesIn (heard : List (SendCb × List Byte)) : List (List Byte) := heard.filterMap frameIn

/-- A client counts the frames that it has read, and knows the number of the last. -/
structure TestSmtsClient.Counted (x : TestSmtsClient) (heard : List (SendCb × List Byte)) : Prop where
  account : x.recvFrameAccount = (framesIn heard).length
  last : x.curFrameSeq = (framesIn heard).getLast?.elim (-1) fun p => (wordOf p 8).toInt
  opened : x.closed = false → x.recvFrameAccount ≤ terminateSeqno
  bounded : x.recvFrameAccount ≤ terminateSeqno + 1
  first : x.status = 0 → heard = []

section Counted

variable {x : TestSmtsClient} {heard : List (SendCb × List Byte)} {y : SendCb × List Byte}

theorem framesIn_frame (heard : List (SendCb × List Byte)) (hy : y.1 = .sendFrame) :
    framesIn (heard ++ [y]) = framesIn heard ++ [y.2] := by
  rw [framesIn, List.filterMap_append, List.filterMap_cons_some (b := y.2) (by rw [frameIn, if_pos hy])]
  rfl

theorem framesIn_other (heard : List (SendCb × List Byte)) (hy : y.1 ≠ .sendFrame) :
    framesIn (heard ++ [y]) = framesIn heard := by
  rw [framesIn, List.filterMap_append, List.filterMap_cons_none (by rw [frameIn, if_neg hy])]
  exact List.append_nil _

theorem TestSmtsClient.Counted.congr {x' : TestSmtsClient} (h : x.Counted heard)
    (haccount : x'.recvFrameAccount = x.recvFrameAccount) (hlast : x'.curFrameSeq = x.curFrameSeq)
    (hclosed : x'.closed = x.closed) (hst : x'.status = x.status) : x'.Counted heard where
  account := haccount.trans h.account
  last := hlast.trans h.last
  opened hopen := haccount ▸ h.opened (hclosed ▸ hopen)
  bounded := haccount ▸ h.bounded
  first hzero := h.first (hst ▸ hzero)

/-- A packet without a frame leaves the test client's count right. -/
theorem TestSmtsClient.Counted.other {x' : TestSmtsClient} (h : x.Counted heard)
    (hy : y.1 ≠ .sendFrame) (haccount : x'.recvFrameAccount = x.recvFrameAccount)
    (hlast : x'.curFrameSeq = x.curFrameSeq) (hclosed : x'.closed = x.closed) (hst : x'.status ≠ 0) :
    x'.Counted (heard ++ [y]) where
  account := by rw [haccount, framesIn_other heard hy, h.account]
  last := by rw [hlast, framesIn_other heard hy, h.last]
  opened hopen := haccount ▸ h.opened (hclosed ▸ hopen)
  bounded := haccount ▸ h.bounded
  first hzero := absurd hzero hst

/-- A frame that the test client reads is counted. -/
theorem TestSmtsClient.Counted.gotFrame (h : x.Counted heard) (hy : y.1 = .sendFrame)
    (hopen : x.closed = false) (hst : x.status ≠ 0) :
    (x.gotFrame (wordOf y.2 8).toInt).Counted (heard ++ [y]) := by
  have hframes := framesIn_frame heard hy
  have haccount : x.recvFrameAccount + 1 = (framesIn (heard ++ [y])).length := by
    rw [hframes, List.length_append, h.account]
    rfl
  have hlast : (wordOf y.2 8).toInt
      = (framesIn (heard ++ [y])).getLast?.elim (-1) fun p => (wordOf p 8).toInt := by
    rw [hframes, List.getLast?_concat]
    rfl
  have hbounded : x.recvFrameAccount + 1 ≤ terminateSeqno + 1 :=
    Int.add_le_add_right (h.opened hopen) 1
  rw [TestSmtsClient.gotFrame]
  obtain ⟨hle, heq⟩ | heq := TestSmtsClient.terminate_cases
    { x with recvFrameAccount := x.recvFrameAccount + 1, curFrameSeq := (wordOf y.2 8).toInt }
  · rw [heq]
    exact ⟨haccount, hlast, fun _ => hle, hbounded, fun hzero => absurd hzero hst⟩
  · rw [heq]
    exact ⟨haccount, hlast, fun hno => Bool.noConfusion hno, hbounded, fun hzero => absurd hzero hst⟩

end Counted

/-- A DVR numbers its frames, and starts when it is asked to. -/
structure MockDvr.Counts (x : MockDvr) (heard : List (SendCb × List Byte)) : Prop where
  numbered : Numbered x.sent
  idle : x.dvr = none → x.sent = []
  seqno : ∀ d, x.dvr = some d → d = MockDvr.sending x.sent.length
  asked : x.dvr ≠ none → 0 < heard.countP fun y => y.1 = .dvrPreview

theorem MockDvr.Counts.congr {x y : MockDvr} {heard : List (SendCb × List Byte)} (h : x.Counts heard)
    (hdvr : y.dvr = x.dvr) (hsent : y.sent = x.sent) : y.Counts heard where
  numbered := hsent ▸ h.numbered
  idle hno := hsent ▸ h.idle (hdvr ▸ hno)
  seqno d hd := hsent ▸ h.seqno d (hdvr ▸ hd)
  asked hd := h.asked (hdvr ▸ hd)

/-- What the mock DVR reads does not concern the numbers of its frames. -/
theorem MockDvr.Counts.read {x : MockDvr} {heard : List (SendCb × List Byte)} (h : x.Counts heard)
    (y : SendCb × List Byte) : x.Counts (heard ++ [y]) where
  numbered := h.numbered
  idle := h.idle
  seqno := h.seqno
  asked hd := by
    rw [List.countP_append]
    exact Nat.lt_add_right _ (h.asked hd)

namespace TestBed

/-- The test bed before anything has happened; the client `c` will ask for the
DVR `ids c`. -/
def init (ids : Nat → BitVec 64) (uv : Nat → Int) (garbage : Nat → Values NvmpName) : TestBed :=
  { server := .init uv garbage, clients := fun c => .init (ids c), dvrs := fun _ => .init
    readFrom := fun _ => 0, readBy := fun _ => 0 }

/-- The packets that the program at `t` has sent, in their order. -/
def sentBy (b : TestBed) : Target → List (List Byte)
  | .client c => (b.clients c).sent
  | .dvr s => (b.dvrs s).sent

/-- The packets of the server that the program at `t` has read. -/
def heardBy (b : TestBed) (t : Target) : List (SendCb × List Byte) :=
  (hears t b.server.log).take (b.readBy t)

/-- The packet of the server that the program at `t` reads next, if there is
one. -/
def unread (b : TestBed) (t : Target) : Option (SendCb × List Byte) :=
  (hears t b.server.log)[b.readBy t]?

/-- If the event brings the server a packet, it is the next one its sender has
sent. -/
def Offers (b : TestBed) (e : Event) : Prop :=
  ∀ x, e.brings = some x → (b.sentBy x.1)[b.readFrom x.1]? = some x.2

instance (b : TestBed) (e : Event) : Decidable (b.Offers e) :=
  decidable_of_iff (e.brings.all fun x => (b.sentBy x.1)[b.readFrom x.1]? == some x.2)
    (by cases h : e.brings <;> simp [Offers, h])

def setClient (b : TestBed) (c : Nat) (x : TestSmtsClient) : TestBed :=
  { b with clients := Function.update b.clients c x }

def setDvr (b : TestBed) (s : Nat) (x : MockDvr) : TestBed :=
  { b with dvrs := Function.update b.dvrs s x }

/-- The test bed when the program at `t` has read one packet more. -/
def reads (b : TestBed) (t : Target) : TestBed :=
  { b with readBy := Function.update b.readBy t (b.readBy t + 1) }

/-- The server is `w` after the callback `e`. -/
def served (b : TestBed) (e : Event) (w : Server) : TestBed :=
  { b with server := w, readFrom := fun t => b.readFrom t + (broughtBy t [e]).length }

/-- One callback. An assertion that fails is the end of it. -/
def next (b : TestBed) (fuel : Nat) : Occurrence → Option TestBed
  | .server x => if b.Offers x.2 then (b.server.allocHandle fuel x).map (b.served x.2) else none
  | .connected c garbage =>
      if (b.clients c).sent = [] then
        ((b.clients c).testClientOnConnected garbage).map (b.setClient c)
      else none
  | .previewSent c =>
      if (b.clients c).sent = [] then none
      else some (b.setClient c (b.clients c).testClientOnSendPreviewCmd)
  | .clientReads c garbage garbage' =>
      if (b.clients c).reading = true ∧ (b.clients c).closed = false then do
        let packet ← b.unread (.client c)
        let res ← (b.clients c).testClientOnReadPacket packet.2 garbage garbage'
        let x ← res.toOption
        some ((b.setClient c x).reads (.client c))
      else none
  | .dvrReads s garbage =>
      if (b.dvrs s).reading = true ∧ (b.dvrs s).closed = false then do
        let packet ← b.unread (.dvr s)
        let x ← (b.dvrs s).mockDvrDispatchPacket packet.2 garbage
        some ((b.setDvr s x).reads (.dvr s))
      else none
  | .dvrReadError s =>
      if (b.dvrs s).reading = true ∧ (b.dvrs s).closed = false then
        some (b.setDvr s (b.dvrs s).mockDvrReadError)
      else none
  | .frameDue s bin garbage =>
      if (b.dvrs s).closed = false ∧ (b.dvrs s).dvr.map TestMockDvr.binLen = some (bin.length : Int) then
        ((b.dvrs s).dvrSendFrame0 bin garbage).map (b.setDvr s)
      else none
  | .dvrStops s => some (b.setDvr s (b.dvrs s).destroy)

/-- One step of the server, of a test client or of a mock DVR. -/
def Step (b : TestBed) (o : Occurrence) (b' : TestBed) : Prop := ∃ fuel, b.next fuel o = some b'

/-- The server deletes no session in place of another. -/
def DeletesOwn (b : TestBed) (o : Occurrence) : Prop := ∀ e, o.event? = some e → b.server.DeletesOwn e

instance (b : TestBed) (o : Occurrence) : Decidable (b.DeletesOwn o) :=
  decidable_of_iff (o.event?.all fun e => decide (b.server.DeletesOwn e)) (by
    cases h : o.event? <;> simp [DeletesOwn, h])

/-- The occurrences `os`, one after the other: each has to be possible when it is its
turn, and the server must delete no session in place of another in it. -/
def follow (fuel : Nat) (b : TestBed) (os : List Occurrence) : Option TestBed :=
  os.foldlM (fun b o => if b.DeletesOwn o then b.next fuel o else none) b

theorem run_of_follow {fuel : Nat} {b b' : TestBed} {os : List Occurrence}
    (h : b.follow fuel os = some b') :
    Transition.Run (fun b o b' => b.DeletesOwn o ∧ Step b o b') b os b' := by
  rw [← List.map_id os]
  refine Transition.Run.of_foldlM ?_ h
  intro b o b' hstep
  split at hstep
  next hdel => exact ⟨hdel, fuel, hstep⟩
  next => cases hstep

/-! ## Every run -/

/-- What holds after the server's events `es`. -/
structure Sound (uv : Nat → Int) (garbage : Nat → Values NvmpName) (es : List Event) (b : TestBed) :
    Prop where
  run : Transition.Run (fun w e w' => (w.DeletesOwn e ∧ ¬ e.Mocks) ∧ Server.AllocStep w e w')
    (.init uv garbage) es b.server
  once : Server.PreviewsOnce es
  brought : ∀ t, broughtBy t es <+: b.sentBy t
  readFrom : ∀ t, b.readFrom t = (broughtBy t es).length
  readBy : ∀ t, b.readBy t ≤ (hears t b.server.log).length
  spoke : ∀ c, (b.clients c).Spoke
  counted : ∀ c, (b.clients c).Counted (b.heardBy (.client c))
  counts : ∀ s, (b.dvrs s).Counts (b.heardBy (.dvr s))

section Sound

variable {uv : Nat → Int} {garbage : Nat → Values NvmpName} {es : List Event} {b : TestBed}
  {t : Target} {c s : Nat} {x : SendCb × List Byte} {bytes : List Byte} {junk : Int → Byte}

/-- A packet of a client's has its command. -/
theorem Sound.long_client (h : Sound uv garbage es b) (hp : .packet c bytes junk ∈ es) :
    8 ≤ bytes.length ∧ bytes ∈ (b.clients c).sent := by
  have hmem : bytes ∈ (b.clients c).sent :=
    (h.brought (.client c)).subset (mem_broughtBy.mpr ⟨_, hp, rfl⟩)
  exact ⟨((h.spoke c).sends hmem).1, hmem⟩

/-- The server has written what it has in a run in which no memory is used again. -/
theorem Sound.sameLog (h : Sound uv garbage es b) :
    ∃ u, Transition.Run Server.Step (.init uv garbage) es u ∧ b.server.log = u.log := by
  obtain ⟨u, m, hrun, hu⟩ := Server.run_of_recycling (Server.proper_of_recycling h.once h.run)
  exact ⟨u, hrun.mono fun _ _ _ hs => hs.2, by rw [hu]; rfl⟩

theorem Sound.longFrames (h : Sound uv garbage es b) : Server.LongFrames es := by
  intro s bytes junk hp
  have hmem : bytes ∈ (b.dvrs s).sent := (h.brought (.dvr s)).subset (mem_broughtBy.mpr ⟨_, hp, rfl⟩)
  obtain ⟨i, hi⟩ := List.mem_iff_getElem?.mp hmem
  exact ((h.counts s).numbered i bytes hi).1

/-- What is read, by the number of packets. -/
theorem take_of_unread (hx : b.unread t = some x) :
    (hears t b.server.log).take (b.readBy t + 1) = b.heardBy t ++ [x] ∧
      b.readBy t + 1 ≤ (hears t b.server.log).length := by
  rw [unread] at hx
  refine ⟨?_, (List.getElem?_eq_some_iff.mp hx).1⟩
  rw [List.take_add_one, hx]
  rfl

/-- What is read next is behind what was read. -/
theorem heardBy_concat (hx : b.unread t = some x) : b.heardBy t ++ [x] <+: hears t b.server.log := by
  rw [← (take_of_unread hx).1]
  exact List.take_prefix ..

/-- A client that has an acknowledgement to read was answered before. -/
theorem Sound.status_of_ack (h : Sound uv garbage es b) (hx : b.unread (.client c) = some x)
    (hack : x.2 = ackPacket) : (b.clients c).status ≠ 0 := by
  have hmem : ackPacket ∈ (hears (.client c) b.server.log).map Prod.snd :=
    hack ▸ List.mem_map_of_mem ((heardBy_concat hx).subset (by simp))
  obtain ⟨u, hu, hlog⟩ := h.sameLog
  rw [hlog] at hmem
  obtain ⟨bytes, junk, hp, hnone⟩ := Server.ack_of_run h.longFrames hu hmem
  obtain ⟨hlen, hsent⟩ := h.long_client hp
  rw [preview_of_cmdWord c junk hlen] at hnone
  cases h.spoke c with
  | silent hempty =>
      rw [hempty] at hsent
      cases hsent
  | asked hone hcmd =>
      rw [hone, List.mem_singleton] at hsent
      rw [hsent, if_pos hcmd] at hnone
      cases hnone
  | answered _ _ _ _ _ hst =>
      rw [hst]
      exact Int.one_ne_zero

/-- A frame that a client has to read is its first, or the next. -/
theorem Sound.next_frame (h : Sound uv garbage es b) (hx : b.unread (.client c) = some x)
    (hframe : x.1 = .sendFrame) :
    ∃ bytes, x.2 = relayed bytes ∧ 24 ≤ bytes.length ∧
      ((b.clients c).curFrameSeq = -1 ∨
        (b.clients c).curFrameSeq + 1 = (wordOf bytes 8).toInt) := by
  have hframes : framesIn (b.heardBy (.client c)) ++ [x.2] <+: framesTo c b.server.log := by
    rw [← framesIn_frame _ hframe]
    exact (heardBy_concat hx).filterMap frameIn
  obtain ⟨u, hu, hlog⟩ := h.sameLog
  obtain ⟨hno, hall⟩ := Server.framesTo_of_run h.once h.longFrames hu c
  rw [← hlog] at hno hall
  -- it is in a session, or it would be sent nothing
  obtain ⟨s, hs⟩ : ∃ s, .attach c s ∈ b.server.log := by
    by_contra hnone
    rw [hno fun s hs => hnone ⟨s, hs⟩] at hframes
    exact absurd (List.prefix_nil.mp hframes) (by simp)
  have hin : framesIn (b.heardBy (.client c)) ++ [x.2] <:+: (b.dvrs s).sent.map relayed := by
    have hbrought := h.brought (.dvr s)
    rw [broughtBy_dvr] at hbrought
    exact (hframes.isInfix.trans (hall s hs).1).trans (hbrought.map relayed).isInfix
  obtain ⟨bytes, hbytes, hlen, hnext⟩ := (h.counts s).numbered.next hin
  refine ⟨bytes, hbytes, hlen, ?_⟩
  rw [(h.counted c).last]
  cases hlast : (framesIn (b.heardBy (.client c))).getLast? with
  | none => exact .inl rfl
  | some f => exact .inr (hnext f hlast)

/-- What a client makes of a packet, as far as its assertions hold. -/
theorem Sound.clientReads (h : Sound uv garbage es b) (hx : b.unread (.client c) = some x)
    (hreading : (b.clients c).reading = true) (hopen : (b.clients c).closed = false)
    (g g' : Values NvmpName) :
    ((b.clients c).status = 0 ∧ (∃ r, x.2 = responsePacket r ∧ BitVec.ofInt 32 r ≠ 0) ∧
        (b.clients c).testClientOnReadPacket x.2 g g' = some (.error .previewStatus)) ∨
      ∃ y, (b.clients c).testClientOnReadPacket x.2 g g' = some (.ok y) ∧ y.Spoke ∧
        y.Counted (b.heardBy (.client c) ++ [x]) ∧ (b.clients c).sent <+: y.sent := by
  have hcounted := h.counted c
  obtain ⟨u, hu, hlog⟩ := h.sameLog
  have hpre := heardBy_concat hx
  rw [hlog] at hpre
  rcases Server.heard_of_run h.longFrames hu hpre with
    hack | ⟨hreply, r, hr⟩ | ⟨hframe, hany⟩
  · -- an acknowledgement changes nothing
    have hst := h.status_of_ack hx (by rw [hack])
    refine .inr ⟨b.clients c, ?_, h.spoke c, ?_, List.prefix_refl _⟩
    · rw [hack]
      exact TestSmtsClient.testClientOnReadPacket_ack g g' hst
    · exact hcounted.other (by simp [hack]) rfl rfl rfl hst
  -- the first response starts the client's streaming; a later one would change nothing
  · have hother : x.1 ≠ .sendFrame := fun heq => by simp [heq, SendCb.isReply] at hreply
    by_cases hst : (b.clients c).status = 0
    · obtain ⟨hne, herror⟩ | ⟨p, hok, hcmd, hlen⟩ :=
        TestSmtsClient.testClientOnReadPacket_response g g' hst r
      · rw [← hr] at herror
        exact .inl ⟨hst, ⟨r, hr, hne⟩, herror⟩
      · rw [← hr] at hok
        refine .inr ⟨_, hok, ?_, ?_, List.prefix_append _ _⟩
        · -- it is answered now
          cases h.spoke c with
          | silent _ hno => exact absurd hreading (by simp [hno])
          | @asked q hsent hq hqlen =>
              refine .answered (p := q) (q := p) ?_ hq hqlen hcmd hlen rfl
              show (b.clients c).sent ++ [p] = [q, p]
              rw [hsent]
              rfl
          | answered _ _ _ _ _ hone => exact absurd hst (by simp [hone])
        · exact hcounted.other hother rfl rfl rfl Int.one_ne_zero
    · have hread := hcounted.other hother rfl rfl rfl hst
      refine .inr ⟨b.clients c, ?_, h.spoke c, hread, List.prefix_refl _⟩
      rw [hr]
      exact TestSmtsClient.testClientOnReadPacket_again g g' hst r
  · have hst : (b.clients c).status ≠ 0 := fun hzero => by
      rw [hcounted.first hzero] at hany
      cases hany
    obtain ⟨bytes, hbytes, hlen, hnext⟩ := h.next_frame hx hframe
    -- a client that is open has had at most 20 frames, so the counter does not overflow
    have haccount : Fits 32 ((b.clients c).recvFrameAccount + 1) := by
      have hle : (b.clients c).recvFrameAccount ≤ 20 := hcounted.opened hopen
      have hpos := hcounted.account
      simp only [Fits]
      omega
    have hok := TestSmtsClient.testClientOnReadPacket_frame g g' hst hlen haccount hnext
    rw [← hbytes] at hok
    have hword : wordOf x.2 8 = wordOf bytes 8 := by rw [hbytes, wordOf_relayed]
    refine .inr ⟨_, hok, ?_, ?_, ?_⟩
    · obtain ⟨closed, heq⟩ := (b.clients c).gotFrame_eq (wordOf bytes 8).toInt
      rw [heq]
      exact (h.spoke c).congr rfl rfl rfl
    · rw [← hword]
      exact hcounted.gotFrame hframe hopen hst
    · obtain ⟨closed, heq⟩ := (b.clients c).gotFrame_eq (wordOf bytes 8).toInt
      have hsame : ((b.clients c).gotFrame (wordOf bytes 8).toInt).sent = (b.clients c).sent := by
        rw [heq]
      exact hsame ▸ List.prefix_refl _

/-- A command that a DVR has to read is one of a client's. -/
theorem Sound.cmd_of_sendCmdToDvr (h : Sound uv garbage es b) (hx : b.unread (.dvr s) = some x)
    (hcb : x.1 = .sendCmdToDvr) : 8 ≤ x.2.length ∧ cmdWord x.2 = testPTZCmd.cmd := by
  have hmem : x ∈ hears (.dvr s) b.server.log := (heardBy_concat hx).subset (by simp)
  have hcmd : x.2 ∈ commandsTo s b.server.log :=
    List.mem_filterMap.mpr ⟨x, hmem, by rw [commandIn, if_pos hcb]⟩
  obtain ⟨u, hu, hlog⟩ := h.sameLog
  rw [hlog] at hcmd
  obtain ⟨e, he, hbytes⟩ := List.mem_filterMap.mp ((Server.commandsTo_of_run hu s).subset hcmd)
  cases e with
  | packet c bytes junk =>
      rw [Event.command?] at hbytes
      split at hbytes
      next hptz =>
        obtain rfl := Option.some.inj hbytes
        obtain ⟨hlen, -⟩ := h.long_client he
        rw [decodeInt32_beyond_cmd junk hlen] at hptz
        exact ⟨hlen, Option.some.inj hptz⟩
      next => cases hbytes
  | _ => cases hbytes

/-- What a DVR makes of a packet. -/
theorem Sound.dvrReads (h : Sound uv garbage es b) (hx : b.unread (.dvr s) = some x)
    (g : Values NvmpName) :
    ∃ y, (b.dvrs s).mockDvrDispatchPacket x.2 g = some y ∧ y.Counts (b.heardBy (.dvr s) ++ [x]) ∧
      y.sent = (b.dvrs s).sent := by
  have hcounts := h.counts s
  have hpre := heardBy_concat hx
  obtain ⟨u, hu, hlog⟩ := h.sameLog
  rcases Server.toDvr_of_run hu s x (hlog ▸ hpre.subset (by simp)) with hcb | rfl
  · obtain ⟨hlen, hcmd⟩ := h.cmd_of_sendCmdToDvr hx hcb
    refine ⟨b.dvrs s, ?_, ?_, rfl⟩
    · exact MockDvr.mockDvrDispatchPacket_other hlen (by rw [hcmd]; decide)
    · exact hcounts.read x
  · -- it is the first that it is asked
    have hone : (b.heardBy (.dvr s)).countP (fun y => y.1 = .dvrPreview) = 0 := by
      have hle := hpre.sublist.countP_le (p := fun y => decide (y.1 = SendCb.dvrPreview))
      have hmax : previewsTo s b.server.log ≤ 1 := hlog ▸ Server.previewsTo_of_run hu s
      rw [previewsTo] at hmax
      rw [List.countP_append, List.countP_singleton] at hle
      simp at hle
      omega
    have hidle : (b.dvrs s).dvr = none := by
      by_contra hd
      have := hcounts.asked hd
      omega
    refine ⟨_, MockDvr.mockDvrDispatchPacket_preview (b.dvrs s) g, ?_, rfl⟩
    have hsent := hcounts.idle hidle
    exact
      { numbered := hcounts.numbered
        idle := fun hno => Option.noConfusion rfl (heq_of_eq hno)
        seqno := fun d hd => by
          obtain rfl := Option.some.inj hd
          show _ = MockDvr.sending (b.dvrs s).sent.length
          rw [hsent]
          rfl
        asked := fun _ => by simp }

/-- What the timer of a DVR does, for as long as the time fits an `int`. -/
theorem Sound.frameDue (h : Sound uv garbage es b) {bin : List Byte}
    (hbin : (b.dvrs s).dvr.map TestMockDvr.binLen = some (bin.length : Int)) (g : Values NvmpName) :
    if 40 * (b.dvrs s).sent.length < 2 ^ 31 then
      ∃ y p, (b.dvrs s).dvrSendFrame0 bin g = some y ∧ y.Counts (b.heardBy (.dvr s)) ∧
        y.sent = (b.dvrs s).sent ++ [p]
    else (b.dvrs s).dvrSendFrame0 bin g = none := by
  have hcounts := h.counts s
  obtain ⟨d, hd, hlen⟩ := Option.map_eq_some_iff.mp hbin
  obtain rfl := hcounts.seqno d hd
  have hle : bin.length < 2 ^ 64 := by
    have hmax : (bin.length : Int) ≤ max 593620 29585 := hlen ▸ TestMockDvr.binLen_le _
    omega
  obtain ⟨p, hlo, hword, heq⟩ := MockDvr.dvrSendFrame0_eq hd hle g
  generalize hn : (b.dvrs s).sent.length = n at *
  have hfits : (Fits 32 ((n : Int) * 40) ∧ Fits 32 ((n : Int) + 1)) ↔ 40 * n < 2 ^ 31 := by
    simp only [Fits]
    omega
  split
  next hlt =>
    refine ⟨_, p, heq.trans (if_pos (hfits.mpr hlt)), ?_, rfl⟩
    have hseq : (wordOf p 8).toInt = (b.dvrs s).sent.length := by
      rw [hword, hn]
      show (BitVec.ofInt 32 n).toInt = n
      exact BitVec.toInt_ofInt_eq_self (by decide) (by omega) (by omega)
    exact
      { numbered := hcounts.numbered.snoc hlo hseq
        idle := fun hno => Option.noConfusion rfl (heq_of_eq hno)
        seqno := fun d' hd' => by
          obtain rfl := Option.some.inj hd'
          show _ = MockDvr.sending ((b.dvrs s).sent ++ [p]).length
          rw [List.length_append, hn]
          rfl
        asked := fun _ => hcounts.asked (by simp [hd]) }
  next hge => exact heq.trans (if_neg fun hf => hge (hfits.mp hf))

theorem init_sound (ids : Nat → BitVec 64) (uv : Nat → Int) (garbage : Nat → Values NvmpName) :
    Sound uv garbage [] (init ids uv garbage) where
  run := .refl
  once := .nil
  brought _ := List.nil_prefix
  readFrom _ := rfl
  readBy _ := Nat.zero_le _
  spoke _ := .silent rfl rfl rfl
  counted _ :=
    { account := rfl
      last := rfl
      opened := fun _ => show (0 : Int) ≤ 20 by decide
      bounded := show (0 : Int) ≤ 21 by decide
      first := fun _ => rfl }
  counts _ := ⟨by simp [Numbered, init, MockDvr.init], fun _ => rfl, by simp [init, MockDvr.init],
    by simp [init, MockDvr.init]⟩

/-- A client is `y` now, and has read `n` packets. -/
theorem Sound.client (h : Sound uv garbage es b) {y : TestSmtsClient} {n : Nat}
    (hn : n ≤ (hears (.client c) b.server.log).length) (hspoke : y.Spoke)
    (hcounted : y.Counted ((hears (.client c) b.server.log).take n))
    (hsent : (b.clients c).sent <+: y.sent) :
    Sound uv garbage es
      { b.setClient c y with readBy := Function.update b.readBy (.client c) n } := by
  have hsents : ∀ d, (b.clients d).sent <+: (Function.update b.clients c y d).sent :=
    (Function.forall_update_iff b.clients fun d z => (b.clients d).sent <+: z.sent).mpr
      ⟨hsent, fun d _ => List.prefix_refl _⟩
  exact
    { run := h.run
      once := h.once
      brought := fun t => (h.brought t).trans (by
        cases t with
        | client d => exact hsents d
        | dvr s => exact List.prefix_refl _)
      readFrom := h.readFrom
      readBy := (Function.forall_update_iff _ fun t k => k ≤ (hears t b.server.log).length).mpr
        ⟨hn, fun t _ => h.readBy t⟩
      spoke := (Function.forall_update_iff b.clients fun _ z => z.Spoke).mpr
        ⟨hspoke, fun d _ => h.spoke d⟩
      counted := by
        refine (Function.forall_update_iff b.clients fun d z => z.Counted
          ((hears (.client d) b.server.log).take
            (Function.update b.readBy (.client c) n (.client d)))).mpr ⟨?_, fun d hd => ?_⟩
        · rwa [Function.update_self]
        · rw [Function.update_of_ne (by simpa using hd)]
          exact h.counted d
      counts := fun s => by
        show (b.dvrs s).Counts ((hears (.dvr s) b.server.log).take
          (Function.update b.readBy (.client c) n (.dvr s)))
        rw [Function.update_of_ne (by simp)]
        exact h.counts s }

/-- A DVR is `y` now, and has read `n` packets. -/
theorem Sound.dvr (h : Sound uv garbage es b) {y : MockDvr} {n : Nat}
    (hn : n ≤ (hears (.dvr s) b.server.log).length)
    (hcounts : y.Counts ((hears (.dvr s) b.server.log).take n)) (hsent : (b.dvrs s).sent <+: y.sent) :
    Sound uv garbage es { b.setDvr s y with readBy := Function.update b.readBy (.dvr s) n } := by
  have hsents : ∀ d, (b.dvrs d).sent <+: (Function.update b.dvrs s y d).sent :=
    (Function.forall_update_iff b.dvrs fun d z => (b.dvrs d).sent <+: z.sent).mpr
      ⟨hsent, fun d _ => List.prefix_refl _⟩
  exact
    { run := h.run
      once := h.once
      brought := fun t => (h.brought t).trans (by
        cases t with
        | client c => exact List.prefix_refl _
        | dvr d => exact hsents d)
      readFrom := h.readFrom
      readBy := (Function.forall_update_iff _ fun t k => k ≤ (hears t b.server.log).length).mpr
        ⟨hn, fun t _ => h.readBy t⟩
      spoke := h.spoke
      counted := fun c => by
        show (b.clients c).Counted ((hears (.client c) b.server.log).take
          (Function.update b.readBy (.dvr s) n (.client c)))
        rw [Function.update_of_ne (by simp)]
        exact h.counted c
      counts := by
        refine (Function.forall_update_iff b.dvrs fun d z => z.Counts
          ((hears (.dvr d) b.server.log).take
            (Function.update b.readBy (.dvr s) n (.dvr d)))).mpr ⟨?_, fun d hd => ?_⟩
        · rwa [Function.update_self]
        · rw [Function.update_of_ne (by simpa using hd)]
          exact h.counts d }

/-- A preview request is a client's first packet. -/
theorem Sound.first_of_preview (h : Sound uv garbage es b)
    (hnext : (b.clients c).sent[b.readFrom (.client c)]? = some bytes)
    (hprev : (Event.packet c bytes junk).preview = some c) : b.readFrom (.client c) = 0 := by
  have hword : ∀ q : List Byte, 8 ≤ q.length → cmdWord q = testPTZCmd.cmd → q ≠ bytes := by
    intro q hlen hcmd heq
    subst heq
    rw [preview_of_cmdWord c junk hlen, hcmd, if_neg (by decide)] at hprev
    cases hprev
  cases h.spoke c with
  | silent hsent =>
      rw [hsent] at hnext
      cases hnext
  | asked hsent =>
      rw [hsent] at hnext
      obtain ⟨hlt, -⟩ := List.getElem?_eq_some_iff.mp hnext
      exact Nat.lt_one_iff.mp hlt
  | @answered p q hsent _ _ hcmd hlen =>
      rw [hsent] at hnext
      obtain ⟨hlt, hget⟩ := List.getElem?_eq_some_iff.mp hnext
      by_contra hne
      have hone : b.readFrom (.client c) = 1 := by
        have hlt : b.readFrom (.client c) < 2 := hlt
        omega
      exact hword q hlen hcmd (by simpa [hone] using hget)

/-- No client sends a mock DVR's command. -/
theorem Sound.not_mocks (h : Sound uv garbage es b) {e : Event} (hoffers : b.Offers e) : ¬ e.Mocks := by
  cases e with
  | packet c bytes junk =>
      intro hmocks
      obtain ⟨i, hi⟩ : ∃ i, (b.clients c).sent[i]? = some bytes := ⟨_, hoffers (.client c, bytes) rfl⟩
      obtain ⟨hlen, hcmd⟩ := (h.spoke c).sends (List.mem_of_getElem? hi)
      have hword : cmdWord bytes = mockDvrPreview.cmd := by
        rw [Event.Mocks, decodeInt32_beyond_cmd junk hlen] at hmocks
        exact Option.some.inj hmocks
      rcases hcmd with hcmd | hcmd
      · exact absurd (hcmd.symm.trans hword) (by decide)
      · exact absurd (hcmd.symm.trans hword) (by decide)
  | _ => exact id

theorem log_of_allocStep {w w' : Server} {e : Event} (hstep : Server.AllocStep w e w') :
    ∃ m, w'.log = w.log ++ m := by
  rcases hstep with ⟨hen, fuel, hr⟩ | ⟨s₀, -, -, -, hen, fuel, hr⟩
  · obtain ⟨m, hm, -⟩ := (Server.handle_does_any hen hr).logs
    exact ⟨m, hm⟩
  · obtain ⟨m, hm, -⟩ := (Server.handle_does_any hen hr).logs
    exact ⟨m, hm⟩

/-- A callback of the server's keeps the test bed in order. -/
theorem Sound.served (h : Sound uv garbage es b) {e : Event} {w : Server} (hoffers : b.Offers e)
    (hdel : b.server.DeletesOwn e) (hstep : Server.AllocStep b.server e w) :
    Sound uv garbage (es ++ [e]) (b.served e w) := by
  obtain ⟨m, hm⟩ := log_of_allocStep hstep
  have hheard : ∀ t, hears t w.log = hears t b.server.log ++ hears t m := fun t => by
    rw [hm, hears_append]
  have hby : ∀ t, (hears t w.log).take (b.readBy t) = b.heardBy t := fun t => by
    rw [hheard, List.take_append_of_le_length (h.readBy t)]
    rfl
  exact
    { run := .snoc h.run ⟨⟨hdel, h.not_mocks hoffers⟩, hstep⟩
      once := by
        refine List.pairwise_append.mpr ⟨h.once, List.pairwise_singleton _ _, ?_⟩
        intro a ha a' ha' c hac hec
        obtain rfl := List.mem_singleton.mp ha'
        -- nothing of the client's was read before its preview request
        obtain ⟨bytes, junk, rfl⟩ := Server.Event.preview_eq_some hec
        have hzero := h.first_of_preview (hoffers (.client c, bytes) rfl) hec
        obtain ⟨bytes', junk', rfl⟩ := Server.Event.preview_eq_some hac
        have hmem : bytes' ∈ broughtBy (.client c) es := mem_broughtBy.mpr ⟨_, ha, rfl⟩
        rw [h.readFrom, List.length_eq_zero_iff] at hzero
        rw [hzero] at hmem
        cases hmem
      brought := fun t => by
        show broughtBy t (es ++ [e]) <+: b.sentBy t
        rw [broughtBy_snoc]
        cases he : e.brings with
        | none =>
            rw [broughtBy_none he, List.append_nil]
            exact h.brought t
        | some x =>
            obtain ⟨u, bytes⟩ := x
            rw [broughtBy_singleton he]
            by_cases hu : u = t
            · subst hu
              rw [if_pos rfl]
              have hnext := hoffers _ he
              rw [h.readFrom] at hnext
              exact prefix_concat (h.brought u) hnext
            · rw [if_neg hu, List.append_nil]
              exact h.brought t
      readFrom := fun t => by
        show b.readFrom t + (broughtBy t [e]).length = _
        rw [broughtBy_snoc, List.length_append, h.readFrom]
      readBy := fun t => by
        show b.readBy t ≤ (hears t w.log).length
        rw [hheard, List.length_append]
        exact Nat.le_add_right_of_le (h.readBy t)
      spoke := h.spoke
      counted := fun c => by
        show (b.clients c).Counted ((hears (.client c) w.log).take (b.readBy (.client c)))
        rw [hby]
        exact h.counted c
      counts := fun s => by
        show (b.dvrs s).Counts ((hears (.dvr s) w.log).take (b.readBy (.dvr s)))
        rw [hby]
        exact h.counts s }

/-- A step of a test client in which it reads nothing keeps the test bed in order. -/
theorem Sound.setClient (h : Sound uv garbage es b) {y : TestSmtsClient} (hspoke : y.Spoke)
    (hcounted : y.Counted (b.heardBy (.client c))) (hsent : (b.clients c).sent <+: y.sent) :
    Sound uv garbage es (b.setClient c y) := by
  have hsame := h.client (n := b.readBy (.client c)) (h.readBy _) hspoke hcounted hsent
  rwa [Function.update_eq_self] at hsame

theorem Sound.setDvr (h : Sound uv garbage es b) {y : MockDvr}
    (hcounts : y.Counts (b.heardBy (.dvr s))) (hsent : (b.dvrs s).sent <+: y.sent) :
    Sound uv garbage es (b.setDvr s y) := by
  have hsame := h.dvr (n := b.readBy (.dvr s)) (h.readBy _) hcounts hsent
  rwa [Function.update_eq_self] at hsame

/-- A step of one of the programs around the server. -/
theorem Sound.stepAround (h : Sound uv garbage es b) {b' : TestBed} {o : Occurrence}
    (ho : o.event? = none) (hstep : Step b o b') : Sound uv garbage es b' := by
  obtain ⟨fuel, hnext⟩ := hstep
  cases o with
  | server e => cases ho
  | connected c g =>
      rw [next] at hnext
      split at hnext
      next hsilent =>
        obtain ⟨y, hy, rfl⟩ := Option.map_eq_some_iff.mp hnext
        obtain ⟨p, hp, hcmd, hlen⟩ := (b.clients c).testClientOnConnected_spec g
        obtain rfl := Option.some.inj (hp.symm.trans hy)
        have hcounted := h.counted c
        refine h.setClient (.asked (p := p) ?_ hcmd hlen ?_) ?_ (List.prefix_append ..)
        · rw [hsilent]
          rfl
        · cases h.spoke c with
          | silent _ _ hst => exact hst
          | asked _ _ _ hst => exact hst
          | answered hsent => exact absurd hsilent (by simp [hsent])
        · exact hcounted.congr rfl rfl rfl rfl
      next => cases hnext
  | previewSent c =>
      rw [next] at hnext
      split at hnext
      next => cases hnext
      next hasked =>
        obtain rfl := Option.some.inj hnext
        have hcounted := h.counted c
        refine h.setClient ?_ ?_ (List.prefix_refl _)
        · cases h.spoke c with
          | silent hsent => exact absurd hsent hasked
          | asked h₁ h₂ h₃ h₄ => exact .asked h₁ h₂ h₃ h₄
          | answered h₁ h₂ h₃ h₄ h₅ h₆ => exact .answered h₁ h₂ h₃ h₄ h₅ h₆
        · exact hcounted.congr rfl rfl rfl rfl
  | clientReads c g g' =>
      rw [next] at hnext
      split at hnext
      next hreads =>
        obtain ⟨x, hx, hnext⟩ := Option.bind_eq_some_iff.mp hnext
        obtain ⟨res, hres, hnext⟩ := Option.bind_eq_some_iff.mp hnext
        obtain ⟨y, hy, hnext⟩ := Option.bind_eq_some_iff.mp hnext
        obtain rfl := Option.some.inj hnext
        obtain ⟨htake, hle⟩ := take_of_unread hx
        obtain ⟨-, -, herror⟩ | ⟨y', hok, hspoke, hcounted, hsent⟩ :=
          h.clientReads hx hreads.1 hreads.2 g g'
        · obtain rfl := Option.some.inj (herror.symm.trans hres)
          cases hy
        · obtain rfl := Option.some.inj (hok.symm.trans hres)
          obtain rfl := Option.some.inj hy
          exact h.client hle hspoke (htake ▸ hcounted) hsent
      next => cases hnext
  | dvrReads s g =>
      rw [next] at hnext
      split at hnext
      next hreads =>
        obtain ⟨x, hx, hnext⟩ := Option.bind_eq_some_iff.mp hnext
        obtain ⟨y, hy, hnext⟩ := Option.bind_eq_some_iff.mp hnext
        obtain rfl := Option.some.inj hnext
        obtain ⟨htake, hle⟩ := take_of_unread hx
        obtain ⟨y', hok, hcounts, hsent⟩ := h.dvrReads hx g
        obtain rfl := Option.some.inj (hok.symm.trans hy)
        exact h.dvr hle (htake ▸ hcounts) (hsent ▸ List.prefix_refl _)
      next => cases hnext
  | dvrReadError s =>
      rw [next] at hnext
      split at hnext
      next =>
        obtain rfl := Option.some.inj hnext
        exact h.setDvr ((h.counts s).congr rfl rfl) (List.prefix_refl _)
      next => cases hnext
  | frameDue s bin g =>
      rw [next] at hnext
      split at hnext
      next hdue =>
        obtain ⟨y, hy, rfl⟩ := Option.map_eq_some_iff.mp hnext
        have hsend := h.frameDue hdue.2 g
        split at hsend
        next =>
          obtain ⟨y', p, hok, hcounts, hsent⟩ := hsend
          obtain rfl := Option.some.inj (hok.symm.trans hy)
          exact h.setDvr hcounts (hsent ▸ List.prefix_append ..)
        next => cases hsend.symm.trans hy
      next => cases hnext
  | dvrStops s =>
      obtain rfl := Option.some.inj hnext
      exact h.setDvr ((h.counts s).congr rfl rfl) (List.prefix_refl _)

/-- **One step**, whoever takes it, keeps the test bed in order. -/
theorem Sound.step (h : Sound uv garbage es b) {b' : TestBed} {o : Occurrence} (hdel : b.DeletesOwn o)
    (hstep : Step b o b') : Sound uv garbage (es ++ o.event?.toList) b' := by
  cases ho : o.event? with
  | none =>
      rw [Option.toList_none, List.append_nil]
      exact h.stepAround ho hstep
  | some e =>
      cases o with
      | server x =>
          obtain rfl := Option.some.inj ho
          obtain ⟨fuel, hnext⟩ := hstep
          rw [next] at hnext
          split at hnext
          next hoffers =>
            obtain ⟨w, hw, rfl⟩ := Option.map_eq_some_iff.mp hnext
            exact h.served hoffers (hdel _ ho) (Server.allocStep_of_allocHandle hw)
          next => cases hnext
      | _ => cases ho

theorem sound_of_run {ids : Nat → BitVec 64} {os : List Occurrence}
    (h : Transition.Run (fun b o b' => b.DeletesOwn o ∧ Step b o b') (init ids uv garbage) os b) :
    Sound uv garbage (events os) b := by
  induction h with
  | refl => exact init_sound ids uv garbage
  | snoc _ hs ih =>
      rw [events_snoc]
      exact ih.step hs.1 hs.2

/-- **The assertions of the test programs**, in every run of the test bed in which
the server deletes no session in place of another: of a client's, only that its
preview was granted can fail, and does just when the response says so. Nobody
reads beyond a packet, no client reads more frames than it counts to, and a DVR's
clock goes wrong when it reaches 2^31 ms. -/
theorem asserts_of_recycling {ids : Nat → BitVec 64} {os : List Occurrence}
    (h : Transition.Run (fun b o b' => b.DeletesOwn o ∧ Step b o b') (init ids uv garbage) os b) :
    (∀ c x g g', b.unread (.client c) = some x → (b.clients c).reading = true →
      (b.clients c).closed = false →
        ((b.clients c).status = 0 ∧ (∃ r, x.2 = responsePacket r ∧ BitVec.ofInt 32 r ≠ 0) ∧
            (b.clients c).testClientOnReadPacket x.2 g g' = some (.error .previewStatus)) ∨
          ∃ y, (b.clients c).testClientOnReadPacket x.2 g g' = some (.ok y)) ∧
      (∀ c, (b.clients c).recvFrameAccount ≤ terminateSeqno + 1) ∧
      (∀ s x g, b.unread (.dvr s) = some x →
        ∃ y, (b.dvrs s).mockDvrDispatchPacket x.2 g = some y) ∧
      ∀ s bin g, (b.dvrs s).dvr.map TestMockDvr.binLen = some (bin.length : Int) →
        ((∃ y, (b.dvrs s).dvrSendFrame0 bin g = some y) ↔ 40 * (b.dvrs s).sent.length < 2 ^ 31) := by
  have hsound := sound_of_run h
  refine ⟨fun c x g g' hx hreading hopen => ?_, fun c => (hsound.counted c).bounded,
    fun s x g hx => ?_, fun s bin g hbin => ?_⟩
  · rcases hsound.clientReads hx hreading hopen g g' with herror | ⟨y, hok, -⟩
    · exact .inl herror
    · exact .inr ⟨y, hok⟩
  · obtain ⟨y, hy, -⟩ := hsound.dvrReads hx g
    exact ⟨y, hy⟩
  · have hsend := hsound.frameDue hbin g
    split at hsend
    next hlt =>
      obtain ⟨y, -, hy, -⟩ := hsend
      exact ⟨fun _ => hlt, fun _ => ⟨y, hy⟩⟩
    next hge =>
      rw [hsend]
      exact iff_of_false (by simp) hge

/-- The packet of a client that asks for the DVR 0. -/
def askedPacket : List Byte :=
  serFixed ((TestSmtsClient.init 0).previewReq Values.zero).stamped.vals previewCmd.fields

/-- The DVR answers, and the response is on its way to the client. -/
theorem asserts_of_recycling_askedPacket :
    ∃ b, Transition.Run (fun b o b' => b.DeletesOwn o ∧ Step b o b')
        (init (fun _ => 0) (fun _ => 0) fun _ => Values.zero)
        [.connected 0 Values.zero, .server (none, .connection), .previewSent 0,
          .server (none, .packet 0 askedPacket fun _ => 0), .server (none, .dvrConnected 0 0),
          .server (none, .writeDone 0 0)] b ∧
      b.unread (.client 0) = some (.previewResSlient, responsePacket 0) ∧
      ∃ y, (b.clients 0).testClientOnReadPacket (responsePacket 0) Values.zero Values.zero
        = some (.ok y) := by
  have hval : ((init (fun _ => 0) (fun _ => 0) fun _ => Values.zero).follow 3
      [.connected 0 Values.zero, .server (none, .connection), .previewSent 0,
        .server (none, .packet 0 askedPacket fun _ => 0), .server (none, .dvrConnected 0 0),
        .server (none, .writeDone 0 0)]).map (fun b =>
          (b.unread (.client 0), (b.clients 0).reading, (b.clients 0).closed))
      = some (some (.previewResSlient, responsePacket 0), true, false) := by
    decide +kernel
  obtain ⟨b, hb, hval⟩ := Option.map_eq_some_iff.mp hval
  obtain ⟨hunread, hopened⟩ := Prod.mk.inj hval
  obtain ⟨hreading, hopen⟩ := Prod.mk.inj hopened
  refine ⟨b, run_of_follow hb, hunread, ?_⟩
  have hword : ∀ r, wordOf (responsePacket r) 20 = BitVec.ofInt 32 r := by
    intro r
    rw [← List.append_nil (responsePacket r)]
    exact wordOf_wordsPacket _ _ (i := 5) (by simp)
  rcases (asserts_of_recycling (run_of_follow hb)).1 0 _ Values.zero Values.zero hunread hreading hopen with
    ⟨-, ⟨r, hr, hne⟩, -⟩ | hok
  · refine absurd ?_ hne
    rw [← hword r, ← hr, hword 0]
    rfl
  · exact hok

end Sound

end TestBed

end Smts
