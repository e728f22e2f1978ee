import Smts.Lib.Circular

/-!
# Session — the session manager

`session_manager.c`: a ring of sessions with a count. Whether a session is
there is asked by key, but it is unlinked by address.
-/

namespace Smts

open Circular

/-- `SESSION_TYPE_SMTS`, of `session_type_t`. The key holds any value of the
enumeration's integer type. -/
abbrev sessionTypeSmts : BitVec 32 := 0

/-- `session_key_t`. -/
structure SessionKey where
  dvrId : BitVec 64
  channelNo : BitVec 16
  frameMode : BitVec 32
  type : BitVec 32
deriving DecidableEq, Repr

/-- `compare_session_key(k1, k2) == 0`: the padding of a key is zero. -/
def compareSessionKey (k₁ k₂ : SessionKey) : Bool := k₁ == k₂

/-- The `QUEUE`s of the manager: its head, and the `session` field of every
session. -/
inductive ManagerNode where
  | head
  | session (s : Nat)
deriving DecidableEq, Repr

/-- The session a node is in; the head is in none. -/
def ManagerNode.session? : ManagerNode → Option Nat
  | .head => none
  | .session s => some s

/-- `session_manager_t`, with the links of all sessions. -/
structure SessionManager where
  links : Links ManagerNode
  size : Int

/-- `init_session_manager`. The links of the sessions are what they are. -/
def initSessionManager (links : Links ManagerNode) : SessionManager :=
  { links := links.init .head, size := 0 }

namespace SessionManager

/-- The test both loops make at a node. -/
def hasKey (keyOf : Nat → SessionKey) (key : SessionKey) : ManagerNode → Bool
  | .head => false
  | .session t => compareSessionKey key (keyOf t)

/-- The loop of `is_contain` and `get_session`: the first node with the key. -/
def search (keyOf : Nat → SessionKey) (fuel : Nat) (m : SessionManager) (key : SessionKey) :
    Option (Option ManagerNode) :=
  m.links.find? (hasKey keyOf key) .head fuel (m.links.next .head)

/-- `is_contain`. -/
def isContain (keyOf : Nat → SessionKey) (fuel : Nat) (m : SessionManager) (key : SessionKey) :
    Option Int := do
  match ← m.search keyOf fuel key with
  | some _ => some (-1)
  | none => some 0

/-- `add_session`. -/
def addSession (keyOf : Nat → SessionKey) (fuel : Nat) (m : SessionManager) :
    Option Nat → Option (SessionManager × Int)
  | none => some (m, -1)
  | some session => do
      let r ← m.isContain keyOf fuel (keyOf session)
      if r ≠ 0 then some (m, r)
      else some ({ links := m.links.insertHead .head (.session session), size := m.size + 1 }, r)

/-- `get_session`. -/
def getSession (keyOf : Nat → SessionKey) (fuel : Nat) (m : SessionManager) (key : SessionKey) :
    Option (Option Nat) := do
  match ← m.search keyOf fuel key with
  | some (.session t) => some (some t)
  | _ => some none

/-- `delete_session`. -/
def deleteSession (keyOf : Nat → SessionKey) (fuel : Nat) (m : SessionManager) :
    Option Nat → Option (SessionManager × Int)
  | none => some (m, -1)
  | some session => do
      let r ← m.isContain keyOf fuel (keyOf session)
      if r = 0 then some (m, 0)
      else some ({ links := m.links.remove (.session session), size := m.size - 1 }, 0)

/-- The sessions that the loops of the manager come to, of at most `fuel`. -/
def members (fuel : Nat) (m : SessionManager) : List Nat :=
  (m.links.walk .head fuel (m.links.next .head)).filterMap ManagerNode.session?

/-- The manager, when the links of the nodes in `D` are those of `g`. -/
def overlay (m : SessionManager) (D : ManagerNode → Bool) (g : Links ManagerNode) :
    SessionManager :=
  { m with links := m.links.overlay D g }

end SessionManager

/-! ## What the calls do to the links -/

section Links

variable {keyOf : Nat → SessionKey} {fuel : Nat} {m m' : SessionManager} {s : Nat} {r : Int}

theorem SessionManager.addSession_cases (h : m.addSession keyOf fuel (some s) = some (m', r)) :
    (r ≠ 0 ∧ m' = m) ∨ (r = 0 ∧ m'.links = m.links.insertHead .head (.session s)) := by
  obtain ⟨found, -, h⟩ := Option.bind_eq_some_iff.mp h
  split at h
  next hf =>
    obtain ⟨rfl, rfl⟩ := Prod.mk.inj (Option.some.inj h)
    exact .inl ⟨hf, rfl⟩
  next hf =>
    obtain ⟨rfl, rfl⟩ := Prod.mk.inj (Option.some.inj h)
    exact .inr ⟨by simpa using hf, rfl⟩

theorem SessionManager.deleteSession_cases
    (h : m.deleteSession keyOf fuel (some s) = some (m', r)) :
    (m.isContain keyOf fuel (keyOf s) = some 0 ∧ m' = m) ∨
      m'.links = m.links.remove (.session s) := by
  obtain ⟨found, hfound, h⟩ := Option.bind_eq_some_iff.mp h
  split at h
  next hf =>
    obtain ⟨rfl, -⟩ := Prod.mk.inj (Option.some.inj h)
    exact .inl ⟨hf ▸ hfound, rfl⟩
  next hf =>
    obtain ⟨rfl, -⟩ := Prod.mk.inj (Option.some.inj h)
    exact .inr rfl

/-- The session behind the head is found by its own key. -/
theorem SessionManager.isContain_first (hs : m.links.next .head = .session s) :
    m.isContain keyOf fuel (keyOf s) ≠ some 0 := by
  cases fuel with
  | zero => simp [SessionManager.isContain, SessionManager.search, Links.find?]
  | succ fuel =>
      simp [SessionManager.isContain, SessionManager.search, Links.find?, hs, hasKey,
        compareSessionKey]

/-- What `get_session` finds is a session to which another node leads. -/
theorem SessionManager.getSession_next {key : SessionKey}
    (h : m.getSession keyOf fuel key = some (some s)) :
    ∃ q, q ≠ .session s ∧ m.links.next q = .session s := by
  obtain ⟨found, hfound, h⟩ := Option.bind_eq_some_iff.mp h
  split at h
  next t =>
    obtain rfl := Option.some.inj (Option.some.inj h)
    obtain ⟨hp, q, hq, hnext⟩ := Links.find?_next rfl hfound
    refine ⟨q, ?_, hnext⟩
    rintro rfl
    rw [hp] at hq
    cases hq
  next => cases h

theorem SessionManager.getSession_unique {key : SessionKey} {fuel' : Nat} {a b : Option Nat}
    (ha : m.getSession keyOf fuel key = some a) (hb : m.getSession keyOf fuel' key = some b) :
    b = a := by
  obtain ⟨found, hfound, ha⟩ := Option.bind_eq_some_iff.mp ha
  obtain ⟨found', hfound', hb⟩ := Option.bind_eq_some_iff.mp hb
  obtain rfl := Links.find?_unique hfound hfound'
  exact Option.some.inj (hb.symm.trans ha)

theorem SessionManager.deleteSession_unique {fuel' : Nat} {a b : SessionManager × Int}
    (ha : m.deleteSession keyOf fuel (some s) = some a)
    (hb : m.deleteSession keyOf fuel' (some s) = some b) : b = a := by
  obtain ⟨x, hx, ha⟩ := Option.bind_eq_some_iff.mp ha
  obtain ⟨y, hy, hb⟩ := Option.bind_eq_some_iff.mp hb
  obtain ⟨found, hfound, hx⟩ := Option.bind_eq_some_iff.mp hx
  obtain ⟨found', hfound', hy⟩ := Option.bind_eq_some_iff.mp hy
  obtain rfl := Links.find?_unique hfound hfound'
  obtain rfl := Option.some.inj (hx.symm.trans hy)
  exact Option.some.inj (hb.symm.trans ha)

end Links

/-! ## Calls -/

/-- A call of the manager; a `NULL` session is `none`. -/
inductive ManagerCall where
  | add (session : Option Nat)
  | delete (session : Option Nat)
  | get (key : SessionKey)
deriving DecidableEq, Repr

/-- What a call of the session manager returns. -/
inductive ManagerResult where
  | status (r : Int)
  | session (s : Option Nat)
deriving DecidableEq, Repr

def SessionManager.call (keyOf : Nat → SessionKey) (fuel : Nat) (m : SessionManager) :
    ManagerCall → Option (SessionManager × ManagerResult)
  | .add s => (m.addSession keyOf fuel s).map fun (m, r) => (m, .status r)
  | .delete s => (m.deleteSession keyOf fuel s).map fun (m, r) => (m, .status r)
  | .get key => (m.getSession keyOf fuel key).map fun s => (m, .session s)

/-- The calls in order, with their results. -/
def SessionManager.calls (keyOf : Nat → SessionKey) (fuel : Nat) :
    SessionManager → List ManagerCall → Option (SessionManager × List ManagerResult)
  | m, [] => some (m, [])
  | m, c :: cs => do
      let (m, r) ← m.call keyOf fuel c
      let (m, rs) ← m.calls keyOf fuel cs
      some (m, r :: rs)

/-! ## The keyed set -/

/-- What the calls are meant to do: `l` are the sessions added and not since
deleted, the last one first. -/
def keyedCall (keyOf : Nat → SessionKey) (l : List Nat) :
    ManagerCall → List Nat × ManagerResult
  | .add none => (l, .status (-1))
  | .add (some s) =>
      if l.any fun t => keyOf t == keyOf s then (l, .status (-1)) else (s :: l, .status 0)
  | .delete none => (l, .status (-1))
  | .delete (some s) => (l.erase s, .status 0)
  | .get key => (l, .session (l.find? fun t => keyOf t == key))

def keyedCalls (keyOf : Nat → SessionKey) : List Nat → List ManagerCall →
    List Nat × List ManagerResult
  | l, [] => (l, [])
  | l, c :: cs =>
      let (l, r) := keyedCall keyOf l c
      let (l, rs) := keyedCalls keyOf l cs
      (l, r :: rs)

/-- The ring is `l`, forwards and backwards, `size` its length, and no two
keys in it are equal. -/
structure SessionManager.Exact (keyOf : Nat → SessionKey) (m : SessionManager) (l : List Nat) :
    Prop where
  ring : m.links.IsRing .head (l.map .session)
  size : m.size = l.length
  keys : (l.map keyOf).Nodup

instance (keyOf : Nat → SessionKey) (m : SessionManager) (l : List Nat) :
    Decidable (m.Exact keyOf l) :=
  decidable_of_iff (m.links.IsRing .head (l.map .session) ∧ m.size = l.length ∧ (l.map keyOf).Nodup)
    ⟨fun h => ⟨h.1, h.2.1, h.2.2⟩, fun h => ⟨h.ring, h.size, h.keys⟩⟩

/-- A call deletes a session that is in the set, or one whose key nobody in
the set has. -/
def DeletesMember (keyOf : Nat → SessionKey) (l : List Nat) : ManagerCall → Prop
  | .delete (some s) => s ∈ l ∨ ∀ t ∈ l, keyOf t ≠ keyOf s
  | _ => True

/-- Every call of a sequence deletes a member, or a session whose key nobody has. -/
def DeletesMembers (keyOf : Nat → SessionKey) : List Nat → List ManagerCall → Prop
  | _, [] => True
  | l, c :: cs =>
      DeletesMember keyOf l c ∧ DeletesMembers keyOf (keyedCall keyOf l c).1 cs

/-! ## The manager is the keyed set -/

section Exactness

variable {keyOf : Nat → SessionKey} {fuel : Nat} {m : SessionManager} {l : List Nat}

theorem initSessionManager_exact (links : Links ManagerNode) :
    (initSessionManager links).Exact keyOf [] where
  ring := Links.IsRing.init links .head
  size := rfl
  keys := List.nodup_nil

/-- For a manager that is exact only the keys of its members matter. -/
theorem SessionManager.Exact.congr {keyOf' : Nat → SessionKey} (he : m.Exact keyOf l)
    (hkey : ∀ t ∈ l, keyOf' t = keyOf t) : m.Exact keyOf' l :=
  ⟨he.ring, he.size, by rw [List.map_congr_left hkey]; exact he.keys⟩

/-- The links of a session that is no member may be made new. -/
theorem SessionManager.Exact.init_frame (he : m.Exact keyOf l) {s : Nat} (hs : s ∉ l) :
    SessionManager.Exact keyOf { m with links := m.links.init (.session s) } l :=
  ⟨he.ring.init_frame (by simpa using hs), he.size, he.keys⟩

theorem SessionManager.Exact.nodup (he : m.Exact keyOf l) : l.Nodup :=
  List.Nodup.of_map keyOf he.keys

theorem SessionManager.Exact.search (he : m.Exact keyOf l) (hfuel : l.length < fuel)
    (key : SessionKey) :
    m.search keyOf fuel key = some ((l.find? fun t => keyOf t == key).map .session) := by
  have hfind := he.ring.find? (hasKey keyOf key)
    (show (l.map ManagerNode.session).length < fuel by rwa [List.length_map])
  rw [SessionManager.search, hfind, List.find?_map]
  congr 3
  funext t
  exact Bool.beq_comm

theorem SessionManager.Exact.isContain (he : m.Exact keyOf l) (hfuel : l.length < fuel)
    (key : SessionKey) :
    m.isContain keyOf fuel key
      = some (if l.any fun t => keyOf t == key then -1 else 0) := by
  rw [SessionManager.isContain, he.search hfuel]
  cases hfind : l.find? fun t => keyOf t == key with
  | none =>
      have hany : (l.any fun t => keyOf t == key) = false := by
        simpa using hfind
      simp [hany]
  | some t =>
      have hany : (l.any fun t => keyOf t == key) = true := by
        simp only [List.any_eq_true]
        exact ⟨t, List.mem_of_find?_eq_some hfind, by simpa using List.find?_some hfind⟩
      simp [hany]

theorem notMem_ring {s : Nat}
    (hs : ∀ t ∈ l, keyOf t ≠ keyOf s) : ManagerNode.session s ∉ .head :: l.map .session := by
  simp only [List.mem_cons, reduceCtorEq, List.mem_map, ManagerNode.session.injEq,
    exists_eq_right, false_or]
  exact fun hmem => hs s hmem rfl

/-! The calls one by one. -/

theorem SessionManager.Exact.getSession (he : m.Exact keyOf l) (hfuel : l.length < fuel)
    (key : SessionKey) :
    m.getSession keyOf fuel key = some (l.find? fun t => keyOf t == key) := by
  rw [SessionManager.getSession, he.search hfuel]
  cases l.find? fun t => keyOf t == key <;> rfl

theorem SessionManager.Exact.addSession_known (he : m.Exact keyOf l) (hfuel : l.length < fuel)
    {s : Nat} (hany : (l.any fun t => keyOf t == keyOf s) = true) :
    m.addSession keyOf fuel (some s) = some (m, -1) := by
  simp [SessionManager.addSession, he.isContain hfuel, hany]

theorem SessionManager.Exact.addSession_new (he : m.Exact keyOf l) (hfuel : l.length < fuel)
    {s : Nat} (hnone : ∀ t ∈ l, keyOf t ≠ keyOf s) :
    ∃ m', m.addSession keyOf fuel (some s) = some (m', 0) ∧ m'.Exact keyOf (s :: l) := by
  have hany : (l.any fun t => keyOf t == keyOf s) = false := by
    simpa using hnone
  refine ⟨{ links := m.links.insertHead .head (.session s), size := m.size + 1 }, ?_, ?_, ?_, ?_⟩
  · simp [SessionManager.addSession, he.isContain hfuel, hany]
  · exact he.ring.insertHead (notMem_ring hnone)
  · simp [he.size]
  · rw [List.map_cons, List.nodup_cons]
    refine ⟨fun hmem => ?_, he.keys⟩
    obtain ⟨t, ht, hk⟩ := List.mem_map.mp hmem
    exact hnone t ht hk

theorem SessionManager.Exact.deleteSession_member (he : m.Exact keyOf l) (hfuel : l.length < fuel)
    {s : Nat} (hmem : s ∈ l) :
    ∃ m', m.deleteSession keyOf fuel (some s) = some (m', 0) ∧ m'.Exact keyOf (l.erase s) := by
  have hany : (l.any fun t => keyOf t == keyOf s) = true := by
    simp only [List.any_eq_true]
    exact ⟨s, hmem, beq_self_eq_true _⟩
  refine ⟨{ links := m.links.remove (.session s), size := m.size - 1 }, ?_, ?_, ?_, ?_⟩
  · simp [SessionManager.deleteSession, he.isContain hfuel, hany]
  · rw [List.map_erase fun _ _ h => ManagerNode.session.inj h]
    exact he.ring.remove (List.mem_map_of_mem hmem)
  · have hpos : 0 < l.length := List.length_pos_of_mem hmem
    simp only [he.size, List.length_erase_of_mem hmem]
    omega
  · exact ((List.erase_sublist).map keyOf).nodup he.keys

theorem SessionManager.Exact.deleteSession_unknown (he : m.Exact keyOf l) (hfuel : l.length < fuel)
    {s : Nat} (hnone : ∀ t ∈ l, keyOf t ≠ keyOf s) :
    m.deleteSession keyOf fuel (some s) = some (m, 0) := by
  have hany : (l.any fun t => keyOf t == keyOf s) = false := by
    simpa using hnone
  simp [SessionManager.deleteSession, he.isContain hfuel, hany]

/-- A call that deletes a member, or nobody, does what it is meant to. -/
theorem SessionManager.Exact.call (he : m.Exact keyOf l) (hfuel : l.length < fuel)
    {c : ManagerCall} (hc : DeletesMember keyOf l c) :
    ∃ m', m.call keyOf fuel c = some (m', (keyedCall keyOf l c).2) ∧
      m'.Exact keyOf (keyedCall keyOf l c).1 := by
  cases c with
  | add session =>
      cases session with
      | none => exact ⟨m, rfl, he⟩
      | some s =>
          by_cases hany : (l.any fun t => keyOf t == keyOf s) = true
          · refine ⟨m, ?_, ?_⟩
            · simp [SessionManager.call, he.addSession_known hfuel hany, keyedCall, hany]
            · simpa [keyedCall, hany] using he
          · obtain ⟨m', hadd, he'⟩ := he.addSession_new (s := s) hfuel (by simpa using hany)
            refine ⟨m', ?_, ?_⟩
            · simp [SessionManager.call, hadd, keyedCall, hany]
            · simpa [keyedCall, hany] using he'
  | delete session =>
      cases session with
      | none => exact ⟨m, rfl, he⟩
      | some s =>
          rcases hc with hmem | hnone
          · obtain ⟨m', hdel, he'⟩ := he.deleteSession_member hfuel hmem
            exact ⟨m', by simp [SessionManager.call, hdel, keyedCall], he'⟩
          · have hnot : s ∉ l := fun hmem => hnone s hmem rfl
            refine ⟨m, ?_, ?_⟩
            · simp [SessionManager.call, he.deleteSession_unknown hfuel hnone, keyedCall]
            · simpa [keyedCall, List.erase_of_not_mem hnot] using he
  | get key =>
      refine ⟨m, ?_, he⟩
      rw [SessionManager.call, he.getSession hfuel]
      rfl

/-- A call that deletes a stranger with a member's key does not. -/
theorem SessionManager.Exact.call_stranger (he : m.Exact keyOf l) (hfuel : l.length < fuel)
    {c : ManagerCall} (hc : ¬ DeletesMember keyOf l c) {m' : SessionManager} {r : ManagerResult}
    (hcall : m.call keyOf fuel c = some (m', r)) : ¬ m'.Exact keyOf (keyedCall keyOf l c).1 := by
  cases c with
  | add session => exact absurd trivial hc
  | get key => exact absurd trivial hc
  | delete session =>
      cases session with
      | none => exact absurd trivial hc
      | some s =>
          simp only [DeletesMember, not_or, not_forall, not_not] at hc
          obtain ⟨hnot, t, ht, hkey⟩ := hc
          have hany : (l.any fun t => keyOf t == keyOf s) = true := by
            simp only [List.any_eq_true]
            exact ⟨t, ht, by simpa using hkey⟩
          intro he'
          have hsize : m'.size = m.size - 1 := by
            simp [SessionManager.call, SessionManager.deleteSession, he.isContain hfuel, hany]
              at hcall
            rw [← hcall.1]
          have hlen := he'.size
          simp only [keyedCall, List.erase_of_not_mem hnot] at hlen
          have := he.size
          omega

/-! ## Nodes that nobody comes to -/

theorem SessionManager.Exact.members (he : m.Exact keyOf l) (hfuel : l.length ≤ fuel) :
    m.members fuel = l := by
  have hwalk : m.links.walk .head fuel (m.links.next .head) = l.map .session :=
    he.ring.walk (by rwa [List.length_map])
  rw [SessionManager.members, hwalk, List.filterMap_map]
  exact List.filterMap_some

theorem SessionManager.Exact.unique {l' : List Nat} (he : m.Exact keyOf l)
    {keyOf' : Nat → SessionKey} (he' : m.Exact keyOf' l') : l' = l := by
  refine List.map_injective_iff.mpr (fun _ _ h => ManagerNode.session.inj h) ?_
  exact he'.ring.unique he.ring

/-- Both sides of a deletion are members, or the head. -/
theorem SessionManager.Exact.apart (he : m.Exact keyOf l) {D : ManagerNode → Bool}
    (hD : ∀ q ∈ ManagerNode.head :: l.map .session, D q = false) {s : Nat} (hs : s ∈ l) :
    D (.session s) = false ∧ D (m.links.prev (.session s)) = false ∧
      D (m.links.next (.session s)) = false := by
  have hmem : ManagerNode.session s ∈ ManagerNode.head :: l.map .session :=
    List.mem_cons_of_mem _ (List.mem_map_of_mem hs)
  exact ⟨hD _ hmem, hD _ (he.ring.prev_mem hmem), hD _ (he.ring.next_mem hmem)⟩

section Overlay

variable {keyOf' : Nat → SessionKey} {D : ManagerNode → Bool} {g : Links ManagerNode} {s : Nat}

theorem SessionManager.Exact.search_overlay (he : m.Exact keyOf l)
    (hD : ∀ q ∈ ManagerNode.head :: l.map .session, D q = false)
    (hkey : ∀ t ∈ l, keyOf' t = keyOf t) (key : SessionKey) :
    (m.overlay D g).search keyOf' fuel key = m.search keyOf fuel key := by
  have hhead := hD .head List.mem_cons_self
  rw [SessionManager.search, SessionManager.search, SessionManager.overlay, Links.overlay_next hhead]
  refine Links.find?_congr (P := fun q => q ∈ ManagerNode.head :: l.map .session)
    (fun q hq => ⟨Links.overlay_next (hD q hq), he.ring.next_mem hq⟩) (fun q hq => ?_) fuel
    (he.ring.next_mem List.mem_cons_self)
  cases q with
  | head => rfl
  | session t =>
      have ht : t ∈ l := by simpa using hq
      rw [SessionManager.hasKey, SessionManager.hasKey, hkey t ht]

/-- An overlay that misses the manager's ring leaves it exact. -/
theorem SessionManager.Exact.overlay (he : m.Exact keyOf l)
    (hD : ∀ q ∈ ManagerNode.head :: l.map .session, D q = false)
    (hkey : ∀ t ∈ l, keyOf' t = keyOf t) : (m.overlay D g).Exact keyOf' l :=
  ({ ring := he.ring.congr (fun q hq => Links.overlay_next (hD q hq))
        fun q hq => Links.overlay_prev (hD q hq)
     size := he.size
     keys := he.keys } : (m.overlay D g).Exact keyOf l).congr hkey

theorem SessionManager.Exact.isContain_overlay (he : m.Exact keyOf l)
    (hD : ∀ q ∈ ManagerNode.head :: l.map .session, D q = false)
    (hkey : ∀ t ∈ l, keyOf' t = keyOf t) (key : SessionKey) :
    (m.overlay D g).isContain keyOf' fuel key = m.isContain keyOf fuel key := by
  rw [SessionManager.isContain, SessionManager.isContain, he.search_overlay hD hkey]

/-- `get_session` reads the links and keys of the members only. -/
theorem SessionManager.Exact.getSession_overlay (he : m.Exact keyOf l)
    (hD : ∀ q ∈ ManagerNode.head :: l.map .session, D q = false)
    (hkey : ∀ t ∈ l, keyOf' t = keyOf t) (key : SessionKey) :
    (m.overlay D g).getSession keyOf' fuel key = m.getSession keyOf fuel key := by
  rw [SessionManager.getSession, SessionManager.getSession, he.search_overlay hD hkey]

/-- Who has the key of a session that may be deleted is that session. -/
theorem SessionManager.Exact.mem_of_isContain (he : m.Exact keyOf l)
    (hown : DeletesMember keyOf l (.delete (some s))) {r : Int}
    (hr : m.isContain keyOf fuel (keyOf s) = some r) (hne : r ≠ 0) : s ∈ l := by
  refine hown.resolve_right fun hnone => ?_
  obtain ⟨found, hfound, hr⟩ := Option.bind_eq_some_iff.mp hr
  have hsearch := he.search (Nat.lt_succ_self _) (keyOf s)
  obtain rfl := Links.find?_unique hfound hsearch
  have hno : l.find? (fun t => keyOf t == keyOf s) = none := by simpa using hnone
  rw [hno] at hr
  exact hne (Option.some.inj hr).symm

/-- `delete_session` reads the members only, and writes to members. -/
theorem SessionManager.Exact.deleteSession_overlay (he : m.Exact keyOf l)
    (hD : ∀ q ∈ ManagerNode.head :: l.map .session, D q = false)
    (hkey : ∀ t ∈ l, keyOf' t = keyOf t) (hs : keyOf' s = keyOf s)
    (hown : DeletesMember keyOf l (.delete (some s))) :
    (m.overlay D g).deleteSession keyOf' fuel (some s)
      = (m.deleteSession keyOf fuel (some s)).map fun p => (p.1.overlay D g, p.2) := by
  rw [SessionManager.deleteSession, SessionManager.deleteSession, hs,
    he.isContain_overlay hD hkey]
  cases hr : m.isContain keyOf fuel (keyOf s) with
  | none => rfl
  | some r =>
      simp only [Option.bind_eq_bind, Option.bind_some]
      split
      · rfl
      next hne =>
        obtain ⟨hself, hprev, hnext⟩ := he.apart hD (he.mem_of_isContain hown hr hne)
        simp only [SessionManager.overlay, Links.overlay_remove hself hprev hnext, Option.map_some]

/-- A deletion that is allowed leaves the others. -/
theorem SessionManager.Exact.deleted (he : m.Exact keyOf l)
    (hown : DeletesMember keyOf l (.delete (some s))) {m' : SessionManager} {r : Int}
    (h : m.deleteSession keyOf fuel (some s) = some (m', r)) : m'.Exact keyOf (l.erase s) := by
  obtain ⟨m₁, hcall, he₁⟩ := he.call (Nat.lt_succ_self _) hown
  obtain ⟨⟨m₂, r₂⟩, hdel, hcall⟩ := Option.map_eq_some_iff.mp hcall
  obtain rfl : m₂ = m₁ := (Prod.mk.inj hcall).1
  obtain rfl := (Prod.mk.inj (SessionManager.deleteSession_unique h hdel)).1
  exact he₁

/-- A session that might be deleted before another one was may be deleted after
it. -/
theorem DeletesMember.erase {t : Nat} (hkeys : (l.map keyOf).Nodup)
    (h : DeletesMember keyOf l (.delete (some t))) (s : Nat) :
    DeletesMember keyOf (l.erase s) (.delete (some t)) := by
  have hnd := List.Nodup.of_map keyOf hkeys
  rcases h with hmem | hnone
  · by_cases hts : t = s
    · subst hts
      refine .inr fun u hu heq => ?_
      obtain ⟨hut, hul⟩ := hnd.mem_erase_iff.mp hu
      exact hut (List.inj_on_of_nodup_map hkeys hul hmem heq)
    · exact .inl (hnd.mem_erase_iff.mpr ⟨hts, hmem⟩)
  · exact .inr fun u hu => hnone u (List.mem_of_mem_erase hu)

/-- `add_session` of a session that is not in `D`. -/
theorem SessionManager.Exact.addSession_overlay (he : m.Exact keyOf l)
    (hD : ∀ q ∈ ManagerNode.head :: l.map .session, D q = false)
    (hkey : ∀ t ∈ l, keyOf' t = keyOf t) (hs : keyOf' s = keyOf s)
    (hself : D (.session s) = false) :
    (m.overlay D g).addSession keyOf' fuel (some s)
      = (m.addSession keyOf fuel (some s)).map fun p => (p.1.overlay D g, p.2) := by
  rw [SessionManager.addSession, SessionManager.addSession, hs, he.isContain_overlay hD hkey]
  cases hr : m.isContain keyOf fuel (keyOf s) with
  | none => rfl
  | some r =>
      simp only [Option.bind_eq_bind, Option.bind_some]
      split
      · rfl
      next hne =>
        have hsame : Function.update D (.session s) false = D := by
          rw [← hself, Function.update_eq_self]
        simp only [SessionManager.overlay, Links.overlay_insertHead (hD _ List.mem_cons_self)
          (hD _ (he.ring.next_mem List.mem_cons_self)), hsame, Option.map_some]

/-- A session that could be added is a member. -/
theorem SessionManager.Exact.added (he : m.Exact keyOf l) {m' : SessionManager}
    (h : m.addSession keyOf fuel (some s) = some (m', 0)) : m'.Exact keyOf (s :: l) := by
  obtain ⟨r, hr, h⟩ := Option.bind_eq_some_iff.mp h
  have hzero : r = 0 := by
    split at h
    next hne =>
      obtain ⟨-, rfl⟩ := Prod.mk.inj (Option.some.inj h)
      exact absurd rfl hne
    next hne => exact not_not.mp hne
  subst hzero
  obtain ⟨found, hfound, hr⟩ := Option.bind_eq_some_iff.mp hr
  have hsearch := he.search (Nat.lt_succ_self _) (keyOf s)
  obtain rfl := Links.find?_unique hfound hsearch
  have hnone : ∀ t ∈ l, keyOf t ≠ keyOf s := by
    intro t ht heq
    have hsome : (l.find? fun t => keyOf t == keyOf s).isSome :=
      List.find?_isSome.mpr ⟨t, ht, by simpa using heq⟩
    obtain ⟨u, hu⟩ := Option.isSome_iff_exists.mp hsome
    rw [hu] at hr
    exact absurd (Option.some.inj hr) (by decide)
  obtain ⟨m₁, hadd, he₁⟩ := he.addSession_new (Nat.lt_succ_self _) hnone
  obtain rfl : m' = _ := (Prod.mk.inj (Option.some.inj h)).1.symm
  simp only [SessionManager.addSession, Option.bind_eq_bind] at hadd
  obtain ⟨r₁, hr₁, hadd⟩ := Option.bind_eq_some_iff.mp hadd
  split at hadd
  next hne =>
    obtain ⟨-, rfl⟩ := Prod.mk.inj (Option.some.inj hadd)
    exact absurd rfl hne
  next => exact (Prod.mk.inj (Option.some.inj hadd)).1 ▸ he₁

end Overlay

theorem length_keyedCall (keyOf : Nat → SessionKey) (l : List Nat) (c : ManagerCall) :
    (keyedCall keyOf l c).1.length ≤ l.length + 1 := by
  cases c with
  | add session =>
      cases session with
      | none => simp [keyedCall]
      | some s =>
          simp only [keyedCall]
          split <;> simp
  | delete session =>
      cases session with
      | none => simp [keyedCall]
      | some s =>
          have := List.length_erase_le (a := s) (l := l)
          simp only [keyedCall]
          omega
  | get key => simp [keyedCall]

theorem calls_exact_iff (he : m.Exact keyOf l) {cs : List ManagerCall}
    (hfuel : l.length + cs.length < fuel) :
    (∀ cs₁, cs₁ <+: cs →
      ∃ m', m.calls keyOf fuel cs₁ = some (m', (keyedCalls keyOf l cs₁).2) ∧
        m'.Exact keyOf (keyedCalls keyOf l cs₁).1) ↔ DeletesMembers keyOf l cs := by
  induction cs generalizing m l with
  | nil =>
      refine ⟨fun _ => trivial, fun _ cs₁ hpre => ?_⟩
      rw [List.prefix_nil.mp hpre]
      exact ⟨m, rfl, he⟩
  | cons c cs ih =>
      rw [List.length_cons] at hfuel
      have hfuel' : (keyedCall keyOf l c).1.length + cs.length < fuel := by
        have := length_keyedCall keyOf l c
        omega
      constructor
      · intro hall
        obtain ⟨m₁, hcalls₁, he₁⟩ := hall [c] (by simp)
        obtain ⟨⟨m₂, r⟩, hcall, hrest⟩ := Option.bind_eq_some_iff.mp hcalls₁
        simp only [SessionManager.calls, Option.bind_eq_bind, Option.bind_some,
          Option.some.injEq, Prod.mk.injEq] at hrest
        obtain ⟨rfl, hr⟩ := hrest
        -- deleting a session that is no member, by the key of one, would leave another list
        have hmember : DeletesMember keyOf l c := by
          by_contra hc
          exact he.call_stranger (by omega) hc hcall he₁
        have he₁ : m₂.Exact keyOf (keyedCall keyOf l c).1 := he₁
        refine ⟨hmember, (ih he₁ hfuel').mp fun cs₁ hpre => ?_⟩
        obtain ⟨m₃, hcalls₃, he₃⟩ := hall (c :: cs₁) ((List.prefix_cons_inj c).mpr hpre)
        obtain ⟨⟨m₄, r₄⟩, hcall₄, hcalls₄⟩ := Option.bind_eq_some_iff.mp hcalls₃
        obtain ⟨rfl, rfl⟩ := Prod.mk.inj (Option.some.inj (hcall.symm.trans hcall₄))
        obtain ⟨⟨m₅, rs⟩, hcs, hrs⟩ := Option.bind_eq_some_iff.mp hcalls₄
        simp only [keyedCalls, Option.some.injEq, Prod.mk.injEq, List.cons.injEq] at hrs
        obtain ⟨rfl, -, hrs⟩ := hrs
        exact ⟨m₅, by rw [hcs, hrs], he₃⟩
      · rintro ⟨hmember, hrest⟩ cs₁ hpre
        obtain ⟨m₁, hcall, he₁⟩ := he.call (show l.length < fuel by omega) hmember
        cases cs₁ with
        | nil => exact ⟨m, rfl, he⟩
        | cons c' cs₁ =>
            obtain ⟨rfl, hpre'⟩ := List.cons_prefix_cons.mp hpre
            obtain ⟨m₂, hcs, he₂⟩ := (ih he₁ hfuel').mpr hrest cs₁ hpre'
            refine ⟨m₂, ?_, he₂⟩
            rw [SessionManager.calls, hcall]
            simp only [Option.bind_eq_bind, Option.bind_some, hcs, keyedCalls]

end Exactness

/-- **The manager is an exact keyed set**, results included, after every call
of a sequence, if and only if no call deletes a session that is not a member
but has a member's key. -/
theorem manager_exact_iff (keyOf : Nat → SessionKey) (links : Links ManagerNode) {fuel : Nat}
    {cs : List ManagerCall} (hfuel : cs.length < fuel) :
    (∀ cs₁, cs₁ <+: cs →
      ∃ m, (initSessionManager links).calls keyOf fuel cs₁
          = some (m, (keyedCalls keyOf [] cs₁).2) ∧
        m.Exact keyOf (keyedCalls keyOf [] cs₁).1) ↔ DeletesMembers keyOf [] cs :=
  calls_exact_iff (initSessionManager_exact links) (by simpa using hfuel)

/-- Two sessions, one after the other, with different keys. -/
theorem manager_exact_iff_twoSessions :
    ∃ m, (initSessionManager ⟨id, id⟩).calls (fun s => ⟨s, 0, 0, sessionTypeSmts⟩) 5
        [.add (some 1), .add (some 2), .delete (some 1)]
        = some (m, [.status 0, .status 0, .status 0]) ∧
      m.Exact (fun s => ⟨s, 0, 0, sessionTypeSmts⟩) [2] :=
  (manager_exact_iff (fun s => ⟨s, 0, 0, sessionTypeSmts⟩) ⟨id, id⟩ (by decide)).mpr
    (by simp [DeletesMembers, DeletesMember, keyedCall]) _ (List.prefix_refl _)

/-- A session is deleted again after another one with its key was added: the
other one is gone from the ring, and from the count. -/
theorem manager_not_exact :
    ¬ ∃ m, (initSessionManager ⟨id, id⟩).calls (fun _ => ⟨7, 0, 0, sessionTypeSmts⟩) 5
        [.add (some 1), .delete (some 1), .add (some 2), .delete (some 1)]
        = some (m, (keyedCalls (fun _ => ⟨7, 0, 0, sessionTypeSmts⟩) []
          [.add (some 1), .delete (some 1), .add (some 2), .delete (some 1)]).2) ∧
      m.Exact (fun _ => ⟨7, 0, 0, sessionTypeSmts⟩) (keyedCalls (fun _ => ⟨7, 0, 0, sessionTypeSmts⟩) []
          [.add (some 1), .delete (some 1), .add (some 2), .delete (some 1)]).1 := by
  rintro ⟨m, hcalls, he⟩
  have hsize : ((initSessionManager ⟨id, id⟩).calls (fun _ => ⟨7, 0, 0, sessionTypeSmts⟩) 5
      [.add (some 1), .delete (some 1), .add (some 2), .delete (some 1)]).map (·.1.size)
      = some 0 := by
    decide
  rw [hcalls] at hsize
  have hzero : m.size = 0 := Option.some.inj hsize
  have hlen := he.size
  rw [hzero] at hlen
  revert hlen
  decide

end Smts
