import Smts.Lib.Transition
import Mathlib.Data.List.Rotate
import Mathlib.Tactic.Ring

/-!
# Net — the local addresses

`net_addrs_util.c`: the addresses of the machine's own interfaces, handed out
in turn to the connects that bind to one. `count`, `index` and `ips` are
changed by three functions, none of which sets all three.
-/

namespace Smts

open Transition

/-- `MAX_IP_SIZE`. -/
def maxIpSize : Nat := 16

/-- `uv_interface_address_t`: the family is `AF_INET`, the interface is
internal, and the text `uv_ip4_name` makes of the address. -/
structure InterfaceAddress where
  inet : Bool
  isInternal : Bool
  ip : String
deriving DecidableEq, Repr

/-- The test that both loops of `init_smts_addrs` make: an IPv4 address that is
not internal. -/
def InterfaceAddress.usable (x : InterfaceAddress) : Bool := x.inet && !x.isInternal

/-- A `char*` that `smts_get_one_addrs` returns; `wild` is `n` bytes behind
`NULL`. -/
inductive IpPtr where
  | null
  | slot (ips i : Nat)
  | wild (n : Nat)
deriving DecidableEq, Repr

/-- `addrs`, with the blocks `ips` was ever set to. A slot that was not written
holds nothing. -/
structure StmsAddrs where
  count : Nat
  index : Nat
  ips : Option Nat
  blocks : List (List (Option String))
deriving DecidableEq, Repr

namespace StmsAddrs

def init : StmsAddrs := { count := 0, index := 0, ips := none, blocks := [] }

/-- The second loop of `init_smts_addrs`, for one interface. A store outside
the block has no result. -/
def record (a : StmsAddrs) (x : InterfaceAddress) : Option StmsAddrs :=
  if x.usable then do
    let b ← a.ips
    let slots ← a.blocks[b]?
    if a.index < slots.length then
      some { a with
        blocks := a.blocks.set b (slots.set a.index (some x.ip))
        index := a.index + 1 }
    else none
  else some a

/-- `init_smts_addrs`; `answer` is what `uv_interface_addresses` has to say.
The size of the block is computed as an `int`. -/
def initSmtsAddrs (a : StmsAddrs) : Except Int (List InterfaceAddress) → Option (StmsAddrs × Int)
  | .error r => some (a, r)
  | .ok interfaces => do
      let count := a.count + interfaces.countP InterfaceAddress.usable
      if count * maxIpSize < 2 ^ 31 then
        let a : StmsAddrs :=
          { count := count, index := 0, ips := some a.blocks.length
            blocks := a.blocks ++ [List.replicate count none] }
        let a ← interfaces.foldlM record a
        some ({ a with index := 0 }, a.count)
      else none

/-- `destory_smts_addrs`. -/
def destorySmtsAddrs (a : StmsAddrs) : StmsAddrs :=
  if 0 < a.count then { a with ips := none } else a

/-- `(*addrs.ips)[i]`. -/
def ipAt : Option Nat → Nat → IpPtr
  | some b, i => .slot b i
  | none, 0 => .null
  | none, i + 1 => .wild ((i + 1) * maxIpSize)

/-- `smts_get_one_addrs`. -/
def smtsGetOneAddrs (a : StmsAddrs) : StmsAddrs × IpPtr :=
  if 0 < a.count then
    ({ a with index := (a.index + 1) % a.count }, ipAt a.ips a.index)
  else (a, .null)

/-- The text behind a pointer, where one was written. -/
def text (a : StmsAddrs) : IpPtr → Option String
  | .slot b i => (a.blocks[b]?.bind (·[i]?)).join
  | _ => none

/-- What `n` calls of `smts_get_one_addrs`, one after the other, return. -/
def gets (a : StmsAddrs) : Nat → List IpPtr
  | 0 => []
  | n + 1 => a.smtsGetOneAddrs.2 :: a.smtsGetOneAddrs.1.gets n

end StmsAddrs

/-! ## Calls -/

inductive AddrsCall where
  | init (answer : Except Int (List InterfaceAddress))
  | get
  | destory

namespace AddrsCall

/-- The addresses of the interfaces `init_smts_addrs` looks for. -/
def names (interfaces : List InterfaceAddress) : List String :=
  (interfaces.filter InterfaceAddress.usable).map InterfaceAddress.ip

/-- The addresses the last init found, unless a destroy has come since. -/
def recorded (calls : List AddrsCall) : Option (List String) :=
  calls.foldl (fun found c => match c with
    | init (.ok interfaces) => some (names interfaces)
    | init (.error _) | get => found
    | destory => none) none

/-- How many usable addresses the last successful `init_smts_addrs` of the calls
found. -/
def found (calls : List AddrsCall) : Nat :=
  calls.foldl (fun m c => match c with
    | init (.ok interfaces) => (names interfaces).length
    | _ => m) 0

end AddrsCall

namespace StmsAddrs

/-- The state that a call leaves, unless the call has no defined effect. -/
def after (a : StmsAddrs) : AddrsCall → Option StmsAddrs
  | .init answer => (a.initSmtsAddrs answer).map Prod.fst
  | .get => some a.smtsGetOneAddrs.1
  | .destory => some a.destorySmtsAddrs

/-- A call the module is written for: an init that starts from `count` 0 and
whose block has an `int` size, a get that does not come after the block was
given back. (A get at index 0 of no block happens to return `NULL`.) -/
def Fits (a : StmsAddrs) : AddrsCall → Prop
  | .init (.ok interfaces) =>
      a.count = 0 ∧ interfaces.countP InterfaceAddress.usable * maxIpSize < 2 ^ 31
  | .init (.error _) | .destory => True
  | .get => a.ips = none → a.count = 0 ∨ a.index = 0

/-- A get returns `NULL` when there is nothing to hand out, and else one of the
addresses found. -/
def Answers (a : StmsAddrs) (recorded : Option (List String)) (p : IpPtr) : Prop :=
  (recorded = none ∨ recorded = some [] → p = .null) ∧
    ∀ ips, recorded = some ips → ips ≠ [] → ∃ ip ∈ ips, a.text p = some ip

/-- The index stays in the list, and as many gets as it has entries return each
of them once. -/
structure RoundRobin (a : StmsAddrs) (recorded : Option (List String)) (found : Nat) : Prop where
  index_lt : 0 < found → a.index < found
  cycle : ∀ ips, recorded = some ips → (a.gets ips.length).Nodup ∧
    ((a.gets ips.length).map a.text).Perm (ips.map some)

/-! ## Gets -/

/-- In turn, and from the front again after the last. -/
theorem gets_eq {a : StmsAddrs} (h : a.index < a.count) (n : Nat) :
    a.gets n = (List.range n).map fun k => ipAt a.ips ((a.index + k) % a.count) := by
  induction n generalizing a with
  | zero => rfl
  | succ n ih =>
      have hpos : 0 < a.count := by omega
      have hget : a.smtsGetOneAddrs
          = ({ a with index := (a.index + 1) % a.count }, ipAt a.ips a.index) := by
        rw [smtsGetOneAddrs, if_pos hpos]
      rw [gets, hget, ih (Nat.mod_lt _ hpos), List.range_succ_eq_map, List.map_cons, List.map_map]
      congr 1
      · simp [Nat.mod_eq_of_lt h]
      · apply List.map_congr_left
        intro k _
        rw [Function.comp_apply, Nat.mod_add_mod, Nat.add_assoc, Nat.add_comm 1 k]

/-- As many calls as there are addresses return each of them once: the list,
rotated to where the index stood. -/
theorem gets_count {a : StmsAddrs} (h : a.index < a.count) :
    a.gets a.count = ((List.range a.count).rotate a.index).map (ipAt a.ips) := by
  rw [gets_eq h]
  apply List.ext_getElem
  · simp
  · intro k hk _
    simp [List.getElem_rotate, Nat.add_comm]

/-! ## Inits -/

/-- What the second loop does to a block of which `done` is written. -/
theorem record_foldlM {a : StmsAddrs} {b : Nat} {bs : List (List (Option String))}
    {interfaces : List InterfaceAddress} (done : List String) (free : Nat)
    (hips : a.ips = some b) (hb : b = bs.length) (hindex : a.index = done.length)
    (hblocks : a.blocks = bs ++ [done.map some ++ List.replicate free none])
    (hfree : interfaces.countP InterfaceAddress.usable ≤ free) :
    interfaces.foldlM record a = some { a with
      index := done.length + interfaces.countP InterfaceAddress.usable
      blocks := bs ++ [(done ++ AddrsCall.names interfaces).map some ++
        List.replicate (free - interfaces.countP InterfaceAddress.usable) none] } := by
  induction interfaces generalizing a done free with
  | nil =>
      cases a
      simp_all [AddrsCall.names]
  | cons x xs ih =>
      rw [List.foldlM_cons]
      -- an interface that counts takes the next free slot
      by_cases hx : x.usable = true
      · rw [List.countP_cons_of_pos hx] at hfree ⊢
        obtain ⟨n, rfl⟩ : ∃ n, free = n + 1 := ⟨free - 1, by omega⟩
        have hslots : a.blocks[b]? = some (done.map some ++ List.replicate (n + 1) none) := by
          rw [hblocks, hb, List.getElem?_concat_length]
        have hset : (done.map some ++ List.replicate (n + 1) none).set done.length (some x.ip)
            = (done ++ [x.ip]).map some ++ List.replicate n none := by
          simp [List.replicate_succ]
        have hrec : record a x = some { a with
            blocks := bs ++ [(done ++ [x.ip]).map some ++ List.replicate n none]
            index := (done ++ [x.ip]).length } := by
          simp only [record, hx, if_true, hips, hslots, Option.bind_eq_bind, Option.bind_some,
            hindex, List.length_append, List.length_map, List.length_replicate]
          rw [if_pos (by omega), hset, hblocks, hb]
          simp
        rw [hrec, Option.bind_eq_bind, Option.bind_some,
          ih (done ++ [x.ip]) n (a := { a with
            blocks := bs ++ [(done ++ [x.ip]).map some ++ List.replicate n none]
            index := (done ++ [x.ip]).length }) hips rfl rfl (by omega)]
        simp [AddrsCall.names, hx, Nat.add_assoc, Nat.add_comm 1, Nat.add_sub_add_right]
      · rw [List.countP_cons_of_neg hx] at hfree ⊢
        have hrec : record a x = some a := by simp [record, hx]
        rw [hrec, Option.bind_eq_bind, Option.bind_some, ih done free hips hindex hblocks hfree]
        simp [AddrsCall.names, hx]

theorem length_names (interfaces : List InterfaceAddress) :
    (AddrsCall.names interfaces).length = interfaces.countP InterfaceAddress.usable := by
  rw [AddrsCall.names, List.length_map, List.countP_eq_length_filter]

/-- An init that starts from nothing records just what it found. -/
theorem initSmtsAddrs_of_fits {a : StmsAddrs} {interfaces : List InterfaceAddress}
    (h : a.Fits (.init (.ok interfaces))) :
    a.initSmtsAddrs (.ok interfaces) = some
      ({ count := (AddrsCall.names interfaces).length, index := 0, ips := some a.blocks.length
         blocks := a.blocks ++ [(AddrsCall.names interfaces).map some] },
        ((AddrsCall.names interfaces).length : Int)) := by
  obtain ⟨hcount, hsize⟩ := h
  have hfold := record_foldlM [] (interfaces.countP InterfaceAddress.usable)
    (a := { count := interfaces.countP InterfaceAddress.usable, index := 0
            ips := some a.blocks.length
            blocks := a.blocks ++
              [List.replicate (interfaces.countP InterfaceAddress.usable) none] })
    rfl rfl rfl rfl le_rfl
  simp only [initSmtsAddrs, hcount, Nat.zero_add, if_pos hsize, hfold, Option.bind_eq_bind,
    Option.bind_some, length_names]
  simp

/-! ## Runs -/

/-- What the three globals have to do with what was found. -/
structure Tracks (a : StmsAddrs) (recorded : Option (List String)) (found : Nat) : Prop where
  count : a.count = found
  index_lt : 0 < found → a.index < found
  idle : recorded = none → found = 0 ∨ a.ips = none
  held : ∀ ips, recorded = some ips → ips.length = found ∧
    ∃ b, a.ips = some b ∧ a.blocks[b]? = some (ips.map some)

variable {a a' : StmsAddrs} {recorded : Option (List String)} {found : Nat} {ips : List String}
  {interfaces : List InterfaceAddress}

theorem init_tracks : Tracks init none 0 where
  count := rfl
  index_lt := fun h => absurd h (Nat.lt_irrefl 0)
  idle := fun _ => .inl rfl
  held := by simp

theorem Tracks.init (h : a.Fits (.init (.ok interfaces)))
    (hstep : a.after (.init (.ok interfaces)) = some a') :
    Tracks a' (some (AddrsCall.names interfaces)) (AddrsCall.names interfaces).length := by
  rw [after, initSmtsAddrs_of_fits h, Option.map_some] at hstep
  obtain rfl := Option.some.inj hstep
  refine ⟨rfl, id, by simp, ?_⟩
  intro ips hips
  obtain rfl := Option.some.inj hips
  exact ⟨rfl, _, rfl, by simp⟩

theorem Tracks.get (h : Tracks a recorded found) :
    Tracks a.smtsGetOneAddrs.1 recorded found := by
  unfold smtsGetOneAddrs
  split
  next hpos =>
    refine ⟨h.count, fun _ => ?_, h.idle, h.held⟩
    rw [← h.count]
    exact Nat.mod_lt _ hpos
  next => exact h

theorem Tracks.destory (h : Tracks a recorded found) : Tracks a.destorySmtsAddrs none found := by
  unfold destorySmtsAddrs
  split
  next => exact ⟨h.count, h.index_lt, fun _ => .inr rfl, by simp⟩
  next hpos =>
    refine ⟨h.count, h.index_lt, fun _ => .inl ?_, by simp⟩
    have := h.count
    omega

/-- The entries that a round returns hold the texts that the last init put
there. -/
theorem Tracks.text (h : Tracks a (some ips) found) {i : Nat} (hi : i < ips.length) :
    a.text (ipAt a.ips i) = some ips[i] := by
  obtain ⟨-, b, hb, hblocks⟩ := h.held ips rfl
  simp [StmsAddrs.text, hb, ipAt, hblocks, hi]

theorem ipAt_injective (b : Nat) : Function.Injective (ipAt (some b)) := by
  intro i j hij
  exact (IpPtr.slot.inj hij).2

theorem Tracks.answers (h : Tracks a recorded found) (hfits : a.Fits .get) :
    Answers a recorded a.smtsGetOneAddrs.2 := by
  have hcount := h.count
  constructor
  · intro hnone
    unfold smtsGetOneAddrs
    split
    next hpos =>
      rcases hnone with rfl | rfl
      · obtain hzero | hips := h.idle rfl
        · omega
        · obtain hzero | hindex := hfits hips
          · omega
          · rw [hips, hindex, ipAt]
      · have := (h.held [] rfl).1
        rw [List.length_nil] at this
        omega
    next => rfl
  · rintro ips rfl hne
    have hlen := (h.held ips rfl).1
    have hpos : 0 < ips.length := List.length_pos_iff.mpr hne
    have hi : a.index < ips.length := by
      have := h.index_lt (by omega)
      omega
    refine ⟨ips[a.index], List.getElem_mem hi, ?_⟩
    rw [smtsGetOneAddrs, if_pos (by omega)]
    exact h.text hi

theorem Tracks.roundRobin (h : Tracks a recorded found) : RoundRobin a recorded found where
  index_lt := h.index_lt
  cycle := by
    rintro ips rfl
    obtain ⟨hlen, b, hb, -⟩ := h.held ips rfl
    rcases Nat.eq_zero_or_pos found with rfl | hpos
    · rw [List.length_eq_zero_iff] at hlen
      subst hlen
      exact ⟨List.nodup_nil, List.Perm.nil⟩
    · have hcount : ips.length = a.count := by rw [h.count, hlen]
      have hget := gets_count (a := a) (by rw [h.count]; exact h.index_lt hpos)
      rw [hcount, hget]
      constructor
      · rw [hb, List.nodup_map_iff (ipAt_injective b), List.nodup_rotate]
        exact List.nodup_range
      · have htext : (List.range a.count).map (a.text ∘ ipAt a.ips) = ips.map some := by
          apply List.ext_getElem
          · simp [hcount]
          · intro i hi _
            have hi : i < ips.length := by simpa [hcount] using hi
            simpa using h.text hi
        rw [List.map_map, List.map_rotate, htext]
        exact List.rotate_perm ..

theorem Tracks.step {calls : List AddrsCall} {c : AddrsCall}
    (h : Tracks a (AddrsCall.recorded calls) (AddrsCall.found calls)) (hfits : a.Fits c)
    (hstep : a.after c = some a') :
    Tracks a' (AddrsCall.recorded (calls ++ [c])) (AddrsCall.found (calls ++ [c])) := by
  simp only [AddrsCall.recorded, AddrsCall.found, List.foldl_append, List.foldl_cons,
    List.foldl_nil]
  cases c with
  | init answer =>
      cases answer with
      | error r =>
          obtain rfl := Option.some.inj hstep
          exact h
      | ok interfaces => exact .init hfits hstep
  | get =>
      obtain rfl := Option.some.inj hstep
      exact h.get
  | destory =>
      obtain rfl := Option.some.inj hstep
      exact h.destory

/-- One call that the module is written for. -/
def Step (a : StmsAddrs) (c : AddrsCall) (a' : StmsAddrs) : Prop := a.after c = some a'

theorem tracks_of_run {calls : List AddrsCall}
    (h : Run (fun a c a' => a.Fits c ∧ Step a c a') init calls a) :
    Tracks a (AddrsCall.recorded calls) (AddrsCall.found calls) := by
  induction h with
  | refl => exact init_tracks
  | snoc _ hstep ih => exact ih.step hstep.1 hstep.2

theorem after_isSome {c : AddrsCall} (h : a.Fits c) : (a.after c).isSome := by
  cases c with
  | init answer =>
      cases answer with
      | error r => rfl
      | ok interfaces => rw [after, initSmtsAddrs_of_fits h]; rfl
  | get => rfl
  | destory => rfl

/-- **The addresses are handed out in turn.** While each call is one the module
is written for: every such call has a result, a get returns what it should, and
the rounds are whole. -/
theorem addrs_roundRobin {calls : List AddrsCall}
    (h : Run (fun a c a' => a.Fits c ∧ Step a c a') init calls a) :
    (∀ c, a.Fits c → (a.after c).isSome) ∧
      (a.Fits .get → Answers a (AddrsCall.recorded calls) a.smtsGetOneAddrs.2) ∧
      RoundRobin a (AddrsCall.recorded calls) (AddrsCall.found calls) :=
  ⟨fun _ => after_isSome, (tracks_of_run h).answers, (tracks_of_run h).roundRobin⟩

/-- A machine with a loopback and two addresses to hand out. -/
def twoInterfaces : List InterfaceAddress :=
  [{ inet := true, isInternal := true, ip := "127.0.0.1" },
    { inet := true, isInternal := false, ip := "192.168.3.19" },
    { inet := true, isInternal := false, ip := "10.0.0.7" }]

theorem addrs_roundRobin_twoInterfaces :
    ∃ a, Run (fun a c a' => a.Fits c ∧ Step a c a') init [.init (.ok twoInterfaces), .get] a ∧
      RoundRobin a (some ["192.168.3.19", "10.0.0.7"]) 2 := by
  have h : Run (fun a c a' => a.Fits c ∧ Step a c a') init
      ([] ++ [.init (.ok twoInterfaces)] ++ [.get])
      { count := 2, index := 1, ips := some 0
        blocks := [[some "192.168.3.19", some "10.0.0.7"]] } :=
    .snoc (.snoc .refl ⟨⟨rfl, by decide⟩, rfl⟩) ⟨nofun, rfl⟩
  exact ⟨_, h, (addrs_roundRobin h).2.2⟩

/-- The second init counts on from the first: after two gets the module hands
out a slot that was never written. -/
theorem not_answers_twoInterfaces :
    ¬ ∀ calls a, Run Step init calls a → Answers a (AddrsCall.recorded calls) a.smtsGetOneAddrs.2 := by
  intro hall
  have h : Run Step init ([] ++ [.init (.ok twoInterfaces)] ++ [.init (.ok twoInterfaces)] ++
        [.get] ++ [.get])
      { count := 4, index := 2, ips := some 1
        blocks := [[some "192.168.3.19", some "10.0.0.7"],
          [some "192.168.3.19", some "10.0.0.7", none, none]] } :=
    .snoc (.snoc (.snoc (.snoc .refl rfl) rfl) rfl) rfl
  obtain ⟨ip, -, htext⟩ := (hall _ _ h).2 ["192.168.3.19", "10.0.0.7"] rfl (by simp)
  cases htext

end StmsAddrs

end Smts
