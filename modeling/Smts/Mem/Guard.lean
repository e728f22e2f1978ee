import Mathlib.Data.List.Perm.Subperm
import Smts.Lib.CString
import Smts.Lib.Circular
import Smts.Lib.Transition

/-!
# Mem — the memory guard

`mem_guard.c`: a ring of records, one for each guarded allocation, against the
table that it is to be. `free_guard` searches with a variable that every round of
the loop writes, so that a pointer without a record takes that of another with
it.
-/

namespace Smts

open CString Circular Transition

/-- `malloc_entity`, without the stack trace. -/
structure MallocEntity where
  file : Str
  line : BitVec 32
  fn : Str
  s : BitVec 64
  ptr : Nat
deriving DecidableEq, Repr

/-- The `QUEUE`s: `pool.entity`, and the `q` field of every record. -/
inductive PoolNode where
  | pool
  | entity (e : Nat)
deriving DecidableEq, Repr

/-- `pool`, and the records that have been allocated. -/
structure MemGuard where
  links : Links PoolNode
  entities : Nat → MallocEntity
  nEntities : Nat

namespace MemGuard

/-! ## mem_guard.c -/

/-- `init_mem_guard`. The memory of the records is what it is. -/
def initMemGuard (g : MemGuard) : MemGuard :=
  { g with links := g.links.init .pool }

/-- `malloc_guard`, where `x.ptr` is what `malloc(x.s)` has returned. -/
def mallocGuard (g : MemGuard) (x : MallocEntity) : MemGuard where
  links := (g.links.init (.entity g.nEntities)).insertHead .pool (.entity g.nEntities)
  entities := Function.update g.entities g.nEntities x
  nEntities := g.nEntities + 1

/-- The test of the loop: `c->ptr == ptr`. -/
def hasPtr (g : MemGuard) (ptr : Nat) : PoolNode → Bool
  | .pool => false
  | .entity e => (g.entities e).ptr == ptr

/-- `free_guard`. The loop comes to each record once at most. -/
def freeGuard (g : MemGuard) (ptr : Nat) : Option MemGuard :=
  if ptr = 0 then some g
  else
    (g.links.cursor (g.hasPtr ptr) .pool (g.nEntities + 1) (g.links.next .pool) none).map fun c =>
      c.elim g fun q => { g with links := g.links.remove q }

end MemGuard

/-! ## The table -/

/-- The guard, and the guarded allocations that are live. -/
structure Guarded where
  guard : MemGuard
  live : List MallocEntity

/-- The records in the pool are those of the live allocations, one each. -/
def Guarded.Exact (w : Guarded) : Prop :=
  ∃ l : List Nat, w.guard.links.IsRing .pool (l.map .entity) ∧
    (l.map w.guard.entities).Perm w.live

namespace Guarded

inductive Event where
  | mallocGuard (x : MallocEntity)
  | freeGuard (ptr : Nat)
deriving DecidableEq, Repr

/-- The state after `init_mem_guard`, with nothing allocated. -/
def init (g : MemGuard) : Guarded where
  guard := g.initMemGuard
  live := []

/-- `malloc` returns an address, and that of no live allocation. -/
inductive Step : Guarded → Event → Guarded → Prop where
  | mallocGuard {w : Guarded} {x : MallocEntity} (hptr : x.ptr ≠ 0)
      (hfresh : ∀ y ∈ w.live, y.ptr ≠ x.ptr) :
      Step w (.mallocGuard x) { guard := w.guard.mallocGuard x, live := x :: w.live }
  | freeGuard {w : Guarded} {ptr : Nat} {g : MemGuard} (hfree : w.guard.freeGuard ptr = some g) :
      Step w (.freeGuard ptr) { guard := g, live := w.live.filter fun y => y.ptr ≠ ptr }

/-- A pointer that is freed is a guarded one or null, or there is no record at
all. -/
def Careful (w : Guarded) : Event → Prop
  | .mallocGuard _ => True
  | .freeGuard ptr => ptr = 0 ∨ (∃ x ∈ w.live, x.ptr = ptr) ∨ w.live = []

/-- The pool is a ring of the records `l`. -/
structure Pool (g : MemGuard) (l : List Nat) : Prop where
  ring : g.links.IsRing .pool (l.map .entity)
  lt : ∀ e ∈ l, e < g.nEntities

/-- The invariant of `mem_guard`: it holds in every state of a run. -/
structure Inv (w : Guarded) : Prop where
  pool : ∃ l, Pool w.guard l
  ptr_ne : ∀ x ∈ w.live, x.ptr ≠ 0
  ptrs : (w.live.map MallocEntity.ptr).Nodup

section Pool

variable {g g' : MemGuard} {l : List Nat} {x : MallocEntity} {ptr : Nat}

theorem entity_injective : Function.Injective PoolNode.entity := fun _ _ h => PoolNode.entity.inj h

theorem Pool.nodup (h : Pool g l) : l.Nodup := h.ring.nodes_nodup.of_map _

/-- No record is in the pool twice, so there are not more than have been made. -/
theorem Pool.length_lt (h : Pool g l) : (l.map PoolNode.entity).length < g.nEntities + 1 := by
  have hsub : l.Subperm (List.range g.nEntities) :=
    h.nodup.subperm fun e he => List.mem_range.mpr (h.lt e he)
  have := hsub.length_le
  rw [List.length_range] at this
  rw [List.length_map]
  omega

theorem Pool.mallocGuard (h : Pool g l) (x : MallocEntity) :
    Pool (g.mallocGuard x) (g.nEntities :: l) := by
  have hnew : PoolNode.entity g.nEntities ∉ PoolNode.pool :: l.map PoolNode.entity := by
    intro hmem
    rcases List.mem_cons.mp hmem with hmem | hmem
    · cases hmem
    · obtain ⟨e, he, heq⟩ := List.mem_map.mp hmem
      obtain rfl := entity_injective heq
      exact absurd (h.lt _ he) (lt_irrefl _)
  constructor
  · exact (h.ring.init_frame hnew).insertHead hnew
  · intro e he
    rcases List.mem_cons.mp he with rfl | he
    · exact Nat.lt_succ_self _
    · exact (h.lt e he).trans (Nat.lt_succ_self _)

/-- The records that are there stay as they are. -/
theorem Pool.map_mallocGuard (h : Pool g l) (x : MallocEntity) :
    (g.nEntities :: l).map (g.mallocGuard x).entities = x :: l.map g.entities := by
  have hold : ∀ e ∈ l, (g.mallocGuard x).entities e = g.entities e := by
    intro e he
    exact Function.update_of_ne (h.lt e he).ne _ _
  rw [List.map_cons, List.map_congr_left hold]
  exact congrArg (· :: _) (Function.update_self ..)

/-- The record `free_guard` takes out: the first of the pointer, else the last of
all. -/
def victim (g : MemGuard) (ptr : Nat) (l : List Nat) : Option Nat :=
  (l.find? fun e => (g.entities e).ptr == ptr).or l.getLast?

theorem Pool.freeGuard (h : Pool g l) (hptr : ptr ≠ 0) :
    g.freeGuard ptr
      = some ((victim g ptr l).elim g fun e => { g with links := g.links.remove (.entity e) }) := by
  have hfind : (l.map PoolNode.entity).find? (g.hasPtr ptr)
      = (l.find? fun e => (g.entities e).ptr == ptr).map PoolNode.entity := List.find?_map ..
  rw [MemGuard.freeGuard, if_neg hptr, h.ring.cursor _ h.length_lt, hfind, List.getLast?_map,
    Option.or_none, ← Option.map_or, ← victim, Option.map_some]
  cases victim g ptr l <;> rfl

theorem mem_of_victim {e : Nat} (h : victim g ptr l = some e) : e ∈ l := by
  rw [victim] at h
  rcases Option.or_eq_some_iff.mp h with h | ⟨-, h⟩
  · exact List.mem_of_find?_eq_some h
  · exact List.mem_of_getLast? h

theorem Pool.remove (h : Pool g l) {e : Nat} (he : e ∈ l) :
    Pool { g with links := g.links.remove (.entity e) } (l.erase e) := by
  constructor
  · have hring := h.ring.remove (List.mem_map_of_mem he)
    rwa [← List.map_erase entity_injective] at hring
  · exact fun x hx => h.lt x (List.mem_of_mem_erase hx)

end Pool

/-! ## One step -/

section Steps

variable {w u : Guarded} {ptr : Nat} {g : MemGuard}

/-- Taking away what has the address of an allocation takes away that allocation
only. -/
theorem filter_ptr_eq {xs ys : List MallocEntity} {x : MallocEntity} (hperm : xs.Perm (x :: ys))
    (hnodup : (xs.map MallocEntity.ptr).Nodup) (hx : x.ptr = ptr) :
    (xs.filter fun y => y.ptr ≠ ptr).Perm ys := by
  have hnodup' := (hperm.map MallocEntity.ptr).nodup hnodup
  rw [List.map_cons, List.nodup_cons] at hnodup'
  have hothers : ∀ y ∈ ys, decide (y.ptr ≠ ptr) = true := by
    intro y hy
    rw [decide_eq_true_iff]
    rintro rfl
    exact hnodup'.1 (hx ▸ List.mem_map_of_mem hy)
  have hfilter := hperm.filter fun y => decide (y.ptr ≠ ptr)
  rwa [List.filter_cons_of_neg (by simpa using hx), List.filter_eq_self.mpr hothers] at hfilter

/-- Nothing goes when there is nothing of the address. -/
theorem filter_ptr_self {xs : List MallocEntity} (h : ∀ x ∈ xs, x.ptr ≠ ptr) :
    (xs.filter fun y => y.ptr ≠ ptr) = xs :=
  List.filter_eq_self.mpr fun x hx => decide_eq_true (h x hx)

theorem Pool.exact_iff {l : List Nat} (h : Pool w.guard l) :
    w.Exact ↔ (l.map w.guard.entities).Perm w.live := by
  constructor
  · rintro ⟨l', hring, hperm⟩
    rwa [List.map_injective_iff.mpr entity_injective (h.ring.unique hring)]
  · intro hperm
    exact ⟨l, h.ring, hperm⟩

theorem Inv.init (g : MemGuard) : Inv (init g) where
  pool := ⟨[], ⟨.init _ _, by simp⟩⟩
  ptr_ne := by simp [Guarded.init]
  ptrs := by simp [Guarded.init]

theorem exact_init (g : MemGuard) : (init g).Exact := ⟨[], .init _ _, .refl _⟩

theorem Inv.step {e : Event} (hinv : Inv w) (h : Step w e u) : Inv u := by
  obtain ⟨⟨l, hpool⟩, hne, hnodup⟩ := hinv
  cases h with
  | @mallocGuard x hptr hfresh =>
      refine ⟨⟨_, hpool.mallocGuard x⟩, ?_, ?_⟩
      · intro y hy
        rcases List.mem_cons.mp hy with rfl | hy
        · exact hptr
        · exact hne y hy
      · rw [List.map_cons, List.nodup_cons]
        refine ⟨fun hmem => ?_, hnodup⟩
        obtain ⟨y, hy, heq⟩ := List.mem_map.mp hmem
        exact hfresh y hy heq
  | @freeGuard ptr g hfree =>
      refine ⟨?_, fun y hy => hne y (List.mem_of_mem_filter hy),
        hnodup.sublist (List.filter_sublist.map _)⟩
      by_cases hptr : ptr = 0
      · rw [MemGuard.freeGuard, if_pos hptr] at hfree
        obtain rfl := Option.some.inj hfree
        exact ⟨l, hpool⟩
      · rw [hpool.freeGuard hptr] at hfree
        obtain rfl := Option.some.inj hfree
        rcases hvictim : victim w.guard ptr l with _ | e
        · exact ⟨l, hpool⟩
        · exact ⟨l.erase e, hpool.remove (mem_of_victim hvictim)⟩

theorem Inv.of_run {es : List Event} (h : Run Step (Guarded.init g) es w) : Inv w :=
  h.invariant (fun _ _ _ hinv hs => hinv.step hs) (Inv.init g)

/-- A new allocation gets a record, and the other records stay. -/
theorem exact_mallocGuard (hinv : Inv w) (hexact : w.Exact) (x : MallocEntity) :
    Exact { guard := w.guard.mallocGuard x, live := x :: w.live } := by
  obtain ⟨⟨l, hpool⟩, -, -⟩ := hinv
  rw [hpool.exact_iff] at hexact
  refine ⟨_, (hpool.mallocGuard x).ring, ?_⟩
  rw [hpool.map_mallocGuard]
  exact hexact.cons x

/-- A pointer that is freed takes its own record with it, or if it has none some
other. -/
theorem exact_freeGuard_iff (hinv : Inv w) (hexact : w.Exact)
    (hfree : w.guard.freeGuard ptr = some g) :
    Exact { guard := g, live := w.live.filter fun y => y.ptr ≠ ptr } ↔
      ptr = 0 ∨ (∃ x ∈ w.live, x.ptr = ptr) ∨ w.live = [] := by
  obtain ⟨⟨l, hpool⟩, hne, hnodup⟩ := hinv
  have hperm := hpool.exact_iff.mp hexact
  by_cases hptr : ptr = 0
  · rw [MemGuard.freeGuard, if_pos hptr] at hfree
    obtain rfl := Option.some.inj hfree
    refine iff_of_true ?_ (.inl hptr)
    rw [filter_ptr_self fun x hx => hptr ▸ hne x hx]
    exact hexact
  · rw [hpool.freeGuard hptr] at hfree
    obtain rfl := Option.some.inj hfree
    rcases hfind : l.find? fun e => (w.guard.entities e).ptr == ptr with _ | e
    · -- no record is of the pointer, so the last one goes
      have hnone : ∀ x ∈ w.live, x.ptr ≠ ptr := by
        intro x hx heq
        obtain ⟨e, he, rfl⟩ := List.mem_map.mp (hperm.mem_iff.mpr hx)
        exact List.find?_eq_none.mp hfind e he (beq_iff_eq.mpr heq)
      rw [filter_ptr_self hnone, or_iff_right hptr, or_iff_right (by simpa using hnone), victim,
        hfind, Option.none_or]
      rcases hlast : l.getLast? with _ | e
      · obtain rfl := List.getLast?_eq_none_iff.mp hlast
        exact iff_of_true hexact (List.nil_perm.mp hperm)
      · have he := List.mem_of_getLast? hlast
        have hrest := hpool.remove he
        refine iff_of_false (fun hexact' => ?_) fun hempty => ?_
        · have hlen := (hperm.trans ((Pool.exact_iff hrest).mp hexact').symm).length_eq
          have hpos := List.length_pos_of_mem he
          rw [List.length_map, List.length_map, List.length_erase_of_mem he] at hlen
          omega
        · rw [hempty, List.perm_nil, List.map_eq_nil_iff] at hperm
          rw [hperm] at he
          cases he
    -- a record is of the pointer, and of no other object's, since addresses are distinct
    · have he := List.mem_of_find?_eq_some hfind
      have heptr : (w.guard.entities e).ptr = ptr := by simpa using List.find?_some hfind
      have hmem := hperm.mem_iff.mp (List.mem_map_of_mem he)
      have hlive := hperm.symm.trans ((List.perm_cons_erase he).map w.guard.entities)
      refine iff_of_true ?_ (.inr (.inl ⟨_, hmem, heptr⟩))
      rw [victim, hfind, Option.some_or]
      exact ⟨_, (hpool.remove he).ring, (filter_ptr_eq hlive hnodup heptr).symm⟩

/-- A step keeps the table exact just when it is a careful one. -/
theorem exact_step_iff {e : Event} (hinv : Inv w) (hexact : w.Exact) (h : Step w e u) :
    u.Exact ↔ Careful w e := by
  cases h with
  | @mallocGuard x hptr hfresh => exact iff_of_true (exact_mallocGuard hinv hexact x) trivial
  | freeGuard hfree => exact exact_freeGuard_iff hinv hexact hfree

/-- `free_guard` comes to an end, whatever it is given. -/
theorem exists_freeGuard (hinv : Inv w) (ptr : Nat) : ∃ u, Step w (.freeGuard ptr) u := by
  obtain ⟨⟨l, hpool⟩, -, -⟩ := hinv
  by_cases hptr : ptr = 0
  · exact ⟨_, .freeGuard (if_pos hptr)⟩
  · exact ⟨_, .freeGuard (hpool.freeGuard hptr)⟩

theorem Step.unique {e : Event} {u' : Guarded} (h : Step w e u) (h' : Step w e u') : u' = u := by
  cases h with
  | mallocGuard _ _ =>
      cases h' with
      | mallocGuard _ _ => rfl
  | freeGuard hfree =>
      cases h' with
      | freeGuard hfree' =>
          obtain rfl := Option.some.inj (hfree.symm.trans hfree')
          rfl

end Steps

/-! ## Runs -/

/-- **The memory guard.** The table is exact in every state of a run just when in
each step that frees a pointer, the pointer is null or guarded or the pool is
empty. -/
theorem forall_exact_iff {g : MemGuard} {es : List Event} {w : Guarded}
    (h : Run Step (init g) es w) :
    (∀ es' w', es' <+: es → Run Step (init g) es' w' → w'.Exact) ↔
      Run (fun w e w' => Step w e w' ∧ Careful w e) (init g) es w := by
  refine Run.forall_prefix_iff (P := fun _ w' => w'.Exact) ?_ (exact_init g) ?_ h
  · intro w e u u' hs hs'
    exact hs.unique hs'
  · intro es w e u hrun hexact hs
    exact exact_step_iff (.of_run hrun) hexact hs

/-! ## One allocation -/

/-- `malloc_guard("1", 2, "3", 4)`. -/
def record : MallocEntity where
  file := [49]
  line := 2
  fn := [51]
  s := 4
  ptr := 8

/-- The memory of `mem_guard` before it is initialised. -/
def memory : MemGuard where
  links := ⟨id, id⟩
  entities := fun _ => record
  nEntities := 0

/-- The state after `init_mem_guard` and that one allocation. -/
def one : Guarded where
  guard := memory.initMemGuard.mallocGuard record
  live := [record]

theorem one_run : Run Step (init memory) [.mallocGuard record] one :=
  .single (.mallocGuard (by decide) (by simp [init]))

/-- An allocation, and the free of its pointer, leave the records exact. -/
theorem forall_exact_iff_pair : ∃ w,
    Run Step (init memory) ([.mallocGuard record] ++ [.freeGuard 8]) w ∧ w.Exact := by
  obtain ⟨w, hw⟩ := exists_freeGuard (.of_run one_run) 8
  have hcareful : Careful one (.freeGuard 8) := .inr (.inl ⟨record, List.mem_singleton_self _, rfl⟩)
  have hrun := Run.snoc one_run hw
  refine ⟨w, hrun, (forall_exact_iff hrun).mpr ?_ _ w (List.prefix_refl _) hrun⟩
  exact .snoc (.single ⟨.mallocGuard (by decide) (by simp [init]), trivial⟩) ⟨hw, hcareful⟩

/-- A pointer that is not guarded takes the record with it. -/
theorem not_exact_other : ¬ ∀ g es w, Run Step (init g) es w → w.Exact := by
  intro hall
  have hinv := Inv.of_run one_run
  obtain ⟨w, hw⟩ := exists_freeGuard hinv 16
  have hcareful :=
    (exact_step_iff hinv (hall _ _ _ one_run) hw).mp (hall _ _ _ (one_run.snoc hw))
  rcases hcareful with h | ⟨x, hx, h⟩ | h
  · cases h
  · obtain rfl := List.mem_singleton.mp hx
    cases h
  · cases h

end Guarded

end Smts
