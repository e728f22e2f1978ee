import Smts.Lib.Lockstep
import Mathlib.Logic.Function.Basic
import Mathlib.Data.List.Nodup

/-!
# Circular — doubly linked rings through embedded link fields

A node is an address; the links of all nodes are two maps. A ring is a head
node and the list of nodes met from it going forwards. Nothing here knows
what the nodes are embedded in: the operations are the four pointer
assignments of the usual macros, in their order, so a wrong call (a node
inserted twice, a node removed twice) has the effect it has in memory.
-/

namespace Circular

/-- The forward and backward link of every node. -/
@[ext]
structure Links (ν : Type) where
  next : ν → ν
  prev : ν → ν

namespace Links

variable {ν : Type}

section Ops

variable [DecidableEq ν]

def setNext (m : Links ν) (q x : ν) : Links ν :=
  { m with next := Function.update m.next q x }

def setPrev (m : Links ν) (q x : ν) : Links ν :=
  { m with prev := Function.update m.prev q x }

/-- `q` becomes a ring of its own. -/
def init (m : Links ν) (q : ν) : Links ν :=
  (m.setNext q q).setPrev q q

/-- Link `q` in behind `h`. The last two writes read the links the first
two left, as the assignments of the macro do. -/
def insertHead (m : Links ν) (h q : ν) : Links ν :=
  let m₁ := m.setNext q (m.next h)
  let m₂ := m₁.setPrev q h
  let m₃ := m₂.setPrev (m₂.next q) q
  m₃.setNext h q

/-- Unlink `q` from its neighbours. Its own links keep their values. -/
def remove (m : Links ν) (q : ν) : Links ν :=
  let m₁ := m.setNext (m.prev q) (m.next q)
  m₁.setPrev (m₁.next q) (m₁.prev q)

/-- `for (q = next h; q != h; q = next q) body(q)`, entered at `q`. The
successor is read after the body has run. `none` is a loop that has not
ended within `fuel` rounds. -/
def forEach {σ : Type} (links : σ → Links ν) (body : ν → σ → Option σ) (h : ν) :
    Nat → ν → σ → Option σ
  | 0, _, _ => none
  | fuel + 1, q, s =>
      if q = h then some s
      else do
        let s ← body q s
        forEach links body h fuel ((links s).next q) s

/-- The loop that returns the first node satisfying `p`, entered at `q`. -/
def find? (m : Links ν) (p : ν → Bool) (h : ν) : Nat → ν → Option (Option ν)
  | 0, _ => none
  | fuel + 1, q =>
      if q = h then some none
      else if p q then some (some q)
      else find? m p h fuel (m.next q)

/-- The loop that keeps the node it is at in a variable `c`, and stops at the
first node satisfying `p`, entered at `q`. -/
def cursor (m : Links ν) (p : ν → Bool) (h : ν) : Nat → ν → Option ν → Option (Option ν)
  | 0, _, _ => none
  | fuel + 1, q, c =>
      if q = h then some c
      else if p q then some (some q)
      else cursor m p h fuel (m.next q) (some q)

/-- The nodes that a loop over the ring of `h` comes to, entered at `q`. -/
def walk (m : Links ν) (h : ν) : Nat → ν → List ν
  | 0, _ => []
  | fuel + 1, q => if q = h then [] else q :: walk m h fuel (m.next q)

end Ops

/-! ## What a ring is -/

/-- From `a` the links run forwards through `l` to `b`, and back. -/
def Linked (m : Links ν) : ν → List ν → ν → Prop
  | a, [], b => m.next a = b ∧ m.prev b = a
  | a, x :: l, b => (m.next a = x ∧ m.prev x = a) ∧ Linked m x l b

/-- `h` is the head of a ring whose other nodes are `l`, going forwards. -/
structure IsRing (m : Links ν) (h : ν) (l : List ν) : Prop where
  linked : Linked m h l h
  nodup : (h :: l).Nodup

instance decidableLinked [DecidableEq ν] (m : Links ν) :
    (a : ν) → (l : List ν) → (b : ν) → Decidable (Linked m a l b)
  | _, [], _ => inferInstanceAs (Decidable (_ ∧ _))
  | _, x :: l, b =>
      have := decidableLinked m x l b
      inferInstanceAs (Decidable ((_ ∧ _) ∧ Linked m x l b))

instance [DecidableEq ν] (m : Links ν) (h : ν) (l : List ν) : Decidable (IsRing m h l) :=
  decidable_of_iff (Linked m h l h ∧ (h :: l).Nodup) ⟨fun r => ⟨r.1, r.2⟩, fun r => ⟨r.linked, r.nodup⟩⟩

theorem Linked.next_eq {m : Links ν} {a b : ν} {l : List ν} (h : Linked m a l b) :
    m.next a = l.headD b := by
  cases l with
  | nil => exact h.1
  | cons x l => exact h.1.1

theorem Linked.prev_mem {m : Links ν} {a b : ν} {l : List ν} (h : Linked m a l b) :
    m.prev b ∈ a :: l := by
  induction l generalizing a with
  | nil => simp [h.2]
  | cons x l ih => exact List.mem_cons_of_mem a (ih h.2)

theorem Linked.next_mem {m : Links ν} {a b : ν} {l : List ν} (h : Linked m a l b) :
    m.next a ∈ l ++ [b] := by
  cases l with
  | nil => simp [h.1]
  | cons x l => simp [h.1.1]

/-- A path depends only on the forward links it leaves by and the backward
links it arrives at. -/
theorem Linked.congr {m m' : Links ν} {a b : ν} {l : List ν} (h : Linked m a l b)
    (hn : ∀ x ∈ a :: l, m'.next x = m.next x)
    (hp : ∀ x ∈ l ++ [b], m'.prev x = m.prev x) : Linked m' a l b := by
  induction l generalizing a with
  | nil => exact ⟨by rw [hn a (by simp), h.1], by rw [hp b (by simp), h.2]⟩
  | cons x l ih =>
      refine ⟨⟨by rw [hn a (by simp), h.1.1], by rw [hp x (by simp), h.1.2]⟩, ?_⟩
      exact ih h.2 (fun y hy => hn y (List.mem_cons_of_mem a hy))
        (fun y hy => hp y (by
          rw [List.cons_append]
          exact List.mem_cons_of_mem x hy))

theorem linked_append {m : Links ν} {a b x : ν} {l₁ l₂ : List ν} :
    Linked m a (l₁ ++ x :: l₂) b ↔ Linked m a l₁ x ∧ Linked m x l₂ b := by
  induction l₁ generalizing a with
  | nil => exact Iff.rfl
  | cons y l₁ ih =>
      simp only [List.cons_append, Linked, ih, and_assoc]

/-- The links determine the path: two paths between the same nodes are equal. -/
theorem Linked.unique {m : Links ν} {a b : ν} {l l' : List ν} (h : Linked m a l b)
    (h' : Linked m a l' b) (hl : b ∉ l) (hl' : b ∉ l') : l = l' := by
  induction l generalizing a l' with
  | nil =>
      cases l' with
      | nil => rfl
      | cons y l' => exact absurd (h'.1.1.symm.trans h.1) (List.ne_of_not_mem_cons hl').symm
  | cons x l ih =>
      cases l' with
      | nil => exact absurd (h.1.1.symm.trans h'.1) (List.ne_of_not_mem_cons hl).symm
      | cons y l' =>
          obtain rfl : x = y := h.1.1.symm.trans h'.1.1
          rw [ih h.2 h'.2 (List.not_mem_of_not_mem_cons hl) (List.not_mem_of_not_mem_cons hl')]

namespace IsRing

theorem head_notMem {m : Links ν} {h : ν} {l : List ν} (r : IsRing m h l) : h ∉ l :=
  (List.nodup_cons.mp r.nodup).1

theorem nodes_nodup {m : Links ν} {h : ν} {l : List ν} (r : IsRing m h l) : l.Nodup :=
  (List.nodup_cons.mp r.nodup).2

theorem unique {m : Links ν} {h : ν} {l l' : List ν} (r : IsRing m h l) (r' : IsRing m h l') :
    l = l' :=
  r.linked.unique r'.linked r.head_notMem r'.head_notMem

theorem init [DecidableEq ν] (m : Links ν) (h : ν) : IsRing (m.init h) h [] where
  linked := by simp [Linked, Links.init, setNext, setPrev]
  nodup := by simp

/-- A ring's links lead to its own nodes. -/
theorem next_mem {m : Links ν} {h q : ν} {l : List ν} (r : IsRing m h l)
    (hq : q ∈ h :: l) : m.next q ∈ h :: l := by
  rcases List.mem_cons.mp hq with rfl | hq
  · simpa [or_comm] using r.linked.next_mem
  · obtain ⟨l₁, l₂, rfl⟩ := List.append_of_mem hq
    have := (linked_append.mp r.linked).2.next_mem
    simp only [List.mem_append, List.mem_cons, List.not_mem_nil, or_false] at this ⊢
    tauto

theorem prev_mem {m : Links ν} {h q : ν} {l : List ν} (r : IsRing m h l)
    (hq : q ∈ h :: l) : m.prev q ∈ h :: l := by
  rcases List.mem_cons.mp hq with rfl | hq
  · exact r.linked.prev_mem
  · obtain ⟨l₁, l₂, rfl⟩ := List.append_of_mem hq
    have := (linked_append.mp r.linked).1.prev_mem
    simp only [List.mem_append, List.mem_cons] at this ⊢
    tauto

/-- A ring stays a ring when no link of its nodes changes. -/
theorem congr {m m' : Links ν} {h : ν} {l : List ν} (r : IsRing m h l)
    (hn : ∀ x ∈ h :: l, m'.next x = m.next x)
    (hp : ∀ x ∈ h :: l, m'.prev x = m.prev x) : IsRing m' h l :=
  ⟨r.linked.congr hn (fun x hx => hp x (by simpa [or_comm] using hx)), r.nodup⟩

theorem prev_ne_self {m : Links ν} {h q : ν} {l : List ν} (r : IsRing m h l)
    (hq : q ∈ l) : q ≠ m.prev q := by
  intro he
  obtain ⟨l₁, l₂, rfl⟩ := List.append_of_mem hq
  have hp := (linked_append.mp r.linked).1.prev_mem
  rw [← he] at hp
  have hnd := r.nodup
  simp only [List.nodup_cons, List.mem_append, List.mem_cons, not_or,
    List.nodup_append] at hnd
  rcases List.mem_cons.mp hp with rfl | hp
  · exact hnd.1.2.1 rfl
  · exact hnd.2.2.2 q hp q (.inl rfl) rfl

end IsRing

section Edits

variable [DecidableEq ν]

/-! ## Insertion -/

theorem insertHead_next {m : Links ν} {h q x : ν} (hx : x ≠ q) (hh : x ≠ h) :
    (m.insertHead h q).next x = m.next x := by
  simp [insertHead, setNext, setPrev, hx, hh]

theorem insertHead_prev {m : Links ν} {h q x : ν} (hx : x ≠ q) (hh : x ≠ m.next h) :
    (m.insertHead h q).prev x = m.prev x := by
  simp [insertHead, setNext, setPrev, hx, hh]

/-- Inserting a node that is in no way part of the ring puts it in front. -/
theorem IsRing.insertHead {m : Links ν} {h q : ν} {l : List ν} (r : IsRing m h l)
    (hq : q ∉ h :: l) : IsRing (m.insertHead h q) h (q :: l) := by
  obtain ⟨hqh, hql⟩ := List.ne_and_not_mem_of_not_mem_cons hq
  have hnext : m.next h = l.headD h := r.linked.next_eq
  refine ⟨⟨⟨?_, ?_⟩, ?_⟩, ?_⟩
  · simp [Links.insertHead, setNext]
  · have hne : q ≠ m.next h := fun he =>
      hq (he ▸ r.next_mem (List.mem_cons_self ..))
    simp [Links.insertHead, setNext, setPrev, hne]
  · -- behind `q` the old path goes on; only its first backward link is new
    cases l with
    | nil =>
        have hn : m.next h = h := hnext
        simp [Linked, Links.insertHead, setNext, setPrev, hqh, hn]
    | cons x l =>
        have hn : m.next h = x := hnext
        have hnd := r.nodup
        simp only [List.nodup_cons, List.mem_cons, not_or] at hnd
        simp only [List.mem_cons, not_or] at hql
        refine ⟨⟨?_, ?_⟩, r.linked.2.congr ?_ ?_⟩
        · simp [Links.insertHead, setNext, setPrev, hqh, hn]
        · simp [Links.insertHead, setNext, setPrev, hn]
        · intro y hy
          rcases List.mem_cons.mp hy with rfl | hy
          · exact insertHead_next (Ne.symm hql.1) (Ne.symm hnd.1.1)
          · exact insertHead_next (fun he => hql.2 (he ▸ hy)) (fun he => hnd.1.2 (he ▸ hy))
        · intro y hy
          rw [List.mem_append, List.mem_singleton] at hy
          rcases hy with hy | rfl
          · exact insertHead_prev (fun he => hql.2 (he ▸ hy))
              (fun he => hnd.2.1 (hn ▸ he ▸ hy))
          · exact insertHead_prev (Ne.symm hqh) (by rw [hn]; exact hnd.1.1)
  · have hnd := r.nodup
    simp only [List.nodup_cons, List.mem_cons, not_or] at hnd hq ⊢
    exact ⟨⟨Ne.symm hq.1, hnd.1⟩, hq.2, hnd.2⟩

/-- Insertion into one ring leaves a ring with other nodes alone. -/
theorem IsRing.insertHead_frame {m : Links ν} {h q h' : ν} {l l' : List ν}
    (r : IsRing m h l) (r' : IsRing m h' l') (hq : q ∉ h' :: l')
    (hd : ∀ x ∈ h :: l, x ∉ h' :: l') : IsRing (m.insertHead h q) h' l' := by
  refine r'.congr (fun x hx => insertHead_next ?_ ?_) (fun x hx => insertHead_prev ?_ ?_)
  · exact fun he => hq (he ▸ hx)
  · exact fun he => hd h (List.mem_cons_self ..) (he ▸ hx)
  · exact fun he => hq (he ▸ hx)
  · exact fun he => hd _ (r.next_mem (List.mem_cons_self ..)) (he ▸ hx)

/-! ## Removal -/

theorem remove_next {m : Links ν} {q x : ν} (hx : x ≠ m.prev q) :
    (m.remove q).next x = m.next x := by
  simp [remove, setNext, setPrev, hx]

theorem remove_prev {m : Links ν} {q x : ν} (hx : x ≠ m.next q) :
    (m.remove q).prev x = m.prev x := by
  by_cases hq : q = m.prev q
  · simp [remove, setNext, setPrev, ← hq, hx]
  · simp [remove, setNext, setPrev, hq, hx]

theorem remove_next_prev {m : Links ν} {q : ν} : (m.remove q).next (m.prev q) = m.next q := by
  simp [remove, setNext, setPrev]

theorem remove_prev_next {m : Links ν} {q : ν} : (m.remove q).prev (m.next q) = m.prev q := by
  by_cases hq : q = m.prev q
  · simp [remove, setNext, setPrev, ← hq]
  · simp [remove, setNext, setPrev, hq]

/-- The removed node still points to its old successor: a loop standing on
it can go on. -/
theorem remove_next_self {m : Links ν} {q : ν} (hq : q ≠ m.prev q) :
    (m.remove q).next q = m.next q :=
  remove_next hq

/-- The path without `q`, by recursion on the part before `q`. -/
theorem Linked.remove {m : Links ν} {a b q : ν} {l₁ l₂ : List ν}
    (h₁ : Linked m a l₁ q) (h₂ : Linked m q l₂ b)
    (ha : a ∉ l₁ ++ l₂) (hb : b ∉ l₁ ++ l₂) (hnd : (l₁ ++ l₂).Nodup) :
    Linked (m.remove q) a (l₁ ++ l₂) b := by
  induction l₁ generalizing a with
  -- `q` is behind `a`, so `a` and what is behind `q` are linked to each other
  | nil =>
      have hprev : m.prev q = a := h₁.2
      have hnext : m.next q = l₂.headD b := h₂.next_eq
      cases l₂ with
      | nil =>
          have hn : m.next q = b := hnext
          refine ⟨?_, ?_⟩
          · rw [← hprev, remove_next_prev, hn]
          · rw [← hn, remove_prev_next, hprev]
      | cons y l₂ =>
          have hn : m.next q = y := hnext
          simp only [List.nil_append, List.mem_cons, not_or, List.nodup_cons] at ha hb hnd
          refine ⟨⟨?_, ?_⟩, h₂.2.congr ?_ ?_⟩
          · rw [← hprev, remove_next_prev, hn]
          · rw [← hn, remove_prev_next, hprev]
          · intro x hx
            refine remove_next fun he => ?_
            rw [hprev] at he
            subst he
            rcases List.mem_cons.mp hx with rfl | hx
            · exact ha.1 rfl
            · exact ha.2 hx
          · intro x hx
            refine remove_prev fun he => ?_
            rw [hn] at he
            subst he
            rcases List.mem_append.mp hx with hx | hx
            · exact hnd.1 hx
            · exact hb.1 (List.mem_singleton.mp hx).symm
  -- the links between `a` and `x` stay, since `a` is not right before `q`, nor `x` right behind
  -- it
  | cons x l₁ ih =>
      simp only [List.cons_append, List.mem_cons, not_or, List.nodup_cons] at ha hb hnd
      have hp : m.prev q ∈ x :: l₁ := h₁.2.prev_mem
      have hn : m.next q ∈ l₂ ++ [b] := h₂.next_mem
      refine ⟨⟨?_, ?_⟩, ih h₁.2 (fun hx => hnd.1 hx) hb.2 hnd.2⟩
      · rw [remove_next, h₁.1.1]
        rintro rfl
        rcases List.mem_cons.mp hp with he | hp
        · exact ha.1 he
        · exact ha.2 (List.mem_append_left _ hp)
      · rw [remove_prev, h₁.1.2]
        rintro rfl
        rcases List.mem_append.mp hn with hn | hn
        · exact hnd.1 (List.mem_append_right _ hn)
        · exact hb.1 (List.mem_singleton.mp hn).symm

theorem IsRing.remove {m : Links ν} {h q : ν} {l : List ν} (r : IsRing m h l)
    (hq : q ∈ l) : IsRing (m.remove q) h (l.erase q) := by
  obtain ⟨l₁, l₂, hql₁, rfl, he⟩ := List.exists_erase_eq hq
  obtain ⟨h₁, h₂⟩ := linked_append.mp r.linked
  have hnd := r.nodup
  rw [he]
  have hsub : (l₁ ++ l₂).Sublist (l₁ ++ q :: l₂) := by simp
  have hhead : h ∉ l₁ ++ l₂ := fun hx => r.head_notMem (hsub.subset hx)
  have hnd' : (l₁ ++ l₂).Nodup := hsub.nodup r.nodes_nodup
  exact ⟨h₁.remove h₂ hhead hhead hnd', List.nodup_cons.mpr ⟨hhead, hnd'⟩⟩

/-- Removal from one ring leaves a ring with other nodes alone. -/
theorem IsRing.remove_frame {m : Links ν} {h q h' : ν} {l l' : List ν}
    (r : IsRing m h l) (hq : q ∈ h :: l) (r' : IsRing m h' l')
    (hd : ∀ x ∈ h :: l, x ∉ h' :: l') : IsRing (m.remove q) h' l' := by
  refine r'.congr (fun x hx => remove_next ?_) (fun x hx => remove_prev ?_)
  · exact fun he => hd _ (r.prev_mem hq) (he ▸ hx)
  · exact fun he => hd _ (r.next_mem hq) (he ▸ hx)

/-! ## A node made new, and nodes nothing leads to -/

theorem init_next {m : Links ν} {q x : ν} (hx : x ≠ q) : (m.init q).next x = m.next x := by
  simp [init, setNext, setPrev, hx]

theorem init_prev {m : Links ν} {q x : ν} (hx : x ≠ q) : (m.init q).prev x = m.prev x := by
  simp [init, setNext, setPrev, hx]

@[simp] theorem init_next_self {m : Links ν} {q : ν} : (m.init q).next q = q := by
  simp [init, setNext, setPrev]

@[simp] theorem init_prev_self {m : Links ν} {q : ν} : (m.init q).prev q = q := by
  simp [init, setNext, setPrev]

theorem IsRing.init_frame {m : Links ν} {h q : ν} {l : List ν} (r : IsRing m h l)
    (hq : q ∉ h :: l) : IsRing (m.init q) h l :=
  r.congr (fun _ hx => init_next fun he => hq (he ▸ hx))
    (fun _ hx => init_prev fun he => hq (he ▸ hx))

theorem insertHead_next_head {m : Links ν} {h q : ν} : (m.insertHead h q).next h = q := by
  simp [insertHead, setNext]

theorem insertHead_next_self {m : Links ν} {h q : ν} (hq : q ≠ h) :
    (m.insertHead h q).next q = m.next h := by
  simp [insertHead, setNext, setPrev, hq]

/-- No other node's forward link leads to `q`, and unlinking `q` makes none. -/
structure Orphan (m : Links ν) (q : ν) : Prop where
  next : ∀ x, m.next x = q → x = q
  self : m.next q = q → m.prev q = q

namespace Orphan

theorem of_init {m : Links ν} {q : ν} (hq : ∀ x, m.next x ≠ q) : Orphan (m.init q) q where
  next x hx := by
    by_contra hne
    exact hq x (by rwa [init_next hne] at hx)
  self _ := init_prev_self

theorem init {m : Links ν} {q x : ν} (o : Orphan m q) (hx : x ≠ q) : Orphan (m.init x) q where
  next y hy := by
    by_cases he : y = x
    · subst he
      rwa [init_next_self] at hy
    · exact o.next y (by rwa [init_next he] at hy)
  self hs := by
    rw [init_next hx.symm] at hs
    rw [init_prev hx.symm]
    exact o.self hs

theorem insertHead {m : Links ν} {h q x : ν} (o : Orphan m q) (hh : h ≠ q) (hx : x ≠ q) :
    Orphan (m.insertHead h x) q where
  next y hy := by
    by_cases hyh : y = h
    · subst hyh
      rw [insertHead_next_head] at hy
      exact absurd hy hx
    by_cases hyx : y = x
    · subst hyx
      rw [insertHead_next_self hyh] at hy
      exact absurd (o.next h hy) hh
    · exact o.next y (by rwa [insertHead_next hyx hyh] at hy)
  self hs := by
    rw [insertHead_next hx.symm hh.symm] at hs
    rw [insertHead_prev hx.symm fun he => hh (o.next h he.symm)]
    exact o.self hs

theorem remove {m : Links ν} {q : ν} (o : Orphan m q) (x : ν) : Orphan (m.remove x) q where
  next y hy := by
    by_cases hyp : y = m.prev x
    · subst hyp
      rw [remove_next_prev] at hy
      obtain rfl := o.next x hy
      exact o.self hy
    · exact o.next y (by rwa [remove_next hyp] at hy)
  self hs := by
    by_cases hx : m.next x = q
    · obtain rfl := o.next x hx
      have hp := o.self hx
      have := remove_prev_next (m := m) (q := x)
      rwa [hx, hp] at this
    · rw [remove_prev fun he => hx he.symm]
      by_cases hqp : q = m.prev x
      · rw [hqp, remove_next_prev, ← hqp] at hs
        exact absurd hs hx
      · rw [remove_next hqp] at hs
        exact o.self hs

/-- Linked in and unlinked again at once, a node nothing led to is none
again. -/
theorem insertHead_remove {m : Links ν} {h q : ν} (o : Orphan m q) (hh : h ≠ q) :
    Orphan ((m.insertHead h q).remove q) q := by
  have hne : m.next h ≠ q := fun he => hh (o.next h he)
  have hprev : (m.insertHead h q).prev q = h := by
    rw [Links.insertHead]
    simp [setNext, setPrev, hne.symm]
  have hnext : (m.insertHead h q).next q = m.next h := insertHead_next_self hh.symm
  refine ⟨fun y hy => ?_, fun hs => ?_⟩
  · by_cases hyh : y = h
    · have hn := remove_next_prev (m := m.insertHead h q) (q := q)
      rw [hprev, hnext] at hn
      rw [hyh, hn] at hy
      exact absurd hy hne
    · by_contra hyq
      rw [remove_next (hprev.symm ▸ hyh), insertHead_next hyq hyh] at hy
      exact hyq (o.next y hy)
  · rw [remove_next (hprev.symm ▸ hh.symm), hnext] at hs
    exact absurd hs hne

end Orphan

/-- The links of nodes in `P` lead to nodes in `P`. -/
structure Closed (m : Links ν) (P : ν → Prop) : Prop where
  next : ∀ q, P q → P (m.next q)
  prev : ∀ q, P q → P (m.prev q)

namespace Closed

variable {m : Links ν} {P : ν → Prop}

theorem setNext (c : Closed m P) {q x : ν} (hx : P q → P x) : Closed (m.setNext q x) P where
  next y hy := by
    by_cases he : y = q
    · subst he
      simpa [Links.setNext] using hx hy
    · simpa [Links.setNext, he] using c.next y hy
  prev := c.prev

theorem setPrev (c : Closed m P) {q x : ν} (hx : P q → P x) : Closed (m.setPrev q x) P where
  next := c.next
  prev y hy := by
    by_cases he : y = q
    · subst he
      simpa [Links.setPrev] using hx hy
    · simpa [Links.setPrev, he] using c.prev y hy

theorem init (c : Closed m P) (q : ν) : Closed (m.init q) P :=
  (c.setNext id).setPrev id

theorem insertHead (c : Closed m P) {h q : ν} (hh : P h) (hq : P q) : Closed (m.insertHead h q) P := by
  have c₁ := c.setNext (q := q) fun _ => c.next h hh
  have c₂ := c₁.setPrev (q := q) fun _ => hh
  exact (c₂.setPrev fun _ => hq).setNext fun _ => hq

theorem remove (c : Closed m P) {q : ν} (hq : P q) : Closed (m.remove q) P := by
  have c₁ := c.setNext (q := m.prev q) fun _ => c.next q hq
  exact c₁.setPrev fun _ => c₁.prev q hq

/-- A node that is made new comes to the others, on its own. -/
theorem init_new (c : Closed m P) (q : ν) : Closed (m.init q) fun x => P x ∨ x = q where
  next x hx := by
    by_cases hxq : x = q
    · rw [hxq, init_next_self]
      exact .inr rfl
    · rw [init_next hxq]
      exact .inl (c.next x (hx.resolve_right hxq))
  prev x hx := by
    by_cases hxq : x = q
    · rw [hxq, init_prev_self]
      exact .inr rfl
    · rw [init_prev hxq]
      exact .inl (c.prev x (hx.resolve_right hxq))

/-- A node that is linked in comes to the others. -/
theorem insertHead_new (c : Closed m P) {h : ν} (hh : P h) (q : ν) :
    Closed (m.insertHead h q) fun x => P x ∨ x = q where
  next x hx := by
    by_cases hxh : x = h
    · rw [hxh, insertHead_next_head]
      exact .inr rfl
    · by_cases hxq : x = q
      · rw [hxq, insertHead_next_self (hxq ▸ hxh)]
        exact .inl (c.next h hh)
      · rw [insertHead_next hxq hxh]
        exact .inl (c.next x (hx.resolve_right hxq))
  prev x hx := by
    by_cases hxn : x = (m.setNext q (m.next h)).next q
    · refine .inr ?_
      rw [hxn]
      simp [Links.insertHead, Links.setNext, Links.setPrev]
    · have hxh : x ≠ m.next h := by simpa [Links.setNext] using hxn
      by_cases hxq : x = q
      · refine .inl ?_
        have hqn : q ≠ m.next h := hxq ▸ hxh
        rw [hxq]
        simpa [Links.insertHead, Links.setNext, Links.setPrev, hqn] using hh
      · rw [insertHead_prev hxq hxh]
        exact .inl (c.prev x (hx.resolve_right hxq))

end Closed

/-! ## Nodes nobody comes to -/

/-- The links of the nodes in `D` are those of `g`. -/
def overlay (m : Links ν) (D : ν → Bool) (g : Links ν) : Links ν where
  next q := if D q = true then g.next q else m.next q
  prev q := if D q = true then g.prev q else m.prev q

section Overlay

variable {m g : Links ν} {D : ν → Bool} {q h x y : ν}

omit [DecidableEq ν] in
@[simp] theorem overlay_next (hq : D q = false) : (m.overlay D g).next q = m.next q := by
  simp [overlay, hq]

omit [DecidableEq ν] in
@[simp] theorem overlay_prev (hq : D q = false) : (m.overlay D g).prev q = m.prev q := by
  simp [overlay, hq]

theorem overlay_setNext (hq : D q = false) :
    (m.overlay D g).setNext q x = (m.setNext q x).overlay D g := by
  ext z
  · by_cases hz : z = q
    · simp [overlay, setNext, hz, hq]
    · simp [overlay, setNext, hz]
  · rfl

theorem overlay_setPrev (hq : D q = false) :
    (m.overlay D g).setPrev q x = (m.setPrev q x).overlay D g := by
  ext z
  · rfl
  · by_cases hz : z = q
    · simp [overlay, setPrev, hz, hq]
    · simp [overlay, setPrev, hz]

/-- Both links of a node are written: what they were does not matter. -/
theorem overlay_set :
    ((m.overlay D g).setNext q x).setPrev q y
      = ((m.setNext q x).setPrev q y).overlay (Function.update D q false) g := by
  ext z
  · by_cases hz : z = q
    · simp [overlay, setNext, setPrev, hz]
    · simp [overlay, setNext, setPrev, hz]
  · by_cases hz : z = q
    · simp [overlay, setNext, setPrev, hz]
    · simp [overlay, setNext, setPrev, hz]

theorem overlay_init : (m.overlay D g).init q = (m.init q).overlay (Function.update D q false) g :=
  overlay_set

/-- A node is linked in at a head that is not in `D`, and leads to no node in `D`. -/
theorem overlay_insertHead (hh : D h = false) (hn : D (m.next h) = false) :
    (m.overlay D g).insertHead h q
      = (m.insertHead h q).overlay (Function.update D q false) g := by
  have hout : ∀ z, D z = false → Function.update D q false z = false := by
    intro z hz
    by_cases hzq : z = q
    · rw [hzq, Function.update_self]
    · rwa [Function.update_of_ne hzq]
  have hq : Function.update D q false q = false := Function.update_self ..
  have hnext : Function.update D q false (((m.setNext q (m.next h)).setPrev q h).next q) = false := by
    simpa [setNext, setPrev] using hout _ hn
  simp only [insertHead, overlay_next hh]
  rw [overlay_set, overlay_next hq, overlay_setPrev hnext, overlay_setNext (hout _ hh)]

/-- A node is unlinked whose neighbours are not in `D`. -/
theorem overlay_remove (hq : D q = false) (hp : D (m.prev q) = false) (hn : D (m.next q) = false) :
    (m.overlay D g).remove q = (m.remove q).overlay D g := by
  have hnext : D ((m.setNext (m.prev q) (m.next q)).next q) = false := by
    by_cases hqp : q = m.prev q
    · rw [← hqp]
      simpa [setNext] using hn
    · simpa [setNext, hqp] using hn
  simp only [remove, overlay_prev hq, overlay_next hq]
  rw [overlay_setNext hp, overlay_next hq, overlay_prev hq, overlay_setPrev hnext]

omit [DecidableEq ν] in
theorem overlay_self (m : Links ν) (D : ν → Bool) : m.overlay D m = m := by
  ext z
  · simp [overlay]
  · simp [overlay]

omit [DecidableEq ν] in
/-- Only the links of the nodes in `D` matter. -/
theorem overlay_congr {g' : Links ν}
    (hg : ∀ z, D z = true → g.next z = g'.next z ∧ g.prev z = g'.prev z) :
    m.overlay D g = m.overlay D g' := by
  ext z
  · by_cases hz : D z = true
    · simp [overlay, hz, (hg z hz).1]
    · simp [overlay, hz]
  · by_cases hz : D z = true
    · simp [overlay, hz, (hg z hz).2]
    · simp [overlay, hz]

omit [DecidableEq ν] in
/-- An overlay on part of another one can be made before it. -/
theorem overlay_overlay {E : ν → Bool} {g' : Links ν} (hE : ∀ z, E z = true → D z = true) :
    (m.overlay D g).overlay E g' = m.overlay D (g.overlay E g') := by
  ext z
  · by_cases hz : E z = true
    · simp [overlay, hz, hE z hz]
    · simp [overlay, hz]
  · by_cases hz : E z = true
    · simp [overlay, hz, hE z hz]
    · simp [overlay, hz]

omit [DecidableEq ν] in
/-- More nodes may be said to have the links that they have. -/
theorem overlay_mono {E : ν → Bool} (hE : ∀ z, D z = true → E z = true) :
    m.overlay E (m.overlay D g) = m.overlay D g := by
  ext z
  · by_cases hz : D z = true
    · simp [overlay, hz, hE z hz]
    · simp [overlay, hz]
  · by_cases hz : D z = true
    · simp [overlay, hz, hE z hz]
    · simp [overlay, hz]

/-- The node `a` is called `b` from now on: `b` has its links, and what led to `a`
leads to `b`. -/
def redirect (m : Links ν) (a b : ν) : Links ν where
  next q := if m.next (if q = b then a else q) = a then b else m.next (if q = b then a else q)
  prev q := if m.prev (if q = b then a else q) = a then b else m.prev (if q = b then a else q)

/-- It takes nobody out of a set with both names in it. -/
theorem Closed.redirect {P : ν → Prop} {a b : ν} (c : Closed m P) (ha : P a) (hb : P b) :
    Closed (m.redirect a b) P := by
  have hold : ∀ q, P q → P (if q = b then a else q) := by
    intro q hq
    split
    · exact ha
    · exact hq
  have hnew : ∀ x, P x → P (if x = a then b else x) := by
    intro x hx
    split
    · exact hb
    · exact hx
  exact ⟨fun q hq => hnew _ (c.next _ (hold q hq)), fun q hq => hnew _ (c.prev _ (hold q hq))⟩

/-- To the nodes that do not lead to `a` nothing happens. -/
theorem redirect_overlay {a b : ν} (hb : D b = true)
    (hnext : ∀ z, D z = false → m.next z ≠ a) (hprev : ∀ z, D z = false → m.prev z ≠ a) :
    (m.overlay D g).redirect a b = m.overlay D ((m.overlay D g).redirect a b) := by
  have hne : ∀ z, D z = false → z ≠ b := fun z hz heq => by simp [heq, hb] at hz
  ext z
  · by_cases hz : D z = true
    · simp only [overlay, hz, if_true]
    · have hz := Bool.eq_false_iff.mpr hz
      rw [overlay_next hz]
      simp only [redirect, if_neg (hne z hz), overlay_next hz, if_neg (hnext z hz)]
  · by_cases hz : D z = true
    · simp only [overlay, hz, if_true]
    · have hz := Bool.eq_false_iff.mpr hz
      rw [overlay_prev hz]
      simp only [redirect, if_neg (hne z hz), overlay_prev hz, if_neg (hprev z hz)]

end Overlay

end Edits

/-! ## Loops over a ring -/

section Loops

variable [DecidableEq ν] {σ : Type} {links : σ → Links ν} {body : ν → σ → Option σ} {h : ν}

/-- What each round preserves, the loop preserves, whatever nodes it visits. -/
theorem forEach_preserves {R : σ → σ → Prop} (hrefl : ∀ s, R s s)
    (htrans : ∀ {a b c}, R a b → R b c → R a c)
    (hbody : ∀ q s s', body q s = some s' → R s s') {fuel : Nat} {q : ν} {s s' : σ}
    (hrun : forEach links body h fuel q s = some s') : R s s' := by
  induction fuel generalizing q s with
  | zero => simp [forEach] at hrun
  | succ fuel ih =>
      rw [forEach] at hrun
      split at hrun
      · cases hrun
        exact hrefl _
      · cases hb : body q s with
        | none => simp [hb] at hrun
        | some s₁ =>
            simp only [hb, Option.bind_eq_bind, Option.bind_some] at hrun
            exact htrans (hbody q s s₁ hb) (ih hrun)

/-- Entered in `P`, a loop over links that stay closed stays in `P`. -/
theorem forEach_within {P : ν → Prop} {I : σ → Prop} (hclosed : ∀ s, I s → Closed (links s) P)
    (hbody : ∀ q s s', P q → I s → body q s = some s' → I s') {fuel : Nat} {q : ν} {s s' : σ}
    (hq : P q) (hs : I s) (hrun : forEach links body h fuel q s = some s') : I s' := by
  induction fuel generalizing q s with
  | zero => simp [forEach] at hrun
  | succ fuel ih =>
      rw [forEach] at hrun
      split at hrun
      · cases hrun
        exact hs
      · obtain ⟨s₁, hb, hrun⟩ := Option.bind_eq_some_iff.mp hrun
        have hs₁ := hbody q s s₁ hq hs hb
        exact ih ((hclosed s₁ hs₁).next q hq) hs₁ hrun

/-- Two loops in step: related states have the same links where the loop goes,
and rounds keep them related. -/
theorem forEach_rel {τ : Type} {links' : τ → Links ν} {body' : ν → τ → Option τ} {P : ν → Prop}
    {R : σ → τ → Prop}
    (hlinks : ∀ s t, R s t → ∀ q, P q → (links' t).next q = (links s).next q ∧ P ((links s).next q))
    (hbody : ∀ q s t, P q → R s t → Option.Rel R (body q s) (body' q t)) (fuel : Nat) {q : ν}
    {s : σ} {t : τ} (hq : P q) (hst : R s t) :
    Option.Rel R (forEach links body h fuel q s) (forEach links' body' h fuel q t) := by
  induction fuel generalizing q s t with
  | zero => exact .none
  | succ fuel ih =>
      rw [forEach, forEach]
      split
      · exact .some hst
      · refine (hbody q s t hq hst).bind fun s₁ t₁ _ hst₁ => ?_
        obtain ⟨hnext, hP⟩ := hlinks s₁ t₁ hst₁ q hq
        rw [hnext]
        exact ih hP hst₁

/-- **The loop rule.** Rounds that leave the ring alone, or unlink the node they
stand on, come to every node once and in order: the loop is a fold. -/
theorem IsRing.forEach
    (hbody : ∀ x s s', body x s = some s' → links s' = links s ∨ links s' = (links s).remove x)
    {l : List ν} {fuel : Nat} (hfuel : l.length < fuel) {s : σ} (r : IsRing (links s) h l) :
    Links.forEach links body h fuel ((links s).next h) s = l.foldlM (fun s x => body x s) s := by
  -- `k` are the nodes passed and kept
  have hgen : ∀ (l k : List ν) (fuel : Nat) (s : σ), l.length < fuel → IsRing (links s) h (k ++ l) →
      Links.forEach links body h fuel (l.headD h) s = l.foldlM (fun s x => body x s) s := by
    intro l
    induction l with
    | nil =>
        intro k fuel s hfuel _
        cases fuel with
        | zero => simp at hfuel
        | succ fuel => simp [Links.forEach]
    | cons x l ih =>
        intro k fuel s hfuel r
        have hx : x ∈ k ++ x :: l := by simp
        have hnext : (links s).next x = l.headD h := (linked_append.mp r.linked).2.next_eq
        have hxh : x ≠ h := fun he => r.head_notMem (he ▸ hx)
        cases fuel with
        | zero => simp at hfuel
        | succ fuel =>
            have hfuel : l.length < fuel := by simpa using hfuel
            rw [List.headD_cons, Links.forEach, if_neg hxh, List.foldlM_cons]
            cases hb : body x s with
            | none => rfl
            | some s₁ =>
                simp only [Option.bind_eq_bind, Option.bind_some]
                rcases hbody x s s₁ hb with hkeep | hremove
                · have hr : IsRing (links s₁) h ((k ++ [x]) ++ l) := by simpa [hkeep] using r
                  rw [hkeep, hnext]
                  exact ih (k ++ [x]) fuel s₁ hfuel hr
                · have hr := r.remove hx
                  have hxk : x ∉ k := fun hk => by
                    have := (List.nodup_append.mp r.nodes_nodup).2.2 x hk x (by simp)
                    exact this rfl
                  rw [List.erase_append_right _ hxk, List.erase_cons_head, ← hremove] at hr
                  rw [hremove, remove_next_self (r.prev_ne_self hx), hnext]
                  exact ih k fuel s₁ hfuel hr
  have := hgen l [] fuel s hfuel r
  rwa [← r.linked.next_eq] at this

/-- A loop that has ended ends the same with more fuel. -/
theorem forEach_mono {fuel fuel' : Nat} (hle : fuel ≤ fuel') {q : ν} {s s' : σ}
    (hrun : forEach links body h fuel q s = some s') :
    forEach links body h fuel' q s = some s' := by
  induction fuel generalizing fuel' q s with
  | zero => simp [forEach] at hrun
  | succ fuel ih =>
      obtain ⟨k, rfl⟩ : ∃ k, fuel' = k + 1 := ⟨fuel' - 1, by omega⟩
      rw [forEach] at hrun ⊢
      split
      next hq => rwa [if_pos hq] at hrun
      next hq =>
        rw [if_neg hq] at hrun
        obtain ⟨s₁, hs, hrun⟩ := Option.bind_eq_some_iff.mp hrun
        rw [hs]
        exact ih (by omega) hrun

/-- What holds when `l` is still to be folded over. -/
theorem foldlM_rule {α : Type} {f : σ → α → Option σ} {I : List α → σ → Prop}
    (hstep : ∀ x rest s s', I (x :: rest) s → f s x = some s' → I rest s') {l : List α} {s s' : σ}
    (hI : I l s) (hrun : l.foldlM f s = some s') : I [] s' := by
  induction l generalizing s with
  | nil =>
      obtain rfl := Option.some.inj hrun
      exact hI
  | cons x l ih =>
      obtain ⟨s₁, hs, hrun⟩ := Option.bind_eq_some_iff.mp hrun
      exact ih (hstep x l s s₁ hI hs) hrun

/-- A fold has a result when every round does. -/
theorem foldlM_total {α : Type} {f : σ → α → Option σ} {I : List α → σ → Prop}
    (hstep : ∀ x rest s, I (x :: rest) s → ∃ s', f s x = some s' ∧ I rest s') {l : List α} {s : σ}
    (hI : I l s) : ∃ s', l.foldlM f s = some s' ∧ I [] s' := by
  induction l generalizing s with
  | nil => exact ⟨s, rfl, hI⟩
  | cons x l ih =>
      obtain ⟨s₁, hs, hI₁⟩ := hstep x l s hI
      obtain ⟨s', hrun, hI'⟩ := ih hI₁
      exact ⟨s', by rw [List.foldlM_cons, hs]; exact hrun, hI'⟩

/-- Searching a ring is searching its list of nodes. -/
theorem IsRing.find? {m : Links ν} {l : List ν} (r : IsRing m h l) (p : ν → Bool)
    {fuel : Nat} (hfuel : l.length < fuel) :
    m.find? p h fuel (m.next h) = some (l.find? p) := by
  have hgen : ∀ (l : List ν) (fuel : Nat) (a : ν), h ∉ l → Linked m a l h →
      l.length < fuel → m.find? p h fuel (m.next a) = some (l.find? p) := by
    intro l
    induction l with
    | nil =>
        intro fuel a _ hl hf
        cases fuel with
        | zero => simp at hf
        | succ fuel => simp [Links.find?, hl.1]
    | cons x l ih =>
        intro fuel a hh hl hf
        obtain ⟨hx, hrest⟩ := List.ne_and_not_mem_of_not_mem_cons hh
        cases fuel with
        | zero => simp at hf
        | succ fuel =>
            rw [hl.1.1, Links.find?, if_neg (Ne.symm hx)]
            cases hp : p x with
            | true => simp [hp]
            | false =>
                simp only [Bool.false_eq_true, if_false, List.find?_cons, hp]
                exact ih fuel x hrest hl.2 (by simpa using hf)
  exact hgen l fuel h r.head_notMem r.linked hfuel

/-- The variable is left at what is searched for, else at the last node. -/
theorem IsRing.cursor {m : Links ν} {l : List ν} (r : IsRing m h l) (p : ν → Bool)
    {fuel : Nat} (hfuel : l.length < fuel) (c : Option ν) :
    m.cursor p h fuel (m.next h) c = some ((l.find? p).or (l.getLast?.or c)) := by
  have hgen : ∀ (l : List ν) (fuel : Nat) (a : ν) (c : Option ν), h ∉ l → Linked m a l h →
      l.length < fuel → m.cursor p h fuel (m.next a) c = some ((l.find? p).or (l.getLast?.or c)) := by
    intro l
    induction l with
    | nil =>
        intro fuel a c _ hl hf
        cases fuel with
        | zero => simp at hf
        | succ fuel => simp [Links.cursor, hl.1]
    | cons x l ih =>
        intro fuel a c hh hl hf
        obtain ⟨hx, hrest⟩ := List.ne_and_not_mem_of_not_mem_cons hh
        cases fuel with
        | zero => simp at hf
        | succ fuel =>
            rw [hl.1.1, Links.cursor, if_neg (Ne.symm hx)]
            cases hp : p x with
            | true => simp [hp]
            | false =>
                have hlast : (x :: l).getLast?.or c = l.getLast?.or (some x) := by
                  rw [List.getLast?_cons]
                  cases l.getLast? <;> rfl
                simp only [Bool.false_eq_true, if_false, List.find?_cons, hp, hlast]
                exact ih fuel x (some x) hrest hl.2 (by simpa using hf)
  exact hgen l fuel h c r.head_notMem r.linked hfuel

/-- A search depends on the nodes it comes to. -/
theorem find?_congr {m m' : Links ν} {p p' : ν → Bool} {P : ν → Prop}
    (hnext : ∀ q, P q → m'.next q = m.next q ∧ P (m.next q)) (hp : ∀ q, P q → p' q = p q)
    (fuel : Nat) {q : ν} (hq : P q) : m'.find? p' h fuel q = m.find? p h fuel q := by
  induction fuel generalizing q with
  | zero => rfl
  | succ fuel ih =>
      rw [Links.find?, Links.find?, hp q hq, (hnext q hq).1, ih (hnext q hq).2]

/-- The nodes of a ring are those a loop comes to. -/
theorem IsRing.walk {m : Links ν} {l : List ν} (r : IsRing m h l) {fuel : Nat}
    (hfuel : l.length ≤ fuel) : m.walk h fuel (m.next h) = l := by
  have hgen : ∀ (l : List ν) (fuel : Nat) (a : ν), h ∉ l → Linked m a l h →
      l.length ≤ fuel → m.walk h fuel (m.next a) = l := by
    intro l
    induction l with
    | nil =>
        intro fuel a _ hl _
        cases fuel with
        | zero => rfl
        | succ fuel => simp [Links.walk, hl.1]
    | cons x l ih =>
        intro fuel a hh hl hf
        obtain ⟨hx, hrest⟩ := List.ne_and_not_mem_of_not_mem_cons hh
        cases fuel with
        | zero => simp at hf
        | succ fuel =>
            rw [hl.1.1, Links.walk, if_neg (Ne.symm hx), ih fuel x hrest hl.2 (by simpa using hf)]
  exact hgen l fuel h r.head_notMem r.linked hfuel

/-- What a search finds does not depend on the fuel. -/
theorem find?_unique {m : Links ν} {p : ν → Bool} {fuel fuel' : Nat} {q : ν} {a b : Option ν}
    (ha : m.find? p h fuel q = some a) (hb : m.find? p h fuel' q = some b) : b = a := by
  induction fuel generalizing fuel' q with
  | zero => cases ha
  | succ fuel ih =>
      cases fuel' with
      | zero => cases hb
      | succ fuel' =>
          rw [Links.find?] at ha hb
          split at ha
          next hq =>
            rw [if_pos hq] at hb
            exact Option.some.inj (hb.symm.trans ha)
          next hq =>
            rw [if_neg hq] at hb
            split at ha
            next hp =>
              rw [if_pos hp] at hb
              exact Option.some.inj (hb.symm.trans ha)
            next hp =>
              rw [if_neg hp] at hb
              exact ih ha hb

/-- What a search finds, some node that was passed by leads to. -/
theorem find?_next {m : Links ν} {p : ν → Bool} (hp : p h = false) {fuel : Nat} {x : ν}
    (hfind : m.find? p h fuel (m.next h) = some (some x)) :
    p x = true ∧ ∃ y, p y = false ∧ m.next y = x := by
  have hgen : ∀ (fuel : Nat) (y : ν), p y = false → m.find? p h fuel (m.next y) = some (some x) →
      p x = true ∧ ∃ y, p y = false ∧ m.next y = x := by
    intro fuel
    induction fuel with
    | zero => intro y _ hf; simp [Links.find?] at hf
    | succ fuel ih =>
        intro y hy hf
        rw [Links.find?] at hf
        split at hf
        · cases hf
        · split at hf
          next hpn =>
            obtain rfl := Option.some.inj (Option.some.inj hf)
            exact ⟨hpn, y, hy, rfl⟩
          next hpn => exact ih _ (by simpa using hpn) hf
  exact hgen fuel h hp hfind

end Loops

end Links

end Circular
