import Smts.Lib.Circular

/-!
# Aging — rings that are entered at the head

Where every node is linked in right behind the head, forward links lead to
older nodes and backward links to younger ones. Unlinking a node keeps it so,
even one that was unlinked before and whose neighbours are not its neighbours
any more: what is left need not be a ring, but a loop over it ends.
-/

namespace Circular

namespace Links

variable {ν : Type}

/-- No link but its own leads to `q`. -/
structure Alone (m : Links ν) (q : ν) : Prop where
  next : m.next q = q
  prev : m.prev q = q
  unseen : ∀ x, m.next x = q ∨ m.prev x = q → x = q

/-- `born` grows from each linked node to the one before it. -/
structure Aging (m : Links ν) (h : ν) (born : ν → Nat) : Prop where
  node : ∀ q, q ≠ h → Alone m q ∨
    (m.next q = h ∨ born (m.next q) < born q) ∧ (m.prev q = h ∨ born q < born (m.prev q))

section Loops

variable [DecidableEq ν] {m : Links ν} {h : ν} {born : ν → Nat}

/-- A search that came to a node over a link ends. -/
theorem Aging.find?_from (a : Aging m h born) (p : ν → Bool) {fuel : Nat} {q : ν}
    (hq : ¬ Alone m q) (hfuel : born q + 1 < fuel) : ∃ r, m.find? p h fuel q = some r := by
  induction fuel generalizing q with
  | zero => omega
  | succ fuel ih =>
      rw [Links.find?]
      split
      · exact ⟨_, rfl⟩
      next hqh =>
        split
        · exact ⟨_, rfl⟩
        obtain ⟨hnext, -⟩ := (a.node q hqh).resolve_left hq
        rcases hnext with hh | hlt
        · rw [hh]
          cases fuel with
          | zero => omega
          | succ fuel => exact ⟨none, by simp [Links.find?]⟩
        · have hne : q ≠ m.next q := by
            intro he
            rw [← he] at hlt
            exact Nat.lt_irrefl _ hlt
          exact ih (fun hal => hne (hal.unseen q (.inl rfl))) (by omega)

/-- A search ends, and needs no more rounds than there are ages. -/
theorem Aging.find?_total (a : Aging m h born) (p : ν → Bool) {fuel : Nat}
    (hfuel : m.next h = h ∨ born (m.next h) + 1 < fuel) (hpos : 0 < fuel) :
    ∃ r, m.find? p h fuel (m.next h) = some r := by
  by_cases hh : m.next h = h
  · obtain ⟨fuel, rfl⟩ : ∃ k, fuel = k + 1 := ⟨fuel - 1, by omega⟩
    exact ⟨none, by simp [Links.find?, hh]⟩
  · exact a.find?_from p (fun hal => hh (hal.unseen h (.inl rfl)).symm) (hfuel.resolve_left hh)

end Loops

/-! ## What keeps it -/

section Edits

variable [DecidableEq ν] {m : Links ν} {h q : ν} {born : ν → Nat}

/-- A node that nobody leads to becomes a ring of its own. -/
theorem Aging.init (a : Aging m h born) (hq : q ≠ h)
    (hfresh : ∀ x, m.next x ≠ q ∧ m.prev x ≠ q) : Aging (m.init q) h born where
  node x hx := by
    by_cases hxq : x = q
    · subst hxq
      refine .inl ⟨init_next_self, init_prev_self, fun y hy => ?_⟩
      by_contra hyx
      rw [init_next hyx, init_prev hyx] at hy
      exact hy.elim (hfresh y).1 (hfresh y).2
    · rw [init_next hxq, init_prev hxq]
      refine (a.node x hx).imp (fun hal => ⟨?_, ?_, fun y hy => ?_⟩) id
      · rw [init_next hxq, hal.next]
      · rw [init_prev hxq, hal.prev]
      · by_cases hyq : y = q
        · subst hyq
          rw [init_next_self, init_prev_self] at hy
          exact (hxq (hy.elim Eq.symm Eq.symm)).elim
        · rw [init_next hyq, init_prev hyq] at hy
          exact hal.unseen y hy

theorem insertHead_next_cases (m : Links ν) (h q x : ν) :
    (m.insertHead h q).next x = q ∨ (m.insertHead h q).next x = m.next h ∨
      (m.insertHead h q).next x = m.next x := by
  by_cases hx : x = h
  · exact .inl (by rw [hx, insertHead_next_head])
  by_cases hxq : x = q
  · exact .inr (.inl (by rw [hxq, insertHead_next_self (hxq ▸ hx)]))
  · exact .inr (.inr (insertHead_next hxq hx))

theorem insertHead_prev_cases (m : Links ν) (h q x : ν) :
    (m.insertHead h q).prev x = q ∨ (m.insertHead h q).prev x = h ∨
      (m.insertHead h q).prev x = m.prev x := by
  simp only [Links.insertHead, setNext, setPrev, Function.update_self]
  by_cases hxn : x = m.next h
  · exact .inl (by rw [hxn, Function.update_self])
  rw [Function.update_of_ne hxn]
  by_cases hxq : x = q
  · exact .inr (.inl (by rw [hxq, Function.update_self]))
  · exact .inr (.inr (Function.update_of_ne hxq ..))

/-- The youngest node is linked in behind the head. -/
theorem Aging.insertHead (a : Aging m h born) (hq : q ≠ h) (hal : Alone m q)
    (hyoung : m.next h = h ∨ born (m.next h) < born q) : Aging (m.insertHead h q) h born where
  node x hx := by
    have hnq : m.next h ≠ q := fun he => hq (hal.unseen h (.inl he)).symm
    by_cases hxq : x = q
    · subst hxq
      refine .inr ⟨by rwa [insertHead_next_self hq], .inl ?_⟩
      simp [Links.insertHead, setNext, setPrev, hnq.symm]
    by_cases hxn : x = m.next h
    · subst hxn
      obtain ⟨hnext, -⟩ := (a.node _ hx).resolve_left fun hx' => hx (hx'.unseen h (.inl rfl)).symm
      refine .inr ⟨?_, .inr ?_⟩
      · rwa [insertHead_next hxq hx]
      · have hprev : (m.insertHead h q).prev (m.next h) = q := by
          simp [Links.insertHead, setNext, setPrev]
        rw [hprev]
        exact hyoung.resolve_left hx
    · rw [insertHead_next hxq hx, insertHead_prev hxq hxn]
      refine (a.node x hx).imp (fun hx' => ⟨?_, ?_, fun y hy => ?_⟩) id
      · rw [insertHead_next hxq hx, hx'.next]
      · rw [insertHead_prev hxq hxn, hx'.prev]
      · rcases hy with hy | hy
        · rcases insertHead_next_cases m h q y with he | he | he <;> rw [he] at hy
          · exact (hxq hy.symm).elim
          · exact (hxn hy.symm).elim
          · exact hx'.unseen y (.inl hy)
        · rcases insertHead_prev_cases m h q y with he | he | he <;> rw [he] at hy
          · exact (hxq hy.symm).elim
          · exact (hx hy.symm).elim
          · exact hx'.unseen y (.inr hy)

/-- Any node is unlinked from what it takes for its neighbours. -/
theorem Aging.remove (a : Aging m h born) (hq : q ≠ h) : Aging (m.remove q) h born := by
  rcases a.node q hq with hal | ⟨hnext, hprev⟩
  · -- a node by itself is unlinked from itself
    have hsame : m.remove q = m := by
      simp only [Links.remove, setNext, setPrev, hal.next, hal.prev, Function.update_self]
      rw [Function.update_eq_self_iff.mpr hal.next.symm, Function.update_eq_self_iff.mpr hal.prev.symm]
    rwa [hsame]
  have hqn : q ≠ m.next q := fun he => by
    rw [← he] at hnext
    exact hnext.elim hq (Nat.lt_irrefl _)
  have hqp : q ≠ m.prev q := fun he => by
    rw [← he] at hprev
    exact hprev.elim hq (Nat.lt_irrefl _)
  -- only the two neighbours get other links
  have hnext' : ∀ x, (m.remove q).next x = if x = m.prev q then m.next q else m.next x := by
    intro x
    split
    next hx => rw [hx, remove_next_prev]
    next hx => exact remove_next hx
  have hprev' : ∀ x, (m.remove q).prev x = if x = m.next q then m.prev q else m.prev x := by
    intro x
    split
    next hx => rw [hx, remove_prev_next]
    next hx => exact remove_prev hx
  refine ⟨fun x hx => ?_⟩
  -- a node by itself is nobody's neighbour; another one skips `q` on the way to an older node
  rcases a.node x hx with hal | ⟨hxn, hxp⟩
  · have hne : x ≠ m.prev q ∧ x ≠ m.next q :=
      ⟨fun he => hqp ((hal.unseen q (.inr he.symm)).trans he),
        fun he => hqn ((hal.unseen q (.inl he.symm)).trans he)⟩
    refine .inl ⟨?_, ?_, fun y hy => ?_⟩
    · rw [hnext', if_neg hne.1, hal.next]
    · rw [hprev', if_neg hne.2, hal.prev]
    · rw [hnext', hprev'] at hy
      rcases hy with hy | hy <;> split at hy
      · exact (hne.2 hy.symm).elim
      · exact hal.unseen y (.inl hy)
      · exact (hne.1 hy.symm).elim
      · exact hal.unseen y (.inr hy)
  · refine .inr ⟨?_, ?_⟩
    · rw [hnext']
      split
      next he =>
        rw [he] at hx ⊢
        exact hnext.imp_right fun hlt => Nat.lt_trans hlt (hprev.resolve_left hx)
      next => exact hxn
    · rw [hprev']
      split
      next he =>
        rw [he] at hx ⊢
        exact hprev.imp_right fun hlt => Nat.lt_trans (hnext.resolve_left hx) hlt
      next => exact hxp

end Edits

end Links

end Circular
