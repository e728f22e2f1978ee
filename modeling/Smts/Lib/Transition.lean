import Mathlib.Logic.Relation

/-!
# Transition — runs of a labelled transition system

A system is a step relation on states, labelled with what happened. A run is
a finite sequence of steps; what every step preserves, every run preserves.
-/

namespace Transition

variable {σ ε : Type}

/-- `Run step s es t`: the steps labelled `es`, in order, lead from `s` to `t`. -/
inductive Run (step : σ → ε → σ → Prop) (s : σ) : List ε → σ → Prop where
  | refl : Run step s [] s
  | snoc {es : List ε} {e : ε} {t u : σ} :
      Run step s es t → step t e u → Run step s (es ++ [e]) u

namespace Run

variable {step : σ → ε → σ → Prop} {s t : σ} {es : List ε}

/-- The induction principle of an invariant: what each step preserves, a run
preserves. -/
theorem invariant {I : σ → Prop} (hstep : ∀ t e u, I t → step t e u → I u)
    (h : Run step s es t) (h₀ : I s) : I t := by
  induction h with
  | refl => exact h₀
  | snoc _ hs ih => exact hstep _ _ _ ih hs

/-- Runs of a system that takes fewer steps are runs. -/
theorem mono {step' : σ → ε → σ → Prop} (hsub : ∀ t e u, step t e u → step' t e u)
    (h : Run step s es t) : Run step' s es t := by
  induction h with
  | refl => exact .refl
  | snoc _ hs ih => exact .snoc ih (hsub _ _ _ hs)

theorem trans {u : σ} {es' : List ε} (h : Run step s es t) (h' : Run step t es' u) :
    Run step s (es ++ es') u := by
  induction h' with
  | refl => simpa using h
  | snoc _ hs ih => rw [← List.append_assoc]; exact .snoc ih hs

theorem single {e : ε} (h : step s e t) : Run step s [e] t :=
  show Run step s ([] ++ [e]) t from .snoc .refl h

/-- Steps that are computed one after the other make a run. -/
theorem of_foldlM {α : Type} {f : σ → α → Option σ} {g : α → ε} {as : List α}
    (hf : ∀ {s a t}, f s a = some t → step s (g a) t) (h : as.foldlM f s = some t) :
    Run step s (as.map g) t := by
  induction as generalizing s with
  | nil =>
      obtain rfl := Option.some.inj h
      exact .refl
  | cons a as ih =>
      obtain ⟨u, hu, h⟩ := Option.bind_eq_some_iff.mp h
      exact (single (hf hu)).trans (ih h)

/-- Two conditions on steps allow the same runs, if on the states of one of them
they are the same. -/
theorem and_iff {P Q : σ → ε → σ → Prop} {I : σ → Prop} (h₀ : I s)
    (hiff : ∀ t e u, I t → step t e u → (P t e u ↔ Q t e u))
    (hinv : ∀ t e u, I t → step t e u → Q t e u → I u) :
    Run (fun t e u => step t e u ∧ P t e u) s es t ↔
      Run (fun t e u => step t e u ∧ Q t e u) s es t := by
  have hI : ∀ {es t}, Run (fun t e u => step t e u ∧ Q t e u) s es t → I t := fun h =>
    h.invariant (fun t e u ht hs => hinv t e u ht hs.1 hs.2) h₀
  constructor
  · intro h
    induction h with
    | refl => exact .refl
    | snoc _ hs ih => exact .snoc ih ⟨hs.1, (hiff _ _ _ (hI ih) hs.1).mp hs.2⟩
  · intro h
    induction h with
    | refl => exact .refl
    | snoc h hs ih => exact .snoc ih ⟨hs.1, (hiff _ _ _ (hI h) hs.1).mpr hs.2⟩

theorem nil_iff : Run step s [] t ↔ t = s := by
  constructor
  · intro h
    generalize hes : ([] : List ε) = es at h
    cases h with
    | refl => rfl
    | snoc _ _ => simp at hes
  · rintro rfl
    exact .refl

theorem snoc_iff {e : ε} {u : σ} : Run step s (es ++ [e]) u ↔ ∃ t, Run step s es t ∧ step t e u := by
  constructor
  · intro h
    generalize hes : es ++ [e] = es' at h
    cases h with
    | refl => simp at hes
    | snoc h hs =>
        obtain ⟨rfl, rfl⟩ := List.append_singleton_inj.mp hes
        exact ⟨_, h, hs⟩
  · rintro ⟨t, h, hs⟩
    exact .snoc h hs

theorem single_iff {e : ε} : Run step s [e] t ↔ step s e t := by
  refine ⟨fun h => ?_, .single⟩
  have h : Run step s ([] ++ [e]) t := h
  obtain ⟨u, hu, hs⟩ := snoc_iff.mp h
  rwa [nil_iff.mp hu] at hs

/-- Steps whose result is determined by the label. -/
theorem unique (hdet : ∀ t e u u', step t e u → step t e u' → u' = u) {u : σ}
    (h : Run step s es t) (h' : Run step s es u) : u = t := by
  induction h generalizing u with
  | refl => exact nil_iff.mp h'
  | snoc _ hs ih =>
      obtain ⟨t', h', hs'⟩ := snoc_iff.mp h'
      obtain rfl := ih h'
      exact hdet _ _ _ _ hs hs'

/-- What each step preserves just when it meets a condition holds in all states of
a run just when all its steps meet the condition. -/
theorem forall_prefix_iff (hdet : ∀ t e u u', step t e u → step t e u' → u' = u)
    {P : List ε → σ → Prop} {Q : σ → ε → Prop} (h₀ : P [] s)
    (hstep : ∀ {es t e u}, Run step s es t → P es t → step t e u → (P (es ++ [e]) u ↔ Q t e))
    (h : Run step s es t) :
    (∀ es' t', es' <+: es → Run step s es' t' → P es' t') ↔
      Run (fun t e u => step t e u ∧ Q t e) s es t := by
  induction h with
  | refl =>
      refine ⟨fun _ => .refl, fun _ es' t' hpre h' => ?_⟩
      obtain rfl := List.prefix_nil.mp hpre
      rwa [nil_iff.mp h']
  | @snoc es e t u h hs ih =>
      constructor
      · intro hall
        have ht := hall es t (List.prefix_append es [e]) h
        have hu := hall (es ++ [e]) u (List.prefix_refl _) (.snoc h hs)
        have hbefore := ih.mp fun es' t' hpre => hall es' t' (hpre.trans (List.prefix_append es [e]))
        exact .snoc hbefore ⟨hs, (hstep h ht hs).mp hu⟩
      · intro hrun es' t' hpre h'
        obtain ⟨t₁, hrun, hs', hq⟩ := snoc_iff.mp hrun
        have hrun₁ : Run step s es t₁ := hrun.mono fun _ _ _ hs => hs.1
        obtain rfl := unique hdet h hrun₁
        have hbefore := ih.mpr hrun
        rcases List.prefix_concat_iff.mp hpre with rfl | hpre
        · obtain rfl := unique hdet (.snoc h hs) h'
          exact (hstep h (hbefore es _ (List.prefix_refl _) h) hs).mpr hq
        · exact hbefore es' t' hpre h'

end Run

end Transition
