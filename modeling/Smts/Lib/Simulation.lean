import Smts.Lib.Transition
import Mathlib.Data.List.ReduceOption

/-!
# Simulation — systems with silent steps

A lower system, whose steps may be silent, against an upper one, all of whose
steps have a label. If every lower step is none above or the one of its label,
lower runs show upper runs; if every upper step can be taken below, with silent
steps around it, they show all of them.
-/

namespace Transition

variable {σ τ ε : Type} {low : σ → Option ε → σ → Prop} {high : τ → ε → τ → Prop}
  {R : σ → τ → Prop} {s s' : σ} {t t' : τ}

/-- A forward simulation: a labelled step below is a step above with the same
label, and a silent step below is none above. -/
structure Simulates (low : σ → Option ε → σ → Prop) (high : τ → ε → τ → Prop)
    (R : σ → τ → Prop) : Prop where
  silent : ∀ {s s' t}, R s t → low s none s' → R s' t
  labelled : ∀ {s s' t e}, R s t → low s (some e) s' → ∃ t', high t e t' ∧ R s' t'

/-- An upper step is some lower steps, of which all but one are silent. -/
def Realises (low : σ → Option ε → σ → Prop) (high : τ → ε → τ → Prop) (R : σ → τ → Prop) : Prop :=
  ∀ {s t e t'}, R s t → high t e t' →
    ∃ os s', Run low s os s' ∧ os.reduceOption = [e] ∧ R s' t'

theorem Simulates.run {os : List (Option ε)} (hsim : Simulates low high R) (h₀ : R s t)
    (h : Run low s os s') : ∃ t', Run high t os.reduceOption t' ∧ R s' t' := by
  induction h with
  | refl => exact ⟨t, .refl, h₀⟩
  | @snoc os o s₁ s₂ _ hstep ih =>
      obtain ⟨t₁, hrun, hR⟩ := ih
      rw [List.reduceOption_append]
      cases o with
      | none =>
          rw [List.reduceOption_cons_of_none, List.reduceOption_nil, List.append_nil]
          exact ⟨t₁, hrun, hsim.silent hR hstep⟩
      | some e =>
          obtain ⟨t₂, hstep, hR⟩ := hsim.labelled hR hstep
          rw [List.reduceOption_cons_of_some, List.reduceOption_nil]
          exact ⟨t₂, .snoc hrun hstep, hR⟩

theorem Realises.run {es : List ε} (hreal : Realises low high R) (h₀ : R s t)
    (h : Run high t es t') : ∃ os s', Run low s os s' ∧ os.reduceOption = es ∧ R s' t' := by
  induction h with
  | refl => exact ⟨[], s, .refl, rfl, h₀⟩
  | @snoc es e t₁ t₂ _ hstep ih =>
      obtain ⟨os, s₁, hrun, rfl, hR⟩ := ih
      obtain ⟨os', s₂, hrun', he, hR⟩ := hreal hR hstep
      refine ⟨os ++ os', s₂, hrun.trans hrun', ?_, hR⟩
      rw [List.reduceOption_append, he]

/-- What is seen of the lower system are the runs of the upper one. -/
theorem traces_iff {Q : σ → τ → Prop} {view : σ → τ} (hsim : Simulates low high R)
    (hreal : Realises low high Q) (hR : ∀ {s t}, R s t → view s = t)
    (hQ : ∀ {s t}, Q s t → view s = t) (h₀ : R s t) (h₀' : Q s t) {es : List ε} :
    (∃ os s', Run low s os s' ∧ os.reduceOption = es ∧ view s' = t') ↔ Run high t es t' := by
  constructor
  · rintro ⟨os, s', hrun, rfl, rfl⟩
    obtain ⟨t', hrun, hs'⟩ := hsim.run h₀ hrun
    exact hR hs' ▸ hrun
  · intro hrun
    obtain ⟨os, s', hrun, hes, hs'⟩ := hreal.run h₀' hrun
    exact ⟨os, s', hrun, hes, hQ hs'⟩

end Transition
