/-!
# `Caprese.Lib.Steps`: sequences of labelled steps

`Steps T s acts s'` says that the transitions `T` lead from `s` to `s'` with the labels
`acts`. What one step preserves, a sequence of steps preserves, and a system whose steps are
sequences of steps of another one is simulated by it.
-/

set_option autoImplicit false

namespace Lib

variable {σ τ α β : Type} {T : σ → α → σ → Prop} {U : τ → β → τ → Prop}

inductive Steps (T : σ → α → σ → Prop) (s : σ) : List α → σ → Prop
  | nil : Steps T s [] s
  | snoc {acts : List α} {act : α} {s' s'' : σ} (steps : Steps T s acts s')
      (step : T s' act s'') : Steps T s (acts ++ [act]) s''

namespace Steps

variable {s s' s'' : σ} {acts acts' : List α} {act : α}

theorem single (h : T s act s') : Steps T s [act] s' := .snoc .nil h

/-- The last step of a sequence. -/
theorem of_snoc (h : Steps T s (acts ++ [act]) s'') :
    ∃ s', Steps T s acts s' ∧ T s' act s'' := by
  generalize hacts : acts ++ [act] = l at h
  cases h with
  | nil => exact absurd hacts (by simp)
  | @snoc acts' act' s' s'' hsteps hstep =>
    obtain ⟨rfl, hact⟩ := List.append_inj' hacts rfl
    obtain rfl : act = act' := by simpa using hact
    exact ⟨s', hsteps, hstep⟩

theorem of_nil (h : Steps T s [] s') : s' = s := by
  generalize hacts : ([] : List α) = l at h
  cases h with
  | nil => rfl
  | snoc => exact absurd hacts (by simp)

theorem of_single (h : Steps T s [act] s') : T s act s' := by
  have hsnoc : Steps T s ([] ++ [act]) s' := h
  obtain ⟨s₁, hnil, hstep⟩ := of_snoc hsnoc
  rwa [of_nil hnil] at hstep

theorem append (h : Steps T s acts s') (h' : Steps T s' acts' s'') :
    Steps T s (acts ++ acts') s'' := by
  induction h' with
  | nil => rwa [List.append_nil]
  | snoc _ hstep ih =>
    rw [← List.append_assoc]
    exact .snoc ih hstep

theorem mono {T' : σ → α → σ → Prop} (hT : ∀ s act s', T s act s' → T' s act s')
    (h : Steps T s acts s') : Steps T' s acts s' := by
  induction h with
  | nil => exact .nil
  | snoc _ hstep ih => exact .snoc ih (hT _ _ _ hstep)

/-- What every step preserves, a sequence of steps preserves. -/
theorem invariant {I : σ → Prop} (hI : ∀ s act s', I s → T s act s' → I s')
    (h : Steps T s acts s') (hs : I s) : I s' := by
  induction h with
  | nil => exact hs
  | snoc _ hstep ih => exact hI _ _ _ ih hstep

/-- The steps may use what is known of their labels. -/
theorem invariant_of {I : σ → Prop} {P : α → Prop}
    (hI : ∀ s act s', P act → I s → T s act s' → I s') (h : Steps T s acts s')
    (hacts : ∀ act ∈ acts, P act) (hs : I s) : I s' := by
  induction h with
  | nil => exact hs
  | @snoc acts act s' s'' _ hstep ih =>
    refine hI _ _ _ (hacts act (by simp)) (ih fun act hact => hacts act ?_) hstep
    exact List.mem_append_left _ hact

/-- A system whose steps are sequences of steps of another one. The function `f` reads off a
state of the one what the other sees of it, and `I` is what the argument needs to know. -/
theorem simulate {f : σ → τ} {I : σ → Prop}
    (hstep : ∀ s act s', I s → T s act s' → I s' ∧ ∃ acts, Steps U (f s) acts (f s'))
    (h : Steps T s acts s') (hs : I s) : I s' ∧ ∃ acts, Steps U (f s) acts (f s') := by
  induction h with
  | nil => exact ⟨hs, [], .nil⟩
  | snoc _ ht ih =>
    obtain ⟨hI, acts, hsteps⟩ := ih
    obtain ⟨hI', acts', hsteps'⟩ := hstep _ _ _ hI ht
    exact ⟨hI', acts ++ acts', hsteps.append hsteps'⟩

end Steps

end Lib
