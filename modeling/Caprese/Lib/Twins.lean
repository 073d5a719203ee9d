import Caprese.Lib.Prog

/-!
# `Caprese.Lib.Twins`: two runs side by side

`Twins r S V m` says that two runs of `m` in the environment `r`, from states that are related by `S`, end alike: with
the same answer, which meets `V`, or with the same reason to stop, and in states that are again
related by `S`. For an `S` that hides a part of the state it says that this part has no influence
on the rest.
-/

set_option autoImplicit false

namespace Lib

namespace Prog

variable {ρ ε σ α β : Type} {r : ρ} {S : σ → σ → Prop} {V V' : α → Prop} {W : β → Prop}

/-- Two outcomes are alike. -/
def Alike (S : σ → σ → Prop) (V : α → Prop) : Outcome ε σ α → Outcome ε σ α → Prop
  | .ok a s, .ok b t => a = b ∧ S s t ∧ V a
  | .stop e s, .stop e' t => e = e' ∧ S s t
  | _, _ => False

/-- Two runs from related states end alike. -/
def Twins (r : ρ) (S : σ → σ → Prop) (V : α → Prop) (m : Prog ρ ε σ α) : Prop :=
  ∀ s t, S s t → Alike S V (m r s) (m r t)

theorem Alike.mono {o o' : Outcome ε σ α} (h : Alike S V o o') (hV : ∀ a, V a → V' a) :
    Alike S V' o o' := by
  cases o with
  | ok a s =>
    cases o' with
    | ok b t => exact ⟨h.1, h.2.1, hV a h.2.2⟩
    | stop e t => exact h
  | stop e s =>
    cases o' with
    | ok b t => exact h
    | stop e' t => exact h

theorem Twins.mono {m : Prog ρ ε σ α} (h : Twins r S V m) (hV : ∀ a, V a → V' a) : Twins r S V' m :=
  fun s t hst => (h s t hst).mono hV

theorem twins_pure {a : α} (hV : V a) : Twins r S V (pure a : Prog ρ ε σ α) := fun _ _ hst =>
  ⟨rfl, hst, hV⟩

theorem twins_stop (e : ε) : Twins r S V (stop e : Prog ρ ε σ α) := fun _ _ hst => ⟨rfl, hst⟩

theorem twins_modify {f : σ → σ} (h : ∀ s t, S s t → S (f s) (f t)) :
    Twins r S (fun _ => True) (modify f : Prog ρ ε σ Unit) := fun s t hst =>
  ⟨rfl, h s t hst, trivial⟩

/-- Two runs of a sequence, where it is known which run the first one is. -/
theorem alike_bind {m : Prog ρ ε σ α} {f : α → Prog ρ ε σ β} {s t : σ}
    (hm : Alike S V (m r s) (m r t))
    (hf : ∀ a s' t', m r s = .ok a s' → S s' t' → V a → Alike S W (f a r s') (f a r t')) :
    Alike S W ((m >>= f) r s) ((m >>= f) r t) := by
  show Alike S W (Prog.bind m f r s) (Prog.bind m f r t)
  unfold Prog.bind
  cases hs : m r s with
  | ok a s' =>
    cases ht : m r t with
    | ok b t' =>
      rw [hs, ht] at hm
      obtain ⟨rfl, hst', hV⟩ := hm
      exact hf a s' t' hs hst' hV
    | stop e t' =>
      rw [hs, ht] at hm
      exact absurd hm id
  | stop e s' =>
    cases ht : m r t with
    | ok b t' =>
      rw [hs, ht] at hm
      exact absurd hm id
    | stop e' t' =>
      rw [hs, ht] at hm
      exact hm

theorem twins_bind {m : Prog ρ ε σ α} {f : α → Prog ρ ε σ β} (hm : Twins r S V m)
    (hf : ∀ a, V a → Twins r S W (f a)) : Twins r S W (m >>= f) := fun s t hst =>
  alike_bind (hm s t hst) fun a s' t' _ hst' hV => hf a hV s' t' hst'

/-- A read of what the related states have in common. -/
theorem twins_get {f : σ → Prog ρ ε σ α} (h : ∀ s t, S s t → f t = f s ∧ Twins r S V (f s)) :
    Twins r S V (get >>= f) := by
  intro s t hst
  obtain ⟨heq, hf⟩ := h s t hst
  show Alike S V (f s r s) (f t r t)
  rw [heq]
  exact hf s t hst

theorem twins_ask {f : ρ → Prog ρ ε σ α} (h : Twins r S V (f r)) : Twins r S V (ask >>= f) :=
  fun s t hst => h s t hst

theorem twins_ite {c : Prop} [Decidable c] {m n : Prog ρ ε σ α} (hm : c → Twins r S V m)
    (hn : ¬ c → Twins r S V n) : Twins r S V (if c then m else n) := by
  split
  · rename_i h
    exact hm h
  · rename_i h
    exact hn h

/-- The loop rule: `I` holds of what each turn begins with. -/
theorem twins_loop (stuck : ε) {body : α → Prog ρ ε σ (α ⊕ β)} (I : α → Prop)
    (h : ∀ a, I a → Twins r S (Sum.elim I W) (body a)) (fuel : Nat) :
    ∀ a, I a → Twins r S W (loop stuck body fuel a) := by
  induction fuel with
  | zero => exact fun a _ => twins_stop stuck
  | succ fuel ih =>
    intro a ha
    refine twins_bind (h a ha) fun c hc => ?_
    cases c with
    | inl a' => exact ih a' hc
    | inr b => exact twins_pure hc

end Prog

end Lib
