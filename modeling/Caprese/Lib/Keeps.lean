import Caprese.Lib.Prog
import Mathlib.Order.Defs.Unbundled

/-!
# `Caprese.Lib.Keeps`: what a program leaves alone

`Keeps R m` says that every run of `m`, returning or stopping, ends in a state that is
related by `R` to the one it started in. For a preorder `R` it composes along the constructs
of `Prog`, so that a frame condition of a large program is put together from those of its
parts without a look at what the parts compute.

`KeepsIn r P R m` is the same for the runs from one environment `r`, and of the stops only for
those with a reason in `P`. `Avoids e m` says that no run of `m` stops with the reason `e`, and
`Steady e R m` that `m` both keeps `R` and avoids `e`.
-/

set_option autoImplicit false

namespace Lib

namespace Prog

variable {ρ ε σ α β γ : Type} {R : σ → σ → Prop}

/-- Every run ends in a state that is related to the first one. -/
def Keeps (R : σ → σ → Prop) (m : Prog ρ ε σ α) : Prop :=
  ∀ r s, wp m r (fun _ s' => R s s') (fun _ s' => R s s') s

/-- A frame condition in a proof about a run. -/
theorem Keeps.wp {m : Prog ρ ε σ α} (h : Keeps R m) {r : ρ} {s : σ} {Q : α → σ → Prop}
    {E : ε → σ → Prop} (hQ : ∀ a s', R s s' → Q a s') (hE : ∀ e s', R s s' → E e s') :
    wp m r Q E s := wp_mono (h r s) hQ hE

theorem keeps_modify {f : σ → σ} (h : ∀ s, R s (f s)) :
    Keeps R (modify f : Prog ρ ε σ Unit) := fun _ s => h s

variable [IsPreorder σ R]

theorem keeps_pure (a : α) : Keeps R (pure a : Prog ρ ε σ α) := fun _ s => refl_of R s

theorem keeps_get : Keeps R (get : Prog ρ ε σ σ) := fun _ s => refl_of R s

theorem keeps_ask : Keeps R (ask : Prog ρ ε σ ρ) := fun _ s => refl_of R s

theorem keeps_stop (e : ε) : Keeps R (stop e : Prog ρ ε σ α) := fun _ s => refl_of R s

theorem keeps_bind {m : Prog ρ ε σ α} {f : α → Prog ρ ε σ β} (hm : Keeps R m)
    (hf : ∀ a, Keeps R (f a)) : Keeps R (m >>= f) := by
  intro r s
  rw [wp_bind]
  refine hm.wp (fun a s' hs => ?_) (fun _ _ hs => hs)
  exact (hf a).wp (fun _ _ hs' => trans_of R hs hs') (fun _ _ hs' => trans_of R hs hs')

omit [IsPreorder σ R] in
theorem keeps_ite {c : Prop} [Decidable c] {m n : Prog ρ ε σ α} (hm : Keeps R m)
    (hn : Keeps R n) : Keeps R (if c then m else n) := by
  split
  · exact hm
  · exact hn

theorem keeps_loop (stuck : ε) {body : α → Prog ρ ε σ (α ⊕ β)} (h : ∀ a, Keeps R (body a))
    (fuel : Nat) (a : α) : Keeps R (loop stuck body fuel a) := by
  intro r s
  refine wp_loop (fun _ s' => R s s') ?_ ?_ fuel a s (refl_of R s)
  · intro _ _ hs
    exact hs
  · intro a s' hs
    refine (h a).wp (fun c s'' hs' => ?_) (fun _ _ hs' => trans_of R hs hs')
    cases c with
    | inl a' => exact trans_of R hs hs'
    | inr b => exact trans_of R hs hs'

theorem keeps_forM {body : α → Prog ρ ε σ Unit} (h : ∀ a, Keeps R (body a)) (l : List α) :
    Keeps R (forM body l) := by
  induction l with
  | nil => exact keeps_pure ()
  | cons a l ih => exact keeps_bind (h a) fun _ => ih

/-! ### Runs from one environment -/

section KeepsIn

variable {r : ρ} {P : ε → Prop} {m n : Prog ρ ε σ α}

/-- Every run from `r` that returns, or stops with a reason in `P`, ends in a related state. -/
def KeepsIn (r : ρ) (P : ε → Prop) (R : σ → σ → Prop) (m : Prog ρ ε σ α) : Prop :=
  ∀ s, wp m r (fun _ s' => R s s') (fun e s' => P e → R s s') s

omit [IsPreorder σ R] in
/-- A frame condition for a coarser relation. -/
theorem Keeps.keepsIn {R' : σ → σ → Prop} (h : Keeps R' m) (hR : ∀ s s', R' s s' → R s s') :
    KeepsIn r P R m := fun s => h.wp (fun _ s' h' => hR s s' h') fun _ s' h' _ => hR s s' h'

omit [IsPreorder σ R] in
theorem KeepsIn.wp (h : KeepsIn r P R m) {s : σ} {Q : α → σ → Prop} {E : ε → σ → Prop}
    (hQ : ∀ a s', R s s' → Q a s') (hE : ∀ e s', (P e → R s s') → E e s') :
    Prog.wp m r Q E s := wp_mono (h s) hQ hE

theorem keepsIn_pure (a : α) : KeepsIn r P R (pure a : Prog ρ ε σ α) := fun s => refl_of R s

theorem keepsIn_bind {f : α → Prog ρ ε σ β} (hm : KeepsIn r P R m)
    (hf : ∀ a, KeepsIn r P R (f a)) : KeepsIn r P R (m >>= f) := by
  intro s
  rw [wp_bind]
  refine hm.wp (fun a s' hs => ?_) fun _ _ hs => hs
  exact (hf a).wp (fun _ _ hs' => trans_of R hs hs') fun _ _ hs' he => trans_of R hs (hs' he)

omit [IsPreorder σ R] in
theorem keepsIn_ite {c : Prop} [Decidable c] (hm : KeepsIn r P R m) (hn : KeepsIn r P R n) :
    KeepsIn r P R (if c then m else n) := by
  split
  · exact hm
  · exact hn

end KeepsIn

/-! ### Reasons that a program never stops with -/

section Avoids

variable {e e' : ε}

/-- No run stops with `e`. -/
def Avoids (e : ε) (m : Prog ρ ε σ α) : Prop :=
  ∀ r s, wp m r (fun _ _ => True) (fun e' _ => e' ≠ e) s

/-- A postcondition of the stops need not speak about `e`. -/
theorem Avoids.wp {m : Prog ρ ε σ α} (h : Avoids e m) {r : ρ} {s : σ} {Q : α → σ → Prop}
    {E : ε → σ → Prop} (hm : wp m r Q E s) :
    wp m r Q (fun e' s' => e' ≠ e ∧ E e' s') s :=
  wp_mono (wp_and (h r s) hm) (fun _ _ hQ => hQ.2) fun _ _ hE => hE

/-- Nothing is known of the last state. -/
theorem Avoids.any {m : Prog ρ ε σ α} (h : Avoids e m) {r : ρ} {s : σ} {Q : α → σ → Prop}
    (hQ : ∀ a s', Q a s') : Prog.wp m r Q (fun e' _ => e' ≠ e) s :=
  wp_mono (h r s) (fun a s' _ => hQ a s') fun _ _ h => h

theorem avoids_pure (a : α) : Avoids e (pure a : Prog ρ ε σ α) := fun _ _ => trivial

theorem avoids_get : Avoids e (get : Prog ρ ε σ σ) := fun _ _ => trivial

theorem avoids_ask : Avoids e (ask : Prog ρ ε σ ρ) := fun _ _ => trivial

theorem avoids_modify (f : σ → σ) : Avoids e (modify f : Prog ρ ε σ Unit) := fun _ _ => trivial

theorem avoids_stop (h : e' ≠ e) : Avoids e (stop e' : Prog ρ ε σ α) := fun _ _ => h

theorem avoids_bind {m : Prog ρ ε σ α} {f : α → Prog ρ ε σ β} (hm : Avoids e m)
    (hf : ∀ a, Avoids e (f a)) : Avoids e (m >>= f) := by
  intro r s
  rw [wp_bind]
  exact wp_mono (hm r s) (fun a s' _ => hf a r s') fun _ _ h => h

theorem avoids_ite {c : Prop} [Decidable c] {m n : Prog ρ ε σ α} (hm : Avoids e m)
    (hn : Avoids e n) : Avoids e (if c then m else n) := by
  split
  · exact hm
  · exact hn

theorem avoids_loop {stuck : ε} (hstuck : stuck ≠ e) {body : α → Prog ρ ε σ (α ⊕ β)}
    (h : ∀ a, Avoids e (body a)) (fuel : Nat) (a : α) : Avoids e (loop stuck body fuel a) := by
  intro r s
  refine wp_loop (fun _ _ => True) (fun _ _ _ => hstuck) (fun a s' _ => ?_) fuel a s trivial
  refine wp_mono (h a r s') (fun c s'' _ => ?_) fun _ _ h => h
  cases c <;> trivial

theorem avoids_forM {body : α → Prog ρ ε σ Unit} (h : ∀ a, Avoids e (body a)) (l : List α) :
    Avoids e (forM body l) := by
  induction l with
  | nil => exact avoids_pure ()
  | cons a l ih => exact avoids_bind (h a) fun _ => ih

end Avoids

/-! ### Both at once -/

section Steady

variable {e : ε}

/-- Every run ends in a related state, and none stops with `e`. -/
structure Steady (e : ε) (R : σ → σ → Prop) (m : Prog ρ ε σ α) : Prop where
  keeps : Keeps R m
  avoids : Avoids e m

omit [IsPreorder σ R] in
theorem Steady.wp {m : Prog ρ ε σ α} (h : Steady e R m) {r : ρ} {s : σ} {Q : α → σ → Prop}
    {E : ε → σ → Prop} (hQ : ∀ a s', R s s' → Q a s') (hE : ∀ e' s', e' ≠ e → E e' s') :
    Prog.wp m r Q E s :=
  wp_mono (wp_and (h.keeps r s) (h.avoids r s)) (fun a s' hs => hQ a s' hs.1)
    fun e' s' he => hE e' s' he.2

omit [IsPreorder σ R] in
theorem steady_modify {f : σ → σ} (h : ∀ s, R s (f s)) :
    Steady e R (modify f : Prog ρ ε σ Unit) := ⟨keeps_modify h, avoids_modify f⟩

theorem steady_stop {e' : ε} (h : e' ≠ e) :
    Steady e R (stop e' : Prog ρ ε σ α) := ⟨keeps_stop e', avoids_stop h⟩

omit [IsPreorder σ R] in
theorem steady_ite {c : Prop} [Decidable c] {m n : Prog ρ ε σ α} (hm : Steady e R m)
    (hn : Steady e R n) : Steady e R (if c then m else n) :=
  ⟨keeps_ite hm.keeps hn.keeps, avoids_ite hm.avoids hn.avoids⟩

theorem steady_pure (a : α) : Steady e R (pure a : Prog ρ ε σ α) := ⟨keeps_pure a, avoids_pure a⟩

theorem steady_get : Steady e R (get : Prog ρ ε σ σ) := ⟨keeps_get, avoids_get⟩

theorem steady_bind {m : Prog ρ ε σ α} {f : α → Prog ρ ε σ β} (hm : Steady e R m)
    (hf : ∀ a, Steady e R (f a)) : Steady e R (m >>= f) :=
  ⟨keeps_bind hm.keeps fun a => (hf a).keeps, avoids_bind hm.avoids fun a => (hf a).avoids⟩

end Steady

end Prog

end Lib
