import Caprese.Lib.Keeps
import Caprese.Lib.Twins

/-!
# `Caprese.Lib.Abreast`: two programs side by side

`wpBoth m m' r Q E s t` is the weakest precondition of two runs, one of `m` from `s` and one of
`m'` from `t`: they end alike, either both with an answer, and then `Q` holds of the two answers
and of the two states, or both with the same reason to stop, and then `E` does. In contrast to
`Twins` the two programs may differ, and their answers too: this is how a program is compared
with its image under a renaming of what it works on.
-/

set_option autoImplicit false

namespace Lib

namespace Prog

variable {ρ ε σ α α' β β' : Type} {r : ρ} {s t : σ} {Q Q' : α → α' → σ → σ → Prop}
  {E E' : ε → σ → σ → Prop}

/-- The weakest precondition of two runs that end alike. -/
def wpBoth (m : Prog ρ ε σ α) (m' : Prog ρ ε σ α') (r : ρ) (Q : α → α' → σ → σ → Prop)
    (E : ε → σ → σ → Prop) (s t : σ) : Prop :=
  match m r s, m' r t with
  | .ok a s', .ok b t' => Q a b s' t'
  | .stop e s', .stop e' t' => e = e' ∧ E e s' t'
  | _, _ => False

theorem wpBoth_pure {a : α} {b : α'} (hQ : Q a b s t) :
    wpBoth (pure a : Prog ρ ε σ α) (pure b : Prog ρ ε σ α') r Q E s t := hQ

theorem wpBoth_stop {e : ε} (hE : E e s t) :
    wpBoth (stop e : Prog ρ ε σ α) (stop e : Prog ρ ε σ α') r Q E s t := ⟨rfl, hE⟩

/-- The first run, returning or stopping, fixes how the second one ends. -/
theorem wpBoth_iff {m : Prog ρ ε σ α} {m' : Prog ρ ε σ α'} : wpBoth m m' r Q E s t ↔
    (∃ a b s' t', m r s = .ok a s' ∧ m' r t = .ok b t' ∧ Q a b s' t') ∨
      ∃ e s' t', m r s = .stop e s' ∧ m' r t = .stop e t' ∧ E e s' t' := by
  unfold wpBoth
  cases m r s with
  | ok a s' =>
    cases m' r t with
    | ok b t' =>
      constructor
      · exact fun hQ => .inl ⟨a, b, s', t', rfl, rfl, hQ⟩
      · rintro (⟨_, _, _, _, ⟨rfl, rfl⟩, ⟨rfl, rfl⟩, hQ⟩ | ⟨_, _, _, hstop, -⟩)
        · exact hQ
        · exact nomatch hstop
    | stop e' t' =>
      refine iff_of_false id ?_
      rintro (⟨_, _, _, _, -, hok, -⟩ | ⟨_, _, _, hstop, -⟩)
      · exact nomatch hok
      · exact nomatch hstop
  | stop e s' =>
    cases m' r t with
    | ok b t' =>
      refine iff_of_false id ?_
      rintro (⟨_, _, _, _, hok, -⟩ | ⟨_, _, _, -, hstop, -⟩)
      · exact nomatch hok
      · exact nomatch hstop
    | stop e' t' =>
      constructor
      · rintro ⟨rfl, hE⟩
        exact .inr ⟨e, s', t', rfl, rfl, hE⟩
      · rintro (⟨_, _, _, _, hok, -⟩ | ⟨_, _, _, ⟨rfl, rfl⟩, ⟨rfl, rfl⟩, hE⟩)
        · exact nomatch hok
        · exact ⟨rfl, hE⟩

theorem wpBoth_ok {m : Prog ρ ε σ α} {m' : Prog ρ ε σ α'} {a : α} {b : α'} {s' t' : σ}
    (hm : m r s = .ok a s') (hm' : m' r t = .ok b t') (hQ : Q a b s' t') :
    wpBoth m m' r Q E s t := wpBoth_iff.mpr (.inl ⟨a, b, s', t', hm, hm', hQ⟩)

theorem wpBoth_mono {m : Prog ρ ε σ α} {m' : Prog ρ ε σ α'} (h : wpBoth m m' r Q E s t)
    (hQ : ∀ a b s' t', Q a b s' t' → Q' a b s' t') (hE : ∀ e s' t', E e s' t' → E' e s' t') :
    wpBoth m m' r Q' E' s t := by
  rw [wpBoth_iff] at h ⊢
  rcases h with ⟨a, b, s', t', hm, hm', h⟩ | ⟨e, s', t', hm, hm', h⟩
  · exact .inl ⟨a, b, s', t', hm, hm', hQ a b s' t' h⟩
  · exact .inr ⟨e, s', t', hm, hm', hE e s' t' h⟩

theorem wpBoth_bind {m : Prog ρ ε σ α} {m' : Prog ρ ε σ α'} {f : α → Prog ρ ε σ β}
    {f' : α' → Prog ρ ε σ β'} {Q : β → β' → σ → σ → Prop}
    (h : wpBoth m m' r (fun a b s' t' => wpBoth (f a) (f' b) r Q E s' t') E s t) :
    wpBoth (m >>= f) (m' >>= f') r Q E s t := by
  rcases wpBoth_iff.mp h with ⟨a, b, s', t', hm, hm', h⟩ | ⟨e, s', t', hm, hm', h⟩
  · unfold wpBoth
    rw [bind_of_ok hm, bind_of_ok hm']
    exact h
  · exact wpBoth_iff.mpr (.inr ⟨e, s', t', bind_of_stop hm, bind_of_stop hm', h⟩)

theorem wpBoth_get {f : σ → Prog ρ ε σ α} {f' : σ → Prog ρ ε σ α'}
    (h : wpBoth (f s) (f' t) r Q E s t) : wpBoth (get >>= f) (get >>= f') r Q E s t := h

theorem wpBoth_ask {f : ρ → Prog ρ ε σ α} {f' : ρ → Prog ρ ε σ α'}
    (h : wpBoth (f r) (f' r) r Q E s t) : wpBoth (ask >>= f) (ask >>= f') r Q E s t := h

theorem wpBoth_modify {f f' : σ → σ} {Q : Unit → Unit → σ → σ → Prop} (hQ : Q () () (f s) (f' t)) :
    wpBoth (modify f : Prog ρ ε σ Unit) (modify f') r Q E s t := hQ

/-- Both runs take the same branch. -/
theorem wpBoth_ite {c c' : Prop} [Decidable c] [Decidable c'] {m n : Prog ρ ε σ α}
    {m' n' : Prog ρ ε σ α'} (hc : c' ↔ c) (hm : c → wpBoth m m' r Q E s t)
    (hn : ¬ c → wpBoth n n' r Q E s t) :
    wpBoth (if c then m else n) (if c' then m' else n') r Q E s t := by
  by_cases h : c
  · rw [if_pos h, if_pos (hc.mpr h)]
    exact hm h
  · rw [if_neg h, if_neg (mt hc.mp h)]
    exact hn h

/-- The loop rule: both loops turn equally often. -/
theorem wpBoth_loop {stuck : ε} {body : α → Prog ρ ε σ (α ⊕ β)} {body' : α' → Prog ρ ε σ (α' ⊕ β')}
    {Q : β → β' → σ → σ → Prop} (I : α → α' → σ → σ → Prop)
    (hstuck : ∀ a b s t, I a b s t → E stuck s t)
    (hbody : ∀ a b s t, I a b s t → wpBoth (body a) (body' b) r (fun c d s' t' =>
      (∃ a' b', c = .inl a' ∧ d = .inl b' ∧ I a' b' s' t') ∨
        ∃ a' b', c = .inr a' ∧ d = .inr b' ∧ Q a' b' s' t') E s t) (fuel : Nat) :
    ∀ (a : α) (b : α') (s t : σ), I a b s t →
      wpBoth (loop stuck body fuel a) (loop stuck body' fuel b) r Q E s t := by
  induction fuel with
  | zero => exact fun a b s t hI => wpBoth_stop (hstuck a b s t hI)
  | succ fuel ih =>
    intro a b s t hI
    refine wpBoth_bind (wpBoth_mono (hbody a b s t hI) ?_ fun _ _ _ h => h)
    rintro _ _ s' t' (⟨a', b', rfl, rfl, hI'⟩ | ⟨a', b', rfl, rfl, hQ⟩)
    · exact ih a' b' s' t' hI'
    · exact hQ

/-- Both runs return. -/
theorem wpBoth_of_wp {m : Prog ρ ε σ α} {m' : Prog ρ ε σ α'}
    (h : wp m r (fun a s' => wp m' r (fun b t' => Q a b s' t') (fun _ _ => False) t)
      (fun _ _ => False) s) : wpBoth m m' r Q E s t := by
  obtain ⟨a, s', hm, h⟩ := wp_returns h
  obtain ⟨b, t', hm', hQ⟩ := wp_returns h
  exact wpBoth_ok hm hm' hQ

/-- What each run guarantees alone. -/
theorem wpBoth_and {m : Prog ρ ε σ α} {m' : Prog ρ ε σ α'} {P : α → σ → Prop} {P' : α' → σ → Prop}
    {F F' : ε → σ → Prop} (h : wpBoth m m' r Q E s t) (hm : wp m r P F s) (hm' : wp m' r P' F' t) :
    wpBoth m m' r (fun a b s' t' => Q a b s' t' ∧ P a s' ∧ P' b t')
      (fun e s' t' => E e s' t' ∧ F e s' ∧ F' e t') s t := by
  rw [wpBoth_iff] at h ⊢
  rcases h with ⟨a, b, s', t', hrun, hrun', h⟩ | ⟨e, s', t', hrun, hrun', h⟩
  · exact .inl ⟨a, b, s', t', hrun, hrun', h, wp_ok hm hrun, wp_ok hm' hrun'⟩
  · exact .inr ⟨e, s', t', hrun, hrun', h, wp_stopped hm hrun, wp_stopped hm' hrun'⟩

/-- One program whose runs from related states end alike. -/
theorem Twins.both {S : σ → σ → Prop} {V : α → Prop} {m : Prog ρ ε σ α} (h : Twins r S V m)
    (hst : S s t) : wpBoth m m r (fun a b s' t' => b = a ∧ S s' t') (fun _ s' t' => S s' t') s t := by
  have hrun := h s t hst
  unfold wpBoth
  cases hm : m r s with
  | ok a s' =>
    cases hm' : m r t with
    | ok b t' =>
      rw [hm, hm'] at hrun
      exact ⟨hrun.1.symm, hrun.2.1⟩
    | stop e' t' =>
      rw [hm, hm'] at hrun
      exact hrun
  | stop e s' =>
    cases hm' : m r t with
    | ok b t' =>
      rw [hm, hm'] at hrun
      exact hrun
    | stop e' t' =>
      rw [hm, hm'] at hrun
      exact hrun

end Prog

end Lib
