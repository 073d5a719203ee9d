import Mathlib.Logic.Function.Basic

/-!
# `Caprese.Lib.Prog`: imperative programs and their weakest preconditions

A program of `Prog ρ ε σ α` reads an environment `ρ`, transforms a state `σ`, and either
returns a value of `α` or stops early with a reason of `ε`. A stop keeps the state at the
stop, so a program that gives up the processor in the middle of its work is described as
well as one that aborts.

`wp m r Q E s` is the weakest precondition at the state `s`: a returning run ends in `Q`,
a stopping one in `E`. Each construct has one rule. `wp_loop` and `wp_forM` package the
inductions over loops, once and for all.

`upd` is the one-point update of a store that is a function.
-/

set_option autoImplicit false

namespace Lib

/-- How a run ends: with a value, or stopped early. -/
inductive Outcome (ε σ α : Type) where
  | ok (a : α) (s : σ)
  | stop (e : ε) (s : σ)

namespace Outcome

variable {ε σ α : Type} {o : Outcome ε σ α} {a : α} {s : σ} {e : ε}

/-- The run returns, with a value and in a state that pass the test. -/
def returns (test : α → σ → Bool) : Outcome ε σ α → Bool
  | ok a s => test a s
  | stop .. => false

/-- The run stops, with a reason and in a state that pass the test. -/
def stops (test : ε → σ → Bool) : Outcome ε σ α → Bool
  | ok .. => false
  | stop e s => test e s

theorem returns_iff {test : α → σ → Bool} :
    o.returns test = true ↔ ∃ a s, o = .ok a s ∧ test a s = true := by
  cases o with
  | ok a s =>
    refine ⟨fun h => ⟨a, s, rfl, h⟩, ?_⟩
    rintro ⟨a', s', heq, h⟩
    obtain ⟨rfl, rfl⟩ := ok.inj heq
    exact h
  | stop e s =>
    refine ⟨fun h => absurd h (by simp [returns]), ?_⟩
    rintro ⟨a', s', heq, -⟩
    cases heq

theorem stops_iff {test : ε → σ → Bool} :
    o.stops test = true ↔ ∃ e s, o = .stop e s ∧ test e s = true := by
  cases o with
  | ok a s =>
    refine ⟨fun h => absurd h (by simp [stops]), ?_⟩
    rintro ⟨e', s', heq, -⟩
    cases heq
  | stop e s =>
    refine ⟨fun h => ⟨e, s, rfl, h⟩, ?_⟩
    rintro ⟨e', s', heq, h⟩
    obtain ⟨rfl, rfl⟩ := stop.inj heq
    exact h

end Outcome

/-- A program over the environment `ρ`, the stop reasons `ε` and the state `σ`. -/
def Prog (ρ ε σ α : Type) : Type := ρ → σ → Outcome ε σ α

namespace Prog

variable {ρ ε σ α β γ : Type}

/-- Sequencing: the second program runs on the value and the state of the first. -/
protected def bind (m : Prog ρ ε σ α) (f : α → Prog ρ ε σ β) : Prog ρ ε σ β := fun r s =>
  match m r s with
  | .ok a s' => f a r s'
  | .stop e s' => .stop e s'

instance : Monad (Prog ρ ε σ) where
  pure a := fun _ s => .ok a s
  bind := Prog.bind

/-- The current state. -/
def get : Prog ρ ε σ σ := fun _ s => .ok s s

/-- The environment. -/
def ask : Prog ρ ε σ ρ := fun r s => .ok r s

/-- Replaces the state by its image under `f`. -/
def modify (f : σ → σ) : Prog ρ ε σ Unit := fun _ s => .ok () (f s)

/-- Stops with the reason `e`. -/
def stop (e : ε) : Prog ρ ε σ α := fun _ s => .stop e s

/-- Runs `body` until it answers `Sum.inr`, at most `fuel` times. Out of fuel it stops with
`stuck`. -/
def loop (stuck : ε) (body : α → Prog ρ ε σ (α ⊕ β)) : Nat → α → Prog ρ ε σ β
  | 0, _ => stop stuck
  | fuel + 1, a => do
    match ← body a with
    | .inl a' => loop stuck body fuel a'
    | .inr b => pure b

/-- Runs `body` on the elements of a list, first to last. -/
def forM (body : α → Prog ρ ε σ Unit) : List α → Prog ρ ε σ Unit
  | [] => pure ()
  | a :: as => do
    body a
    forM body as

/-- The weakest precondition: a run from `s` that returns ends in `Q`, one that stops ends
in `E`. -/
def wp (m : Prog ρ ε σ α) (r : ρ) (Q : α → σ → Prop) (E : ε → σ → Prop) (s : σ) : Prop :=
  match m r s with
  | .ok a s' => Q a s'
  | .stop e s' => E e s'

variable {r : ρ} {Q Q' : α → σ → Prop} {E E' : ε → σ → Prop} {s : σ}

@[simp] theorem wp_pure (a : α) : wp (pure a : Prog ρ ε σ α) r Q E s ↔ Q a s := Iff.rfl

@[simp] theorem wp_get {Q : σ → σ → Prop} : wp (get : Prog ρ ε σ σ) r Q E s ↔ Q s s := Iff.rfl

@[simp] theorem wp_ask {Q : ρ → σ → Prop} : wp (ask : Prog ρ ε σ ρ) r Q E s ↔ Q r s := Iff.rfl

@[simp] theorem wp_modify (f : σ → σ) {Q : Unit → σ → Prop} :
    wp (modify f : Prog ρ ε σ Unit) r Q E s ↔ Q () (f s) := Iff.rfl

@[simp] theorem wp_stop (e : ε) : wp (stop e : Prog ρ ε σ α) r Q E s ↔ E e s := Iff.rfl

@[simp] theorem wp_bind (m : Prog ρ ε σ α) (f : α → Prog ρ ε σ β) {Q : β → σ → Prop} :
    wp (m >>= f) r Q E s ↔ wp m r (fun a s' => wp (f a) r Q E s') E s := by
  show wp (Prog.bind m f) r Q E s ↔ _
  unfold wp Prog.bind
  cases m r s <;> rfl

@[simp] theorem wp_map (m : Prog ρ ε σ α) (f : α → β) {Q : β → σ → Prop} :
    wp (f <$> m) r Q E s ↔ wp m r (fun a s' => Q (f a) s') E s :=
  wp_bind m (fun a => pure (f a))

/-- Consequence: both postconditions may be weakened. -/
theorem wp_mono {m : Prog ρ ε σ α} (h : wp m r Q E s) (hQ : ∀ a s', Q a s' → Q' a s')
    (hE : ∀ e s', E e s' → E' e s') : wp m r Q' E' s := by
  unfold wp at h ⊢
  cases hm : m r s with
  | ok a s' => rw [hm] at h; exact hQ a s' h
  | stop e s' => rw [hm] at h; exact hE e s' h

/-- Nothing is asked of the run. -/
theorem wp_any {m : Prog ρ ε σ α} (hQ : ∀ a s', Q a s') (hE : ∀ e s', E e s') : wp m r Q E s := by
  unfold wp
  cases m r s with
  | ok a s' => exact hQ a s'
  | stop e s' => exact hE e s'

/-- Two postconditions of one run hold together. -/
theorem wp_and {m : Prog ρ ε σ α} (h : wp m r Q E s) (h' : wp m r Q' E' s) :
    wp m r (fun a s' => Q a s' ∧ Q' a s') (fun e s' => E e s' ∧ E' e s') s := by
  unfold wp at h h' ⊢
  cases hm : m r s with
  | ok a s' => rw [hm] at h h'; exact ⟨h, h'⟩
  | stop e s' => rw [hm] at h h'; exact ⟨h, h'⟩

/-- The two ways that a run may end. -/
theorem wp_run {m : Prog ρ ε σ α} (hok : ∀ a s', m r s = .ok a s' → Q a s')
    (hstop : ∀ e s', m r s = .stop e s' → E e s') : wp m r Q E s := by
  unfold wp
  cases hm : m r s with
  | ok a s' => exact hok a s' hm
  | stop e s' => exact hstop e s' hm

/-- What a weakest precondition says of a run that returned. -/
theorem wp_ok {m : Prog ρ ε σ α} (h : wp m r Q E s) {a : α} {s' : σ}
    (hm : m r s = .ok a s') : Q a s' := by
  unfold wp at h
  rw [hm] at h
  exact h

/-- What a weakest precondition says of a run that stopped. -/
theorem wp_stopped {m : Prog ρ ε σ α} (h : wp m r Q E s) {e : ε} {s' : σ}
    (hm : m r s = .stop e s') : E e s' := by
  unfold wp at h
  rw [hm] at h
  exact h

/-- A program that cannot return stops. -/
theorem wp_stops {m : Prog ρ ε σ α} (h : wp m r (fun _ _ => False) E s) :
    ∃ e s', m r s = .stop e s' ∧ E e s' := by
  unfold wp at h
  cases hm : m r s with
  | ok a s' => rw [hm] at h; exact absurd h id
  | stop e s' => rw [hm] at h; exact ⟨e, s', rfl, h⟩

/-- A program that cannot stop returns. -/
theorem wp_returns {m : Prog ρ ε σ α} (h : wp m r Q (fun _ _ => False) s) :
    ∃ a s', m r s = .ok a s' ∧ Q a s' := by
  unfold wp at h
  cases hm : m r s with
  | ok a s' => rw [hm] at h; exact ⟨a, s', rfl, h⟩
  | stop e s' => rw [hm] at h; exact absurd h id

/-- A stop is known by the run that it is the end of. -/
theorem wp_self {m : Prog ρ ε σ α} (h : wp m r Q E s) :
    wp m r (fun a s' => Q a s' ∧ m r s = .ok a s') (fun e s' => E e s' ∧ m r s = .stop e s') s := by
  unfold wp at h ⊢
  cases hm : m r s with
  | ok a s' => rw [hm] at h; exact ⟨h, rfl⟩
  | stop e s' => rw [hm] at h; exact ⟨h, rfl⟩

/-- A sequence whose first run is known. -/
theorem bind_of_ok {m : Prog ρ ε σ α} {f : α → Prog ρ ε σ β} {a : α} {s' : σ}
    (hm : m r s = .ok a s') : (m >>= f) r s = f a r s' := by
  show Prog.bind m f r s = _
  unfold Prog.bind
  rw [hm]

/-- A sequence whose first run stops. -/
theorem bind_of_stop {m : Prog ρ ε σ α} {f : α → Prog ρ ε σ β} {e : ε} {s' : σ}
    (hm : m r s = .stop e s') : (m >>= f) r s = .stop e s' := by
  show Prog.bind m f r s = _
  unfold Prog.bind
  rw [hm]

/-- The parts of a sequence that returns return. -/
theorem ok_of_bind {m : Prog ρ ε σ α} {f : α → Prog ρ ε σ β} {b : β} {s'' : σ}
    (h : (m >>= f) r s = .ok b s'') : ∃ a s', m r s = .ok a s' ∧ f a r s' = .ok b s'' := by
  cases hm : m r s with
  | ok a s' =>
    rw [bind_of_ok hm] at h
    exact ⟨a, s', rfl, h⟩
  | stop e s' =>
    rw [bind_of_stop hm] at h
    exact nomatch h

/-- Sequences that go on in the same way. -/
theorem bind_congr {m : Prog ρ ε σ α} {f g : α → Prog ρ ε σ β}
    (h : ∀ a s', m r s = .ok a s' → f a r s' = g a r s') : (m >>= f) r s = (m >>= g) r s := by
  cases hm : m r s with
  | ok a s' => rw [bind_of_ok hm, bind_of_ok hm, h a s' hm]
  | stop e s' => rw [bind_of_stop hm, bind_of_stop hm]

theorem bind_assoc {γ : Type} (m : Prog ρ ε σ α) (f : α → Prog ρ ε σ β) (g : β → Prog ρ ε σ γ) :
    ((m >>= f) >>= g) r s = (m >>= fun a => f a >>= g) r s := by
  cases hm : m r s with
  | ok a s' =>
    rw [bind_of_ok hm]
    cases hf : f a r s' with
    | ok b s'' => rw [bind_of_ok ((bind_of_ok hm).trans hf), bind_of_ok hf]
    | stop e s'' => rw [bind_of_stop ((bind_of_ok hm).trans hf), bind_of_stop hf]
  | stop e s' => rw [bind_of_stop hm, bind_of_stop (bind_of_stop hm)]

@[simp] theorem wp_ite (c : Prop) [Decidable c] (m n : Prog ρ ε σ α) :
    wp (if c then m else n) r Q E s ↔ (if c then wp m r Q E s else wp n r Q E s) := by
  split <;> rfl

/-- The loop rule: `I` holds at each entry of `body`, and the last run of `body` ends in `Q`.
The stop for lack of fuel is charged to `E`. -/
theorem wp_loop {stuck : ε} {body : α → Prog ρ ε σ (α ⊕ β)} {Q : β → σ → Prop}
    (I : α → σ → Prop) (hstuck : ∀ a s', I a s' → E stuck s')
    (hbody : ∀ a s', I a s' → wp (body a) r
      (fun c s'' => match c with | .inl a' => I a' s'' | .inr b => Q b s'') E s') :
    ∀ (fuel : Nat) (a : α) (s : σ), I a s → wp (loop stuck body fuel a) r Q E s := by
  intro fuel
  induction fuel with
  | zero => intro a s hI; exact hstuck a s hI
  | succ fuel ih =>
    intro a s hI
    show wp (body a >>= _) r Q E s
    rw [wp_bind]
    refine wp_mono (hbody a s hI) (fun c s' hc => ?_) (fun _ _ h => h)
    cases c with
    | inl a' => exact ih a' s' hc
    | inr b => exact hc

/-- The loop rule for total correctness: the measure `μ` of what is left to do falls with each
turn, and there is fuel for all of it. -/
theorem wp_loop_within {stuck : ε} {body : α → Prog ρ ε σ (α ⊕ β)} {Q : β → σ → Prop}
    (μ : α → Nat) (I : α → σ → Prop)
    (hbody : ∀ a s', I a s' → wp (body a) r
      (fun c s'' => match c with | .inl a' => I a' s'' ∧ μ a' < μ a | .inr b => Q b s'') E s') :
    ∀ (fuel : Nat) (a : α) (s : σ), I a s → μ a < fuel → wp (loop stuck body fuel a) r Q E s := by
  intro fuel
  induction fuel with
  | zero =>
    intro a s _ hfuel
    exact absurd hfuel (Nat.not_lt_zero _)
  | succ fuel ih =>
    intro a s hI hfuel
    show wp (body a >>= _) r Q E s
    rw [wp_bind]
    refine wp_mono (hbody a s hI) (fun c s' hc => ?_) (fun _ _ h => h)
    cases c with
    | inl a' => exact ih a' s' hc.1 (Nat.lt_of_lt_of_le hc.2 (Nat.le_of_lt_succ hfuel))
    | inr b => exact hc

/-- The loop rule for a loop that takes the elements of a list, one at each turn, and that ends
at the turn after the last, or before. -/
theorem wp_loop_list {ι : Type} {stuck : ε} {body : α → Prog ρ ε σ (α ⊕ β)} {Q : β → σ → Prop}
    (I : List ι → α → σ → Prop)
    (hcons : ∀ i rest a s', I (i :: rest) a s' → wp (body a) r
      (fun c s'' => match c with | .inl a' => I rest a' s'' | .inr b => Q b s'') E s')
    (hnil : ∀ a s', I [] a s' → wp (body a) r
      (fun c s'' => match c with | .inl _ => False | .inr b => Q b s'') E s') :
    ∀ (l : List ι) (fuel : Nat) (a : α) (s : σ), I l a s → l.length < fuel →
      wp (loop stuck body fuel a) r Q E s := by
  intro l
  induction l with
  | nil =>
    intro fuel a s hI hfuel
    obtain ⟨fuel, rfl⟩ := Nat.exists_eq_succ_of_ne_zero (Nat.ne_of_gt hfuel)
    show wp (body a >>= _) r Q E s
    rw [wp_bind]
    refine wp_mono (hnil a s hI) (fun c s' hc => ?_) (fun _ _ h => h)
    cases c with
    | inl a' => exact hc.elim
    | inr b => exact hc
  | cons i rest ih =>
    intro fuel a s hI hfuel
    obtain ⟨fuel, rfl⟩ := Nat.exists_eq_succ_of_ne_zero (Nat.ne_zero_of_lt hfuel)
    show wp (body a >>= _) r Q E s
    rw [wp_bind]
    refine wp_mono (hcons i rest a s hI) (fun c s' hc => ?_) (fun _ _ h => h)
    cases c with
    | inl a' => exact ih fuel a' s' hc (Nat.lt_of_succ_lt_succ hfuel)
    | inr b => exact hc

/-- Two sequences agree if their first parts do, and the others wherever the first one comes to. -/
theorem bind_agree {m m' : Prog ρ ε σ α} {f g : α → Prog ρ ε σ β} (hm : m r s = m' r s)
    (h : wp m r (fun a s' => f a r s' = g a r s') (fun _ _ => True) s) :
    (m >>= f) r s = (m' >>= g) r s := by
  cases hrun : m r s with
  | ok a s' =>
    rw [bind_of_ok hrun, bind_of_ok (hm.symm.trans hrun)]
    exact wp_ok h hrun
  | stop e s' => rw [bind_of_stop hrun, bind_of_stop (hm.symm.trans hrun)]

/-- Two loops agree if their bodies do at each entry. -/
theorem loop_agree {stuck : ε} {body body' : α → Prog ρ ε σ (α ⊕ β)} (I : α → σ → Prop)
    (hbody : ∀ a s', I a s' → body a r s' = body' a r s' ∧ wp (body a) r
      (fun c s'' => match c with | .inl a' => I a' s'' | .inr _ => True) (fun _ _ => True) s') :
    ∀ (fuel : Nat) (a : α) (s : σ), I a s → loop stuck body fuel a r s = loop stuck body' fuel a r s := by
  intro fuel
  induction fuel with
  | zero => exact fun _ _ _ => rfl
  | succ fuel ih =>
    intro a s hI
    obtain ⟨hsame, hwp⟩ := hbody a s hI
    refine bind_agree hsame (wp_mono hwp (fun c s' hc => ?_) fun _ _ _ => trivial)
    cases c with
    | inl a' => exact ih a' s' hc
    | inr b => rfl

/-- The rule of the bounded loop: `I` holds of the elements done so far and those to do. -/
theorem wp_forM {body : α → Prog ρ ε σ Unit} {Q : Unit → σ → Prop}
    (I : List α → List α → σ → Prop) (hend : ∀ l s', I l [] s' → Q () s')
    (hbody : ∀ done a rest s', I done (a :: rest) s' →
      wp (body a) r (fun _ s'' => I (done ++ [a]) rest s'') E s') :
    ∀ (rest done : List α) (s : σ), I done rest s → wp (forM body rest) r Q E s := by
  intro rest
  induction rest with
  | nil => intro done s hI; exact hend done s hI
  | cons a rest ih =>
    intro done s hI
    show wp (body a >>= _) r Q E s
    rw [wp_bind]
    exact wp_mono (hbody done a rest s hI) (fun _ s' h => ih (done ++ [a]) s' h)
      (fun _ _ h => h)

end Prog

/-! ### One-point updates -/

section Upd

variable {κ τ : Type} [DecidableEq κ]

/-- The store `f` with the entry at `a` replaced by `v`. -/
def upd (f : κ → τ) (a : κ) (v : τ) : κ → τ := fun x => if x = a then v else f x

theorem upd_apply (f : κ → τ) (a x : κ) (v : τ) : upd f a v x = if x = a then v else f x := rfl

@[simp] theorem upd_same (f : κ → τ) (a : κ) (v : τ) : upd f a v a = v := if_pos rfl

theorem upd_ne (f : κ → τ) {a x : κ} (v : τ) (h : x ≠ a) : upd f a v x = f x := if_neg h

@[simp] theorem upd_self (f : κ → τ) (a : κ) : upd f a (f a) = f := by
  funext x
  rw [upd_apply]
  split
  · rename_i h; rw [h]
  · rfl

end Upd

end Lib
