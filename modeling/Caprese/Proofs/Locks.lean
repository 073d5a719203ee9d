import Caprese.Kernel.Lock
import Caprese.Sched.Start
import Mathlib.Algebra.Ring.Int.Defs

/-!
# `Caprese.Proofs.Locks`: who holds a lock

`recursive_spinlock_t` tells its holder by `owner`, and a free lock by an `owner` of 0. The tasks
that `init_task` sets up have other identities than 0, so among them the lock has one holder, and
`count` says how often this one acquired it (`lock_exclusive`). The idle tasks keep the identity
0. Such a task takes a free lock for its own: it counts up, and leaves the flag and `owner` as they
are, so that the next task acquires the lock too (`idle_lock_shared`).
-/

set_option autoImplicit false

namespace Caprese

open Lib Prog

section Locks

variable {τ : Type} [DecidableEq τ] {tid : τ → Nat} {l l' : RecursiveSpinlock}
  {acts : List (τ × LockCall)} {t u : τ} {call : LockCall} {current bound : Nat}

/-! ### One call -/

theorem wp_testAndSet {Q : Bool → RecursiveSpinlock → Prop} {E : Stop → RecursiveSpinlock → Prop} :
    wp testAndSet bound Q E l ↔ Q l.state { l with state := true } := Iff.rfl

/-- The loop of `lock` ends if it finds a free lock, and waits forever if not. -/
theorem wp_lock : wp (lock current) bound (fun _ l' =>
    l.owner = current ∧ l' = { l with count := (l.count + 1) % 2 ^ 32 } ∨
    l.owner ≠ current ∧ l.state = false ∧ l.owner = 0 ∧ l' = ⟨true, current, 1⟩)
    (fun _ _ => True) l := by
  unfold lock
  rw [wp_bind, wp_get, wp_ite]
  split
  · rename_i howner
    exact Or.inl ⟨howner, rfl⟩
  · rename_i howner
    rw [wp_bind, wp_ask]
    -- The lock is as it was found, or its flag is set and will never be cleared.
    refine wp_loop (fun _ l' => l' = l ∨ l'.state = true) (fun _ _ _ => trivial) ?_ _ _ _
      (Or.inl rfl)
    intro _ l₁ h₁
    rw [wp_bind, wp_testAndSet, wp_ite]
    split
    · exact Or.inr rfl
    · rename_i hstate
      obtain rfl : l₁ = l := h₁.resolve_right hstate
      rw [wp_bind, wp_get, wp_ite]
      split
      · rename_i hfree
        exact Or.inr ⟨howner, Bool.eq_false_iff.mpr hstate, hfree, rfl⟩
      · exact Or.inr rfl

theorem wp_countDown {Q : Unit → RecursiveSpinlock → Prop} {E : Stop → RecursiveSpinlock → Prop} :
    wp countDown bound Q E l ↔ Q () { l with count := (l.count + 2 ^ 32 - 1) % 2 ^ 32 } := by
  unfold countDown
  rw [wp_modify]

theorem wp_unlock : wp (unlock current) bound (fun _ l' => l.owner = current ∧
    l' = if (l.count + 2 ^ 32 - 1) % 2 ^ 32 = 0 then ⟨false, 0, 0⟩
      else { l with count := (l.count + 2 ^ 32 - 1) % 2 ^ 32 }) (fun _ _ => True) l := by
  unfold unlock
  rw [wp_bind, wp_get, wp_ite]
  by_cases howner : l.owner = current
  · rw [if_neg (not_not.mpr howner), wp_bind, wp_countDown, wp_bind, wp_get, wp_ite]
    generalize (l.count + 2 ^ 32 - 1) % 2 ^ 32 = count
    by_cases hcount : count = 0
    · subst hcount
      exact ⟨howner, rfl⟩
    · rw [if_neg hcount]
      exact ⟨howner, (if_neg hcount).symm⟩
  · rw [if_pos howner]
    exact True.intro

theorem wp_tryLock : wp (tryLock current) bound (fun answer l' =>
    l.owner = current ∧ l' = { l with count := (l.count + 1) % 2 ^ 32 } ∨
    l.owner ≠ current ∧ (answer = true → l.state = false ∧
      (l.owner = 0 → l' = ⟨true, current, 1⟩))) (fun _ _ => True) l := by
  unfold tryLock
  rw [wp_bind, wp_get, wp_ite]
  split
  · rename_i howner
    exact Or.inl ⟨howner, rfl⟩
  · rename_i howner
    rw [wp_bind, wp_testAndSet, wp_ite]
    split
    · exact Or.inr ⟨howner, nofun⟩
    · rename_i hstate
      have hstate : l.state = false := Bool.eq_false_iff.mpr hstate
      rw [wp_bind, wp_get]
      dsimp only
      rw [wp_ite]
      split
      · exact Or.inr ⟨howner, fun _ => ⟨hstate, fun _ => rfl⟩⟩
      · rename_i hfree
        exact Or.inr ⟨howner, fun _ => ⟨hstate, fun h => absurd h hfree⟩⟩

omit [DecidableEq τ] in
/-- What a call that succeeds did: the owner counted up, or a task took the lock whose flag was
clear, or the owner counted down. -/
theorem LockStep.inv (hstep : LockStep tid l (t, call) l') :
    (call ≠ .unlock ∧ l.owner = tid t ∧ l' = { l with count := (l.count + 1) % 2 ^ 32 }) ∨
    (call ≠ .unlock ∧ l.owner ≠ tid t ∧ l.state = false ∧
      (l.owner = 0 → l' = ⟨true, tid t, 1⟩)) ∨
    (call = .unlock ∧ l.owner = tid t ∧ l' = if (l.count + 2 ^ 32 - 1) % 2 ^ 32 = 0 then ⟨false, 0, 0⟩
      else { l with count := (l.count + 2 ^ 32 - 1) % 2 ^ 32 }) := by
  cases hstep with
  | served bound hrun =>
    cases call with
    | lock =>
      obtain ⟨_, _, hlock, hpure⟩ := ok_of_bind hrun
      obtain ⟨-, rfl⟩ := Outcome.ok.inj hpure
      rcases wp_ok wp_lock hlock with ⟨howner, rfl⟩ | ⟨howner, hstate, -, rfl⟩
      · exact Or.inl ⟨nofun, howner, rfl⟩
      · exact Or.inr (Or.inl ⟨nofun, howner, hstate, fun _ => rfl⟩)
    | unlock =>
      obtain ⟨_, _, hunlock, hpure⟩ := ok_of_bind hrun
      obtain ⟨-, rfl⟩ := Outcome.ok.inj hpure
      exact Or.inr (Or.inr ⟨rfl, wp_ok wp_unlock hunlock⟩)
    | tryLock =>
      rcases wp_ok wp_tryLock hrun with ⟨howner, rfl⟩ | ⟨howner, htaken⟩
      · exact Or.inl ⟨nofun, howner, rfl⟩
      · exact Or.inr (Or.inl ⟨nofun, howner, htaken rfl⟩)

/-! ### Who holds the lock -/

/-- What a call adds to the acquisitions of its task. -/
def LockCall.gain : LockCall → Int
  | .unlock => -1
  | .lock | .tryLock => 1

theorem LockCall.gain_eq_one (h : call ≠ .unlock) : call.gain = 1 := by
  cases call with
  | unlock => exact absurd rfl h
  | lock => rfl
  | tryLock => rfl

/-- The successful acquisitions of the task `t`, less its unlocks. -/
def outstanding (acts : List (τ × LockCall)) (t : τ) : Int :=
  (acts.map fun act => if act.1 = t then act.2.gain else 0).sum

theorem outstanding_snoc : outstanding (acts ++ [(u, call)]) t
    = outstanding acts t + if u = t then call.gain else 0 := by
  simp [outstanding]

/-- At most one task holds the lock, `count` is the number of its acquisitions, and no call
succeeds while another task holds it. -/
structure Exclusive (tid : τ → Nat) (ok : RecursiveSpinlock → τ × LockCall → Prop)
    (l : RecursiveSpinlock) (acts : List (τ × LockCall)) : Prop where
  one : ∀ t u, 0 < outstanding acts t → 0 < outstanding acts u → t = u
  count : ∀ t, 0 < outstanding acts t → l.count = outstanding acts t
  next : ∀ act l', ok l act → LockStep tid l act l' →
    ∀ u, u ≠ act.1 → outstanding acts u ≤ 0

/-- The caller is no idle task, and does not acquire the lock more often than 32 bits can tell. -/
def LockOk (tid : τ → Nat) (l : RecursiveSpinlock) (act : τ × LockCall) : Prop :=
  tid act.1 ≠ 0 ∧ (act.2 ≠ .unlock → l.owner = tid act.1 → l.count + 1 < 2 ^ 32)

/-- The lock is held by the task `t`, which acquired it `count` times. -/
structure HeldBy (tid : τ → Nat) (l : RecursiveSpinlock) (acts : List (τ × LockCall)) (t : τ) :
    Prop where
  state : l.state = true
  owner : l.owner = tid t
  known : tid t ≠ 0
  pos : 0 < l.count
  bound : l.count < 2 ^ 32
  holder : outstanding acts t = l.count
  other : ∀ u, u ≠ t → outstanding acts u = 0

/-- The lock is free, or held by a task. -/
def LockInv (tid : τ → Nat) (l : RecursiveSpinlock) (acts : List (τ × LockCall)) : Prop :=
  l = .free ∧ (∀ t, outstanding acts t = 0) ∨ ∃ t, HeldBy tid l acts t

/-- The identities of tasks, of which only idle tasks share one. -/
def Distinct (tid : τ → Nat) : Prop := ∀ t u, tid t = tid u → tid t ≠ 0 → t = u

theorem countDown_eq {n : Nat} (hpos : 0 < n) (hbound : n < 2 ^ 32) :
    (n + 2 ^ 32 - 1) % 2 ^ 32 = n - 1 := by
  omega

/-- A task takes a free lock. -/
theorem LockInv.step_free (hout : ∀ t, outstanding acts t = 0) (hok : LockOk tid .free (t, call))
    (hstep : LockStep tid .free (t, call) l') : LockInv tid l' (acts ++ [(t, call)]) := by
  have hne : RecursiveSpinlock.free.owner ≠ tid t := fun h => hok.1 h.symm
  rcases hstep.inv with ⟨-, howner, -⟩ | ⟨hcall, -, -, htaken⟩ | ⟨-, howner, -⟩
  · exact absurd howner hne
  · obtain rfl := htaken rfl
    refine Or.inr ⟨t, rfl, rfl, hok.1, Nat.one_pos, ?_, ?_, fun u hu => ?_⟩
    · show 1 < 2 ^ 32
      decide
    · rw [outstanding_snoc, hout, if_pos rfl, LockCall.gain_eq_one hcall]
      rfl
    · rw [outstanding_snoc, hout, if_neg hu.symm]
      rfl
  · exact absurd howner hne

/-- The holder acquires the lock again, or gives it back once. -/
theorem HeldBy.step (htid : Distinct tid) (h : HeldBy tid l acts u) (hok : LockOk tid l (t, call))
    (hstep : LockStep tid l (t, call) l') : t = u ∧ LockInv tid l' (acts ++ [(t, call)]) := by
  have hother : ∀ v, v ≠ u → t = u → outstanding (acts ++ [(t, call)]) v = 0 := by
    intro v hv htu
    rw [outstanding_snoc, h.other v hv, if_neg fun heq => hv (heq.symm.trans htu)]
    rfl
  have hpos : 0 < l.count := h.pos
  have hbound : l.count < 2 ^ 32 := h.bound
  rcases hstep.inv with ⟨hcall, howner, rfl⟩ | ⟨-, -, hstate, -⟩ | ⟨rfl, howner, hl'⟩
  -- Locked again: only the holder gets in, and its count goes up with what it owes.
  · have htu : t = u := (htid u t (h.owner.symm.trans howner) h.known).symm
    have hlt : l.count + 1 < 2 ^ 32 := hok.2 hcall howner
    have hmod : (l.count + 1) % 2 ^ 32 = l.count + 1 := Nat.mod_eq_of_lt hlt
    refine ⟨htu, Or.inr ⟨u, h.state, h.owner, h.known, ?_, ?_, ?_, fun v hv => hother v hv htu⟩⟩
    · rw [hmod]
      exact Nat.succ_pos _
    · rw [hmod]
      exact hlt
    · rw [outstanding_snoc, h.holder, if_pos htu, LockCall.gain_eq_one hcall, hmod]
      rfl
  · exact absurd (hstate.symm.trans h.state) nofun
  · have htu : t = u := (htid u t (h.owner.symm.trans howner) h.known).symm
    have hmod : (l.count + 2 ^ 32 - 1) % 2 ^ 32 = l.count - 1 := countDown_eq hpos hbound
    have hholder : outstanding (acts ++ [(t, .unlock)]) u = (l.count : Int) + -1 := by
      rw [outstanding_snoc, h.holder, if_pos htu]
      rfl
    refine ⟨htu, ?_⟩
    rw [hmod] at hl'
    -- The last unlock frees the lock; any other leaves it with its holder.
    by_cases hlast : l.count - 1 = 0
    · rw [if_pos hlast] at hl'
      refine Or.inl ⟨hl', fun v => ?_⟩
      by_cases hv : v = u
      · rw [hv, hholder]
        omega
      · exact hother v hv htu
    · rw [if_neg hlast] at hl'
      subst hl'
      refine Or.inr ⟨u, h.state, h.owner, h.known, ?_, ?_, ?_, fun v hv => hother v hv htu⟩
      · show 0 < l.count - 1
        omega
      · show l.count - 1 < 2 ^ 32
        omega
      · rw [hholder]
        show (l.count : Int) + -1 = ((l.count - 1 : Nat) : Int)
        omega

theorem LockInv.exclusive (htid : Distinct tid) (h : LockInv tid l acts) :
    Exclusive tid (LockOk tid) l acts := by
  rcases h with ⟨rfl, hout⟩ | ⟨h, hheld⟩
  · refine ⟨fun t u ht => absurd ht (by rw [hout]; exact Int.lt_irrefl 0),
      fun t ht => absurd ht (by rw [hout]; exact Int.lt_irrefl 0), fun act l' _ _ u _ => Int.le_of_eq (hout u)⟩
  · have hholder : ∀ t, 0 < outstanding acts t → t = h := by
      intro t ht
      by_contra hne
      rw [hheld.other t hne] at ht
      exact Int.lt_irrefl 0 ht
    refine ⟨fun t u ht hu => (hholder t ht).trans (hholder u hu).symm, fun t ht => ?_,
      fun act l' hok hstep u hu => ?_⟩
    · rw [hholder t ht]
      exact hheld.holder.symm
    · obtain ⟨t, call⟩ := act
      obtain ⟨rfl, -⟩ := hheld.step htid hok hstep
      exact Int.le_of_eq (hheld.other u hu)

/-- In every sequence of calls that succeed, by tasks that are not idle and whose acquisitions 32
bits can count, the lock has one holder at most and counts its acquisitions. -/
theorem lock_exclusive (htid : Distinct tid) (hrun : LockRun tid (LockOk tid) .free acts l) :
    Exclusive tid (LockOk tid) l acts := by
  have hinv : LockInv tid l acts := by
    induction hrun with
    | nil => exact Or.inl ⟨rfl, fun _ => rfl⟩
    | @snoc acts act l l' _ hstep ih =>
      obtain ⟨t, call⟩ := act
      rcases ih with ⟨rfl, hout⟩ | ⟨u, hheld⟩
      · exact LockInv.step_free hout hstep.1 hstep.2
      · exact (hheld.step htid hstep.1 hstep.2).2
  exact hinv.exclusive htid

end Locks

/-- A task takes the lock twice and gives it back once. -/
theorem lock_exclusive_again : ∃ acts, outstanding acts true = 1 ∧
    Exclusive (fun b : Bool => if b then 1 else 2) (LockOk fun b => if b then 1 else 2)
      ⟨true, 1, 1⟩ acts := by
  have hdistinct : Distinct fun b : Bool => if b then 1 else 2 := by
    unfold Distinct
    decide
  have hrun : LockRun (fun b : Bool => if b then 1 else 2) (LockOk fun b => if b then 1 else 2)
      .free ([(true, .lock)] ++ [(true, .tryLock)] ++ [(true, .unlock)]) ⟨true, 1, 1⟩ := by
    refine .snoc (.snoc (.single ⟨?_, .served 1 rfl⟩) ⟨?_, .served 1 rfl⟩)
      ⟨?_, .served 1 rfl⟩
    · exact ⟨by decide, by decide⟩
    · exact ⟨by decide, by decide⟩
    · exact ⟨by decide, by decide⟩
  exact ⟨_, by decide, lock_exclusive hdistinct hrun⟩

/-! ### The idle task -/

section Idle

variable {boot : BootInfo} {env : Env} {k : Kernel}

theorem wp_setupIdleTask_tid (hidle : k.tasks boot.idleTask = Task.zero) :
    wp (setupIdleTask boot) env (fun _ k' => (k'.tasks boot.idleTask).tid = 0) (fun _ _ => True)
      k := by
  unfold setupIdleTask initIdleTask modifyTask
  rw [wp_bind, wp_modify, wp_bind, wp_get, wp_bind]
  refine Shows.wp_kassert_or (fun _ => ?_) fun _ _ => trivial
  rw [wp_bind, wp_modify, wp_bind, wp_modify, wp_bind]
  refine (SchedFrame.keeps_mapMappedSpace _).wp (fun _ k₁ hk₁ => ?_) fun _ _ _ => trivial
  have htid := hk₁.field boot.idleTask Task.tid fun _ => rfl
  show (upd k₁.tasks boot.idleTask _ boot.idleTask).tid = 0
  rw [upd_same]
  refine htid.trans ?_
  show (upd k.tasks boot.idleTask _ boot.idleTask).tid = 0
  rw [upd_same]
  exact congrArg Task.tid hidle

/-- `init_idle_task` gives out no identity: the idle task keeps the 0 of its zeroed memory. -/
theorem idle_tid (hne : boot.idleTask ≠ boot.rootTask)
    (h : setup boot env Kernel.powerOn = .ok () k) : (k.tasks boot.idleTask).tid = 0 := by
  have hwp : wp (setup boot) env (fun _ k => (k.tasks boot.idleTask).tid = 0) (fun _ _ => True)
      Kernel.powerOn := by
    unfold setup
    rw [wp_bind]
    refine (keeps_setupRootTask hne).wp (fun _ k₁ hk₁ => ?_) fun _ _ _ => trivial
    rw [wp_bind]
    refine (keeps_setupMemoryCapabilities hne).wp (fun _ k₂ hk₂ => ?_) fun _ _ _ => trivial
    rw [wp_bind]
    refine (keeps_mapRootTask hne _).wp (fun _ k₃ hk₃ => ?_) fun _ _ _ => trivial
    rw [wp_bind]
    refine (keeps_mapRootTask hne _).wp (fun _ k₄ hk₄ => ?_) fun _ _ _ => trivial
    rw [wp_bind]
    refine Keeps.wp (keeps_forM (fun _ => keeps_mapRootPage hne _ _ _ _) _) (fun _ k₅ hk₅ => ?_)
      fun _ _ _ => trivial
    refine wp_setupIdleTask_tid ?_
    calc k₅.tasks boot.idleTask = k₄.tasks boot.idleTask := hk₅
      _ = k₃.tasks boot.idleTask := hk₄
      _ = k₂.tasks boot.idleTask := hk₃
      _ = k₁.tasks boot.idleTask := hk₂
      _ = Task.zero := hk₁
  exact wp_ok hwp h

end Idle

/-- An idle task takes a free lock, and then another task takes it too. -/
theorem idle_lock_shared : ¬ ∀ (τ : Type) [DecidableEq τ] (tid : τ → Nat) (l : RecursiveSpinlock)
    (acts : List (τ × LockCall)), Distinct tid → LockRun tid (fun _ _ => True) .free acts l →
    Exclusive tid (fun _ _ => True) l acts := by
  intro hclaim
  have hdistinct : Distinct fun idle : Bool => if idle then 0 else 1 := by
    unfold Distinct
    decide
  have hrun : LockRun (fun idle : Bool => if idle then 0 else 1) (fun _ _ => True) .free
      ([(true, .lock)] ++ [(false, .lock)]) ⟨true, 1, 1⟩ :=
    .snoc (.single ⟨trivial, .served 1 rfl⟩) ⟨trivial, .served 1 rfl⟩
  have hone := (hclaim Bool _ _ _ hdistinct hrun).one true false (by decide) (by decide)
  exact nomatch hone

end Caprese
