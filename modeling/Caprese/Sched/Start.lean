import Caprese.Sched.Run
import Caprese.Store.Boot

/-!
# `Caprese.Sched.Start`: boot ends quiet

`setup` writes what the scheduler reads of a task in two places: where `init_task` sets the
root task up, and where `init_idle_task` sets the idle task up. Everything between is about
capabilities and tables, and keeps `SchedFrame`. So the state that `setup` leaves is `Quiet`,
and the runs of the core can start there (`setup_quiet`). The root task is the current task of
this state, and `init_task` has left it suspended.
-/

set_option autoImplicit false

namespace Caprese

open Lib Prog

namespace SchedFrame

variable {boot : BootInfo}

/-! ### The parts of `setup` that keep the queues -/

theorem keeps_setPte {table : Kernel → TablePtr} {index : Nat} {pte : Kernel → Pte} :
    Keeps SchedFrame (modify fun k => k.setPte (table k) index (pte k) : K Unit) :=
  keeps_same (fun _ => rfl) fun _ => ⟨rfl, rfl, rfl, rfl, rfl⟩

theorem keeps_walkEnabled (va : Nat) (levels : List Nat) (table : TablePtr) :
    Keeps SchedFrame (walkEnabled va levels table) := by
  induction levels generalizing table with
  | nil => exact keeps_pure _
  | cons level levels ih =>
    refine keeps_bind (keeps_pageTableWalk va level) fun _ => keeps_bind keeps_get fun _ => ?_
    exact keeps_bind (keeps_kassert _) fun _ => keeps_bind keeps_get fun _ => ih _

/-- What the trace records of a capability space is no message. -/
theorem record_attach (k : Kernel) (t : TaskPtr) (n : Nat) (p : SpacePtr) :
    SchedFrame k (k.record (.attach t n p)) := by
  refine of_eq rfl rfl rfl rfl rfl ?_
  show (k.trace ++ [_]).filterMap Event.delivery = k.trace.filterMap Event.delivery
  rw [List.filterMap_append]
  exact List.append_nil _

theorem keeps_insertCapSpace (task : TaskPtr) (p : SpacePtr) :
    Keeps SchedFrame (insertCapSpace task p) := by
  unfold insertCapSpace
  refine keeps_bind keeps_get fun _ => keeps_ite (keeps_fail _ _) ?_
  refine keeps_bind keeps_get fun _ => keeps_bind (keeps_walkEnabled _ _ _) fun _ => ?_
  refine keeps_bind (keeps_pageTableWalk _ _) fun _ => keeps_bind keeps_get fun _ => ?_
  refine keeps_bind (keeps_kassert _) fun _ => keeps_bind keeps_setPte fun _ => ?_
  have hrest : ∀ n : Nat, Keeps SchedFrame (do
      modify fun k : Kernel => (k.setMetaInfo p ⟨some task, n⟩).record (.attach task n p)
      forM (pushFreeSlots task) (spaceSlots p n)
      modify fun k => k.setTask task { k.tasks task with
        capCount := { (k.tasks task).capCount with
          numCapSpace := ((k.tasks task).capCount.numCapSpace + 1) % MAX_NUM_CAP_SPACE } }
      return true) := by
    intro n
    refine keeps_bind (keeps_modify fun k => ?_) fun _ => ?_
    · have hmeta : SchedFrame k (k.setMetaInfo p ⟨some task, n⟩) := of_eq rfl rfl rfl rfl rfl rfl
      exact hmeta.trans (record_attach _ task n p)
    · exact keeps_bind (keeps_forM (keeps_pushFreeSlots task) _) fun _ =>
        keeps_bind (keeps_modify fun _ => setTask rfl) fun _ => keeps_pure _
  refine keeps_ite (keeps_bind ?_ fun _ => hrest _) (hrest _)
  exact keeps_same (fun _ => rfl) fun _ => ⟨rfl, rfl, rfl, rfl, rfl⟩

theorem keeps_extendCapSpace (task : TaskPtr) (page : TablePtr) :
    Keeps SchedFrame (extendCapSpace task page) := by
  unfold extendCapSpace
  refine keeps_bind keeps_get fun _ => keeps_ite (keeps_fail _ _) ?_
  refine keeps_bind keeps_get fun _ => keeps_bind (keeps_walkEnabled _ _ _) fun _ => ?_
  refine keeps_bind (keeps_pageTableWalk _ _) fun _ => keeps_bind keeps_get fun _ => ?_
  refine keeps_bind (keeps_kassert _) fun _ => keeps_bind ?_ fun _ => ?_
  · exact keeps_same (fun _ => rfl) fun _ => ⟨rfl, rfl, rfl, rfl, rfl⟩
  · exact keeps_bind (keeps_modify fun _ => setTask rfl) fun _ => keeps_pure _

theorem keeps_mapMappedSpace (root : TablePtr) : Keeps SchedFrame (mapMappedSpace root) := by
  refine keeps_forM (fun _ => ?_) _
  refine keeps_bind (keeps_pageTableWalk _ _) fun _ => keeps_bind keeps_get fun _ => ?_
  exact keeps_bind (keeps_kassert _) fun _ => keeps_setPte

theorem keeps_insertRootCap (task : TaskPtr) (c : Capability) :
    Keeps SchedFrame (insertRootCap task c) :=
  keeps_bind (keeps_insertCap task c) fun _ => keeps_ite (keeps_stop _) (keeps_pure _)

theorem keeps_makePageTableCap (table : TablePtr) (mapped : Bool) (level va : Nat)
    (parent : Option TablePtr) :
    Keeps SchedFrame (makePageTableCap table mapped level va parent) :=
  keeps_bind (keeps_kassert _) fun _ => keeps_bind (keeps_kassert _) fun _ => keeps_pure _

theorem keeps_setupMemoryCapabilities : Keeps SchedFrame (setupMemoryCapabilities boot) := by
  refine keeps_forM (fun _ => keeps_bind ?_ fun _ => keeps_insertRootCap _ _) _
  exact keeps_bind (keeps_kassert _) fun _ => keeps_bind (keeps_kassert _) fun _ => keeps_pure _

theorem keeps_mapRootTable (va level : Nat) (table next : TablePtr) :
    Keeps SchedFrame (mapRootTable boot va level table next) := by
  unfold mapRootTable
  refine keeps_bind (keeps_pageTableWalk _ _) fun _ => keeps_bind keeps_get fun _ => ?_
  refine keeps_bind (keeps_kassert _) fun _ => keeps_bind keeps_setPte fun _ => ?_
  exact keeps_bind (keeps_makePageTableCap _ _ _ _ _) fun _ => keeps_insertRootCap _ _

theorem keeps_mapRootPage (table : TablePtr) (flags : PteFlags) (va : Nat) (page : PhysAddr) :
    Keeps SchedFrame (mapRootPage boot table flags va page) := by
  unfold mapRootPage makeVirtPageCap
  refine keeps_bind (keeps_pageTableWalk _ _) fun _ => keeps_bind keeps_get fun _ => ?_
  refine keeps_bind (keeps_kassert _) fun _ => keeps_bind keeps_setPte fun _ => ?_
  refine keeps_bind ?_ fun _ => keeps_insertRootCap _ _
  exact keeps_bind (keeps_kassert _) fun _ => keeps_bind (keeps_kassert _) fun _ => keeps_pure _

theorem keeps_mapRootTask (mapping : RootMapping) :
    Keeps SchedFrame (mapRootTask boot mapping) := by
  refine keeps_bind ?_ fun _ => ?_
  · exact keeps_same (fun _ => rfl) fun _ => ⟨rfl, rfl, rfl, rfl, rfl⟩
  · refine keeps_bind (keeps_mapRootTable _ _ _ _) fun _ => ?_
    refine keeps_bind (keeps_mapRootTable _ _ _ _) fun _ => ?_
    exact keeps_forM (fun _ => keeps_mapRootPage _ _ _ _) _

theorem keeps_mapRootDtb : Keeps SchedFrame (mapRootDtb boot) :=
  keeps_forM (fun _ => keeps_mapRootPage _ _ _ _) _

end SchedFrame

/-! ### The root task is loaded -/

/-- The task is in no queue and has no partner, and it starts in user mode. -/
structure Task.Fresh (task : Task) : Prop where
  context : task.context = .returnToUserMode
  unlinked : task.prevWaitingTask = none ∧ task.nextWaitingTask = none
  unqueued : task.prevReadyTask = none ∧ task.nextReadyTask = none
  unbound : task.callerTask = none ∧ task.calleeTask = none

/-- In the middle of `setup`: the root task is the current one, the tasks are in the states
`states`, and nobody is in a queue. -/
structure Loaded (boot : BootInfo) (states : TaskPtr → TaskState) (k : Kernel) : Prop where
  current : k.currentTask = boot.rootTask
  state : ∀ t, (k.tasks t).state = states t
  fresh : ∀ t, (k.tasks t).Fresh
  endpoints : k.endpoints = Kernel.powerOn.endpoints
  readyQueue : k.readyQueue = ⟨none, none⟩

section Loaded

variable {env : Env} {boot : BootInfo} {states : TaskPtr → TaskState} {k k' : Kernel}

theorem SchedFrame.fresh (h : SchedFrame k k') {t : TaskPtr} (ht : (k.tasks t).Fresh) :
    (k'.tasks t).Fresh := by
  refine ⟨(h.context t).trans ht.context, ?_, ?_, ?_⟩
  · rw [h.field t Task.prevWaitingTask fun _ => rfl, h.field t Task.nextWaitingTask fun _ => rfl]
    exact ht.unlinked
  · rw [h.field t Task.prevReadyTask fun _ => rfl, h.field t Task.nextReadyTask fun _ => rfl]
    exact ht.unqueued
  · rw [h.callerTask, h.calleeTask]
    exact ht.unbound

namespace Loaded

theorem powerOn (boot : BootInfo) :
    Loaded boot (fun _ => .unused) { Kernel.powerOn with currentTask := boot.rootTask } where
  current := rfl
  state _ := rfl
  fresh _ := ⟨rfl, ⟨rfl, rfl⟩, ⟨rfl, rfl⟩, ⟨rfl, rfl⟩⟩
  endpoints := rfl
  readyQueue := rfl

variable (h : Loaded boot states k)

include h

theorem frame (hk : SchedFrame k k') : Loaded boot states k' where
  current := hk.currentTask.trans h.current
  state t := (hk.state t).trans (h.state t)
  fresh t := hk.fresh (h.fresh t)
  endpoints := hk.endpoints.trans h.endpoints
  readyQueue := hk.readyQueue.trans h.readyQueue

/-- A part of `setup` that keeps the queues. -/
theorem wp_part {α : Type} {m : K α} (hm : Keeps SchedFrame m) {Q : α → Kernel → Prop}
    (hQ : ∀ a k', Loaded boot states k' → Q a k') : wp m env Q (fun _ _ => True) k :=
  hm.wp (fun a k' hk => hQ a k' (h.frame hk)) fun _ _ _ => trivial

/-- The stores of `init_task` and `init_idle_task` to their task. -/
theorem init {t : TaskPtr} {f : Task → Task} {state : TaskState}
    (hfresh : ∀ task : Task, task.Fresh → (f task).Fresh)
    (hstate : ∀ task : Task, (f task).state = state) :
    Loaded boot (upd states t state) (k.mapTask t f) where
  current := h.current
  state t' := by
    rw [upd_apply]
    split
    · rename_i ht
      subst ht
      show (upd k.tasks t' (f (k.tasks t')) t').state = state
      rw [upd_same]
      exact hstate _
    · rename_i ht
      show (upd k.tasks t (f (k.tasks t)) t').state = states t'
      rw [upd_ne _ _ ht]
      exact h.state t'
  fresh t' := by
    show (upd k.tasks t (f (k.tasks t)) t').Fresh
    rw [upd_apply]
    split
    · exact hfresh _ (h.fresh t)
    · exact h.fresh t'
  endpoints := h.endpoints
  readyQueue := h.readyQueue

/-- The last store of `init_task`, which says where the task starts. -/
theorem start (t : TaskPtr) :
    Loaded boot states (k.mapTask t fun task => { task with context := .returnToUserMode }) := by
  have hsame : (k.mapTask t fun task => { task with context := .returnToUserMode }).tasks
      = k.tasks := by
    funext t'
    by_cases ht : t' = t
    · subst ht
      show upd k.tasks t' { k.tasks t' with context := .returnToUserMode } t' = k.tasks t'
      rw [upd_same, ← (h.fresh t').context]
    · exact upd_ne _ _ ht
  exact h.frame (.of_eq hsame rfl rfl rfl rfl rfl)

theorem wp_initTask (t : TaskPtr) (p : SpacePtr) (root table0 table1 : TablePtr)
    {Q : Unit → Kernel → Prop}
    (hQ : ∀ k', Loaded boot (upd states t .suspended) k' → Q () k') :
    wp (initTask t p root table0 table1) env Q (fun _ _ => True) k := by
  unfold initTask nextTid modifyTask
  rw [wp_bind, wp_get, wp_bind]
  refine h.wp_part (keeps_kassert _) fun _ k₁ hk₁ => ?_
  simp only [wp_bind, wp_modify, wp_get, wp_pure]
  have htid : SchedFrame k₁ { k₁ with curTid := (k₁.curTid + 1) % 2 ^ 32 } :=
    .of_eq rfl rfl rfl rfl rfl rfl
  generalize hk₂ : Kernel.mapTask _ t _ = k₂
  have hinit : Loaded boot (upd states t .suspended) k₂ := by
    rw [← hk₂]
    refine (hk₁.frame htid).init (fun task htask => ?_) fun _ => rfl
    exact ⟨htask.context, ⟨rfl, rfl⟩, ⟨rfl, rfl⟩, ⟨rfl, rfl⟩⟩
  have hzero : SchedFrame k₂ (k₂.zeroTable root) := .of_eq rfl rfl rfl rfl rfl rfl
  refine (hinit.frame hzero).wp_part (SchedFrame.keeps_mapMappedSpace root) fun _ k₃ hk₃ => ?_
  have hzeros : SchedFrame k₃ ((k₃.zeroTable table0).zeroTable table1) :=
    .of_eq rfl rfl rfl rfl rfl rfl
  refine (hk₃.frame hzeros).wp_part (keeps_pageTableWalk _ _) fun index k₄ hk₄ => ?_
  refine hk₄.wp_part (keeps_kassert _) fun _ k₅ hk₅ => ?_
  have hpte : SchedFrame k₅ (k₅.setPte root index ((k₅.pte root index).fill .capSpace table1)) :=
    .of_eq rfl rfl rfl rfl rfl rfl
  refine (hk₅.frame hpte).wp_part (SchedFrame.keeps_extendCapSpace _ _) fun extended k₆ hk₆ => ?_
  rw [wp_ite]
  split
  · trivial
  · rw [wp_bind]
    refine hk₆.wp_part (SchedFrame.keeps_insertCapSpace _ _) fun inserted k₇ hk₇ => ?_
    rw [wp_ite]
    split
    · trivial
    · exact hQ _ (hk₇.start _)

end Loaded

/-! ### The end of boot -/

theorem wp_setupRootTask_loaded {Q : Unit → Kernel → Prop}
    (hQ : ∀ k', Loaded boot (upd (fun _ => .unused) boot.rootTask .suspended) k' → Q () k') :
    wp (setupRootTask boot) env Q (fun _ _ => True) Kernel.powerOn := by
  have hinsert := SchedFrame.keeps_insertRootCap boot.rootTask
  have htable := SchedFrame.keeps_makePageTableCap
  unfold setupRootTask
  rw [wp_bind, wp_modify, wp_bind]
  refine (Loaded.powerOn boot).wp_initTask _ _ _ _ _ fun k₁ hk₁ => ?_
  refine hk₁.wp_part ?_ fun _ k₂ hk₂ => hQ k₂ hk₂
  refine keeps_bind (keeps_forM (fun space => ?_) _) fun _ => ?_
  · exact keeps_bind (SchedFrame.keeps_insertCapSpace _ _) fun _ =>
      keeps_ite (keeps_stop _) (keeps_pure _)
  · refine keeps_bind (hinsert _) fun _ => keeps_bind (keeps_forM (fun _ => hinsert _) _) fun _ => ?_
    refine keeps_bind (htable _ _ _ _ _) fun _ => keeps_bind (hinsert _) fun _ => ?_
    refine keeps_bind (htable _ _ _ _ _) fun _ => keeps_bind (hinsert _) fun _ => ?_
    exact keeps_bind (htable _ _ _ _ _) fun _ => hinsert _

/-- The states of the tasks at the end of boot. -/
def BootInfo.taskState (boot : BootInfo) : TaskPtr → TaskState :=
  upd (upd (fun _ => .unused) boot.rootTask .suspended) boot.idleTask .ready

/-- The end of boot: the root task is loaded, and the idle task waits for its turn. -/
structure Started (boot : BootInfo) (k : Kernel) : Prop where
  idle : k.idleTask = boot.idleTask
  current : k.currentTask = boot.rootTask
  state : ∀ t, (k.tasks t).state = boot.taskState t
  quiet : Quiet k

section TaskState

variable (hne : boot.idleTask ≠ boot.rootTask)

theorem taskState_idle : boot.taskState boot.idleTask = .ready := upd_same _ _ _

include hne

theorem taskState_root : boot.taskState boot.rootTask = .suspended := by
  unfold BootInfo.taskState
  rw [upd_ne _ _ hne.symm, upd_same]

omit hne in
theorem taskState_eq_ready {t : TaskPtr} (h : boot.taskState t = .ready) : t = boot.idleTask := by
  by_contra ht
  unfold BootInfo.taskState at h
  rw [upd_ne _ _ ht, upd_apply] at h
  split at h
  · exact TaskState.noConfusion h
  · exact TaskState.noConfusion h

omit hne in
theorem taskState_ne_waiting (t : TaskPtr) : boot.taskState t ≠ .waiting := by
  unfold BootInfo.taskState
  rw [upd_apply, upd_apply]
  split
  · decide
  · split <;> decide

end TaskState

/-- The last store of `init_idle_task` ends boot. -/
theorem Loaded.started (h : Loaded boot boot.taskState k) (hidle : k.idleTask = boot.idleTask)
    (hne : boot.idleTask ≠ boot.rootTask) :
    Started boot (k.mapTask boot.idleTask fun task => { task with context := .idle }) := by
  generalize hk' : k.mapTask boot.idleTask _ = k'
  have htasks : ∀ t, k'.tasks t =
      if t = boot.idleTask then { k.tasks boot.idleTask with context := .idle } else k.tasks t := by
    intro t
    rw [← hk']
    exact upd_apply k.tasks _ t _
  -- The context of the idle task is all that changes, and no other field depends on it.
  have hfield : ∀ {α : Type} (f : Task → α)
      (_ : ∀ task : Task, f { task with context := .idle } = f task) (t : TaskPtr),
      f (k'.tasks t) = f (k.tasks t) := by
    intro α f hf t
    rw [htasks]
    split
    · rename_i ht
      rw [hf, ht]
    · rfl
  have hcurrent : k'.currentTask = boot.rootTask := by
    rw [← hk']
    exact h.current
  have hidle' : k'.idleTask = boot.idleTask := by
    rw [← hk']
    exact hidle
  have hstate : ∀ t, (k'.tasks t).state = boot.taskState t := fun t =>
    (hfield Task.state (fun _ => rfl) t).trans (h.state t)
  refine ⟨hidle', hcurrent, hstate, ?_⟩
  constructor
  · intro e
    rw [← hk']
    exact congrFun h.endpoints e
  · intro t
    rw [hfield Task.prevWaitingTask fun _ => rfl, hfield Task.nextWaitingTask fun _ => rfl]
    exact (h.fresh t).unlinked
  · intro t
    rw [hfield Task.callerTask fun _ => rfl, hfield Task.calleeTask fun _ => rfl]
    exact (h.fresh t).unbound
  · intro t
    rw [hstate]
    exact taskState_ne_waiting t
  · refine ⟨[], ?_, fun t => ?_, fun t _ => ?_⟩
    · have hready : k'.readyQueue = ⟨none, none⟩ := by
        rw [← hk']
        exact h.readyQueue
      rw [hready]
      exact Queue.Rep.empty
    · rw [hstate, hidle']
      constructor
      · intro ht
        exact absurd ht (List.not_mem_nil)
      · rintro ⟨hready, hidle⟩
        exact absurd (taskState_eq_ready hready) hidle
    · rw [hfield Task.prevReadyTask fun _ => rfl, hfield Task.nextReadyTask fun _ => rfl]
      exact (h.fresh t).unqueued
  · intro t ht
    rw [htasks, if_neg (hidle' ▸ ht)]
    exact (h.fresh t).context
  · rw [hidle', htasks, if_pos rfl]
    exact ⟨rfl, (h.state _).trans taskState_idle⟩
  · rw [hcurrent, hidle', hstate, taskState_root hne]
    exact ⟨hne.symm, by decide, by decide⟩

theorem wp_setupIdleTask_started (h : Loaded boot (upd (fun _ => .unused) boot.rootTask .suspended) k)
    (hne : boot.idleTask ≠ boot.rootTask) :
    wp (setupIdleTask boot) env (fun _ k' => Started boot k') (fun _ _ => True) k := by
  unfold setupIdleTask initIdleTask modifyTask
  rw [wp_bind, wp_modify, wp_bind, wp_get, wp_bind]
  have hpointer : Loaded boot (upd (fun _ => .unused) boot.rootTask .suspended)
      { k with idleTask := boot.idleTask } := ⟨h.current, h.state, h.fresh, h.endpoints, h.readyQueue⟩
  have hkassert := keeps_kassert (R := SchedFrame)
    ((({ k with idleTask := boot.idleTask } : Kernel).tasks boot.idleTask).state = .unused)
  refine hkassert.wp (fun _ k₁ hk₁ => ?_) fun _ _ _ => trivial
  rw [wp_bind, wp_modify, wp_bind, wp_modify, wp_bind]
  generalize hk₂ : Kernel.mapTask _ boot.idleTask _ = k₂
  have hinit : Loaded boot boot.taskState k₂ := by
    rw [← hk₂]
    refine (hpointer.frame hk₁).init (fun task htask => ?_) fun _ => rfl
    exact ⟨htask.context, ⟨rfl, rfl⟩, ⟨rfl, rfl⟩, htask.unbound⟩
  have hidle₂ : k₂.idleTask = boot.idleTask := by
    rw [← hk₂]
    exact hk₁.idleTask
  have hzero : SchedFrame k₂ (k₂.zeroTable boot.idleRootPageTable) :=
    .of_eq rfl rfl rfl rfl rfl rfl
  refine (SchedFrame.keeps_mapMappedSpace _).wp (fun _ k₃ hk₃ => ?_) fun _ _ _ => trivial
  exact (hinit.frame (hzero.trans hk₃)).started ((hzero.trans hk₃).idleTask.trans hidle₂) hne

/-- Boot ends with a quiet state, unless it stops. -/
theorem wp_setup_started (hne : boot.idleTask ≠ boot.rootTask) :
    wp (setup boot) env (fun _ k => Started boot k) (fun _ _ => True) Kernel.powerOn := by
  unfold setup
  rw [wp_bind]
  refine wp_setupRootTask_loaded fun k₁ hk₁ => ?_
  rw [wp_bind]
  refine hk₁.wp_part SchedFrame.keeps_setupMemoryCapabilities fun _ k₂ hk₂ => ?_
  rw [wp_bind]
  refine hk₂.wp_part (SchedFrame.keeps_mapRootTask _) fun _ k₃ hk₃ => ?_
  rw [wp_bind]
  refine hk₃.wp_part (SchedFrame.keeps_mapRootTask _) fun _ k₄ hk₄ => ?_
  rw [wp_bind]
  refine hk₄.wp_part SchedFrame.keeps_mapRootDtb fun _ k₅ hk₅ => ?_
  exact wp_setupIdleTask_started hk₅ hne

/-- The runs of the core can start where boot ends. -/
theorem setup_quiet (hne : boot.idleTask ≠ boot.rootTask)
    (h : setup boot env Kernel.powerOn = .ok () k) : Started boot k :=
  wp_ok (wp_setup_started hne) h

end Loaded

end Caprese
