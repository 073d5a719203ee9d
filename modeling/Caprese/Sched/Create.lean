import Caprese.Sched.Destroy
import Caprese.Store.CreateTask

/-!
# `Caprese.Sched.Create`: new tasks and endpoints

An object is made of memory that nothing was made of before. So a new endpoint has no one waiting,
and the task that is set up was not in use: it is in no queue and nobody's partner
(`Desk.Inv.newTask`). The queues stay in order (`Seated`).
-/

set_option autoImplicit false

namespace Caprese

open Lib Prog

variable {cfg : Config} {env : Env} {k k₁ k' : Kernel} {A D : Desk} {t a : TaskPtr} {x y : SlotPtr}
  {G : EndpointPtr → Prop} {m : MemoryCap}

/-- The tasks that are in use in `D` are the same in `A`. -/
structure Desk.Grows (D A : Desk) : Prop where
  current : A.current = D.current
  idle : A.idle = D.idle
  tasks : ∀ t, (D.tasks t).state ≠ .unused → A.tasks t = D.tasks t

theorem Desk.Grows.refl (A : Desk) : A.Grows A := ⟨rfl, rfl, fun _ _ => rfl⟩

/-- A task is set up that was not in use. -/
theorem Desk.Grows.mapTask (h : D.Grows A) (hunused : (A.tasks a).state = .unused)
    (f : Task → Task) : D.Grows (A.mapTask a f) := by
  refine ⟨h.current, h.idle, fun u hu => ?_⟩
  have hne : u ≠ a := by
    rintro rfl
    rw [h.tasks u hu] at hunused
    exact hu hunused
  rw [mapTask_tasks_ne _ _ _ hne, h.tasks u hu]

/-- The queues are in order, the current task is in user mode, and no task that is in use in `D` has
changed. -/
def Seated (D : Desk) (G : EndpointPtr → Prop) (k : Kernel) : Prop :=
  ∃ A, Shows k A ∧ A.Inv debugAllows ∧ A.User ∧ A.Grounded G ∧ D.Grows A

theorem Seated.frame (h : Seated D G k) (hf : SchedFrame k k') : Seated D G k' := by
  obtain ⟨A, hA, hrest⟩ := h
  exact ⟨A, hA.frame hf, hrest⟩

/-! ### A task that is not in use -/

section NewTask

theorem Desk.Inv.unqueued (hI : A.Inv debugAllows) (hunused : (A.tasks a).state = .unused) :
    ¬ A.Queued a := by
  intro hq
  rw [hI.queued_waits hq] at hunused
  exact absurd hunused (by decide)

theorem Desk.Inv.unready (hI : A.Inv debugAllows) (hunused : (A.tasks a).state = .unused) :
    a ∉ A.ready := by
  intro hr
  rw [((hI.ready a).mp hr).1] at hunused
  exact absurd hunused (by decide)

/-- A task that was not in use is set up. -/
theorem Desk.Inv.newTask (hI : A.Inv debugAllows) (hg : A.Grounded G)
    (hunused : (A.tasks a).state = .unused) {task : Task} (hstate : task.state = .suspended)
    (hcontext : task.context = .returnToUserMode) (hcaller : task.callerTask = none)
    (hcallee : task.calleeTask = none) : (A.mapTask a fun _ => task).Inv debugAllows := by
  have hq := hI.unqueued hunused
  have hother : ∀ {u}, u ≠ a → (A.mapTask a fun _ => task).tasks u = A.tasks u := fun hne =>
    upd_ne _ _ hne
  have hself : (A.mapTask a fun _ => task).tasks a = task := upd_same _ _ _
  have hne : ∀ {e side u}, u ∈ A.waiting e side → u ≠ a := by
    rintro e side u hmem rfl
    exact hq ⟨e, side, hmem⟩
  constructor
  · intro e u hmem
    rw [hother (hne hmem)]
    exact hI.receivers e u hmem
  · intro e u hmem
    rw [hother (hne hmem)]
    exact hI.senders e u hmem
  · exact hI.excl
  · intro u s hs hdead
    by_cases hu : u = a
    · rw [hu, hself, hcallee] at hs
      exact absurd hs (by simp)
    · rw [hother hu] at hs hdead ⊢
      obtain ⟨hcalls, hcalled⟩ := hI.callee u s hs hdead
      refine ⟨hcalls, ?_⟩
      have hsa : s ≠ a := by
        rintro rfl
        rw [hg.spare s hunused] at hcalled
        exact absurd hcalled (by simp)
      rwa [hother hsa]
  · intro s u hu
    by_cases hs : s = a
    · rw [hs, hself, hcaller] at hu
      exact absurd hu (by simp)
    · rw [hother hs] at hu
      obtain ⟨hcalls, hcalled⟩ := hI.caller_waits hu
      have hua : u ≠ a := by
        rintro rfl
        rw [hcalls.state] at hunused
        exact absurd hunused (by decide)
      rw [hother hua]
      exact hI.caller s u hu
  · exact fun _ _ => Or.inl trivial
  · intro u
    have hready := hI.ready u
    by_cases hu : u = a
    · subst hu
      rw [hself, hstate]
      exact ⟨fun hr => absurd hr (hI.unready hunused), fun hr => absurd hr.1 (by decide)⟩
    · rw [hother hu]
      exact hready
  · intro u hcur hidle hpaused
    by_cases hu : u = a
    · rw [hu, hself]
      unfold Task.Resumable
      rw [hcontext]
      trivial
    · rw [hother hu] at hpaused ⊢
      exact hI.resumable u hcur hidle hpaused
  · have hidle : A.idle ≠ a := fun heq => hg.idle (heq ▸ hunused)
    show ((A.mapTask a fun _ => task).tasks A.idle).context = .idle ∧
      ((A.mapTask a fun _ => task).tasks A.idle).state = .ready
    rw [hother hidle]
    exact hI.idle

/-- A task that no queue holds is written anew. -/
theorem Shows.remake (h : Shows k A) (hq : ¬ A.Queued a) (hr : a ∉ A.ready) {task : Task}
    (hready : task.prevReadyTask = none ∧ task.nextReadyTask = none)
    (hwaiting : task.prevWaitingTask = none ∧ task.nextWaitingTask = none) :
    Shows (k.setTask a task) (A.mapTask a fun _ => task.view) := by
  -- The links are those that the task had, so this is a store to its other fields.
  have hlone := Links.isList_singleton.mp (h.alone a hq)
  have hlone' := Links.isList_singleton.mp (h.readyAlone a hr)
  have hplain : Plain fun old => { task with
      prevReadyTask := old.prevReadyTask, nextReadyTask := old.nextReadyTask
      prevWaitingTask := old.prevWaitingTask, nextWaitingTask := old.nextWaitingTask
      freeSlots := old.freeSlots, freeSlotsCount := old.freeSlotsCount
      capCount := old.capCount } := fun _ => ⟨rfl, rfl, rfl, rfl, rfl⟩
  have hshows := h.mapTask (t := a) hplain
  have hdesk : (A.mapTask a fun old => { task with
      prevReadyTask := old.prevReadyTask, nextReadyTask := old.nextReadyTask
      prevWaitingTask := old.prevWaitingTask, nextWaitingTask := old.nextWaitingTask
      freeSlots := old.freeSlots, freeSlotsCount := old.freeSlotsCount
      capCount := old.capCount }) = A.mapTask a fun _ => task.view := by
    unfold Desk.mapTask
    rw [← h.tasks a]
    rfl
  rw [hdesk] at hshows
  refine hshows.frame ⟨fun u => ?_, rfl, rfl, rfl, rfl, rfl⟩
  by_cases hu : u = a
  · subst hu
    show ((upd k.tasks u task) u).bare = ((upd k.tasks u _) u).bare
    rw [upd_same, upd_same]
    have hp : (k.tasks u).prevWaitingTask = none := hlone.1
    have hn : (k.tasks u).nextWaitingTask = none := hlone.2
    have hp' : (k.tasks u).prevReadyTask = none := hlone'.1
    have hn' : (k.tasks u).nextReadyTask = none := hlone'.2
    rw [hp, hn, hp', hn']
    obtain ⟨hready, hready'⟩ := hready
    obtain ⟨hwaiting, hwaiting'⟩ := hwaiting
    cases task
    subst hready hready' hwaiting hwaiting'
    rfl
  · show ((upd k.tasks a task) u).bare = ((upd k.tasks a _) u).bare
    rw [upd_ne _ _ hu, upd_ne _ _ hu]

theorem keeps_modifyPageTableCap (slot : SlotPtr) (f : PageTableCap → PageTableCap) :
    Keeps SchedFrame (modifyPageTableCap slot f) := by
  unfold modifyPageTableCap
  refine keeps_bind keeps_get fun k => ?_
  cases k.cap slot with
  | pageTable c => exact SchedFrame.keeps_storeCap slot _
  | _ => exact keeps_pure ()

/-- The task `a` of the desk is being set up. -/
def Making (A : Desk) (a : TaskPtr) (state : TaskState) (k : Kernel) : Prop :=
  ∃ task : Task, Shows k (A.mapTask a fun _ => task) ∧ task.state = state ∧
    task.context = .returnToUserMode ∧ task.callerTask = none ∧ task.calleeTask = none

namespace Making

variable {state : TaskState} (h : Making A a state k)
include h

theorem frame (hf : SchedFrame k k') : Making A a state k' := by
  obtain ⟨task, hshows, hrest⟩ := h
  exact ⟨task, hshows.frame hf, hrest⟩

/-- A part of `init_task` that keeps the queues. -/
theorem wp_part {α : Type} {m : K α} (hm : Keeps SchedFrame m) {Q : α → Kernel → Prop}
    (hQ : ∀ b k', Making A a state k' → Q b k') : wp m env Q (fun _ _ => True) k :=
  hm.wp (fun b k' hk => hQ b k' (h.frame hk)) fun _ _ _ => trivial

/-- The stores of `init_task` to its task. -/
theorem init (hq : ¬ A.Queued a) (hr : a ∉ A.ready) {f : Task → Task} {state' : TaskState}
    (hf : ∀ task : Task, (f task).state = state' ∧ (f task).context = task.context ∧
      (f task).callerTask = none ∧ (f task).calleeTask = none ∧
      ((f task).prevReadyTask = none ∧ (f task).nextReadyTask = none) ∧
      (f task).prevWaitingTask = none ∧ (f task).nextWaitingTask = none) :
    Making A a state' (k.mapTask a f) := by
  obtain ⟨task, hshows, -, hcontext, -, -⟩ := h
  obtain ⟨hstate', hcontext', hcaller, hcallee, hready, hwaiting⟩ := hf (k.tasks a)
  have hremake : Shows (k.setTask a (f (k.tasks a)))
      ((A.mapTask a fun _ => task).mapTask a fun _ => (f (k.tasks a)).view) :=
    hshows.remake hq hr hready hwaiting
  refine ⟨(f (k.tasks a)).view, ?_, hstate', ?_, hcaller, hcallee⟩
  · rw [Desk.mapTask_mapTask] at hremake
    exact hremake
  · have hsame : (k.tasks a).context = task.context := by
      rw [hshows.context, Desk.mapTask_tasks, if_pos rfl]
    exact hcontext'.trans (hsame.trans hcontext)

/-- The last store of `init_task`. -/
theorem start :
    Making A a state (k.mapTask a fun task => { task with context := .returnToUserMode }) := by
  obtain ⟨task, hshows, hstate, -, hcaller, hcallee⟩ := h
  have hmap := hshows.mapTask (t := a) (f := fun task => { task with context := .returnToUserMode })
    fun _ => ⟨rfl, rfl, rfl, rfl, rfl⟩
  rw [Desk.mapTask_mapTask] at hmap
  exact ⟨_, hmap, hstate, rfl, hcaller, hcallee⟩

theorem wp_initTask (hq : ¬ A.Queued a) (hr : a ∉ A.ready) (p : SpacePtr)
    (root table0 table1 : TablePtr) {Q : Unit → Kernel → Prop}
    (hQ : ∀ k', Making A a .suspended k' → Q () k') :
    wp (initTask a p root table0 table1) env Q (fun _ _ => True) k := by
  unfold initTask nextTid modifyTask
  rw [wp_bind, wp_get, wp_bind]
  refine h.wp_part (keeps_kassert _) fun _ k₁ hk₁ => ?_
  simp only [wp_bind, wp_modify, wp_get, wp_pure]
  have htid : SchedFrame k₁ { k₁ with curTid := (k₁.curTid + 1) % 2 ^ 32 } :=
    .of_eq rfl rfl rfl rfl rfl rfl
  generalize hk₂ : Kernel.mapTask _ a _ = k₂
  have hinit : Making A a .suspended k₂ := by
    rw [← hk₂]
    exact (hk₁.frame htid).init hq hr fun task => ⟨rfl, rfl, rfl, rfl, ⟨rfl, rfl⟩, rfl, rfl⟩
  have hzero : SchedFrame k₂ (k₂.zeroTable root) := .of_eq rfl rfl rfl rfl rfl rfl
  refine (hinit.frame hzero).wp_part (SchedFrame.keeps_mapMappedSpace root) fun _ k₃ hk₃ => ?_
  have hzeros : SchedFrame k₃ ((k₃.zeroTable table0).zeroTable table1) :=
    .of_eq rfl rfl rfl rfl rfl rfl
  refine (hk₃.frame hzeros).wp_part (keeps_pageTableWalk _ _) fun index k₄ hk₄ => ?_
  refine hk₄.wp_part (keeps_kassert _) fun _ k₅ hk₅ => ?_
  have hpte : SchedFrame k₅ (k₅.setPte root index ((k₅.pte root index).fill .capSpace table1)) :=
    .of_eq rfl rfl rfl rfl rfl rfl
  refine (hk₅.frame hpte).wp_part (SchedFrame.keeps_extendCapSpace _ _) fun extended k₆ hk₆ => ?_
  rw [wp_ite]
  split
  · trivial
  · rw [wp_bind]
    refine hk₆.wp_part (SchedFrame.keeps_insertCapSpace _ _) fun inserted k₇ hk₇ => ?_
    rw [wp_ite]
    split
    · trivial
    · exact hQ _ hk₇.start

omit h in
/-- The task is set up. -/
theorem seated (h : Making A a .suspended k) (hI : A.Inv debugAllows) (hu : A.User)
    (hg : A.Grounded G)
    (hgrows : D.Grows A) (hunused : (A.tasks a).state = .unused) : Seated D G k := by
  obtain ⟨task, hshows, hstate, hcontext, hcaller, hcallee⟩ := h
  have hcur : A.current ≠ a := fun heq => hg.inUse (heq ▸ hunused)
  refine ⟨_, hshows, hI.newTask hg hunused hstate hcontext hcaller hcallee, ⟨hu.notIdle, ?_, ?_, ?_,
    hu.notQueued⟩, hg.mapUsed (by rw [hstate]; decide), hgrows.mapTask hunused _⟩
  · rw [Desk.mapTask_current, Desk.mapTask_tasks, if_neg hcur]
    exact hu.notReady
  · rw [Desk.mapTask_current, Desk.mapTask_tasks, if_neg hcur]
    exact hu.alive
  · rw [Desk.mapTask_current, Desk.mapTask_tasks, if_neg hcur]
    exact hu.callee

end Making

end NewTask

/-! ### The objects -/

section Objects

variable (hseat : Seated D G k₁) (h : Popped k t y k₁) (hx : k.cap x = .memory m)
  (hm : MemInv k.store)
include hseat h hx hm

omit hseat in
/-- Memory is carved for an object of the kernel. -/
theorem Seated.wp_createKernelObject {size alignment : Nat}
    (hsafe : m.device = false → m.Safe size alignment) {Q : Option PhysAddr → Kernel → Prop}
    (hnone : ∀ k₂, SchedFrame k₁ k₂ → Q none k₂)
    (hsome : ∀ base k₂, Carve m size alignment base → SchedFrame k₁ k₂ → Q (some base) k₂) :
    wp (createKernelObject y x size alignment) (.debug cfg) Q NoSwitch k₁ := by
  obtain ⟨a, b, hl⟩ := h.exists_chain (x := x) (by simp [hx])
  have hcarve : wp (createKernelObject y x size alignment) (.debug cfg)
      (fun r _ => ∀ base, r = some base → Carve m size alignment base) NoSwitch k₁ :=
    Caprese.wp_createKernelObject h hx hl (hm.memory hx) hsafe
      (fun _ _ _ hbase => absurd hbase (by simp))
      fun base _ _ hcarve _ base' hbase => Option.some.inj hbase ▸ hcarve
  refine wp_mono (wp_and (SchedFrame.keeps_createKernelObject y x size alignment _ _) hcarve)
    (fun r k₂ hr => ?_) fun _ _ he => he.2
  cases r with
  | none => exact hnone k₂ hr.1
  | some base => exact hsome base k₂ (hr.2 base rfl) hr.1

/-- At a new endpoint nobody waits. -/
theorem Seated.wp_createEndpointObject
    (hsafe : m.SafeRequest (kernelRequest m.device ENDPOINT_SIZE))
    (hG : ∀ e, k.store.Free e → ¬ G e) :
    wp (createEndpointObject y x) (.debug cfg) (fun _ k' => Seated D G k') NoSwitch k₁ := by
  unfold createEndpointObject
  rw [wp_bind]
  refine Seated.wp_createKernelObject h hx hm hsafe.kernel (fun k₂ hk₂ => hseat.frame hk₂)
    fun base k₂ hcarve hk₂ => ?_
  obtain ⟨A, hA, hI, hu, hg, hgrows⟩ := hseat.frame hk₂
  have hfree : k.store.Free base := by
    have hcovers := hcarve.covers_object (Nat.le_refl base) (Nat.lt_add_of_pos_right hcarve.pos)
    rw [← hx] at hcovers
    exact ⟨x, m, hx, hcovers⟩
  have hempty : ∀ side, (k₂.endpoints base).queue side = ⟨none, none⟩ := by
    intro side
    have hnone : A.waiting base side = [] := by
      by_contra hne
      exact hG base hfree (hg.queues base side hne)
    have hrep := hA.waiting base side
    rw [hnone] at hrep
    obtain ⟨hhead, htail⟩ := And.intro hrep.head hrep.tail
    cases hqueue : (k₂.endpoints base).queue side with
    | mk head tail =>
      rw [hqueue] at hhead htail
      obtain rfl : none = head := hhead.symm
      obtain rfl : none = tail := htail.symm
      rfl
  have hsame : upd k₂.endpoints base ⟨⟨none, none⟩, ⟨none, none⟩⟩ = k₂.endpoints := by
    have heq : k₂.endpoints base = ⟨⟨none, none⟩, ⟨none, none⟩⟩ :=
      congrArg₂ Endpoint.mk (hempty .sender) (hempty .receiver)
    rw [← heq, upd_self]
  simp only [wp_bind, wp_modify, wp_pure, storeCap]
  rw [hsame]
  exact Seated.frame ⟨A, hA, hI, hu, hg, hgrows⟩ (.of_eq rfl rfl rfl rfl rfl rfl)

/-- The memory of a new task was no task before. -/
theorem Seated.wp_createTaskObject {capSpaceSlot rootSlot : SlotPtr} {slot0 slot1 : Option SlotPtr}
    (hsafe : m.SafeRequest (kernelRequest m.device PAGE_SIZE))
    (hunused : ∀ base, Carve m PAGE_SIZE PAGE_SIZE base → k.store.root base = none) :
    wp (createTaskObject y x capSpaceSlot rootSlot slot0 slot1) (.debug cfg)
      (fun _ k' => Seated D G k') NoSwitch k₁ := by
  have hx₁ : k₁.cap x = .memory m := by rw [h.cap, hx]
  unfold createTaskObject
  rw [wp_bind]
  refine wp_memoryCap hx₁ ?_
  rw [wp_bind]
  refine wp_checkUnused ?_
  rw [wp_bind]
  refine wp_readCapSpace noSwitch_fatal fun p _ => ?_
  rw [wp_bind]
  refine wp_unmappedTable fun r _ _ _ _ => ?_
  rw [wp_bind]
  refine wp_unmappedTable fun s0 _ _ _ _ => ?_
  rw [wp_bind]
  refine wp_unmappedTable fun s1 _ _ _ _ => ?_
  rw [wp_bind]
  refine wp_readPageTable noSwitch_fatal fun cr _ => ?_
  rw [wp_bind]
  refine wp_readPageTable noSwitch_fatal fun c0 _ => ?_
  rw [wp_bind]
  refine wp_readPageTable noSwitch_fatal fun c1 _ => ?_
  rw [wp_bind]
  refine Seated.wp_createKernelObject h hx hm hsafe.kernel (fun k₂ hk₂ => hseat.frame hk₂)
    fun base k₂ hcarve hk₂ => ?_
  obtain ⟨A, hA, hI, hu, hg, hgrows⟩ := hseat.frame hk₂
  have hspare : (A.tasks base).state = .unused := by
    have hroot : k₁.store.root base = none := by
      rw [h.store]
      exact hunused base hcarve
    have hunused₁ : (k₁.tasks base).state = .unused := by
      by_contra hused
      simp only [Kernel.store, if_neg hused] at hroot
      exact absurd hroot (by simp)
    rw [← hA.state, hk₂.state, hunused₁]
  have hq := hI.unqueued hspare
  have hr := hI.unready hspare
  rw [wp_bind, wp_modify, wp_bind]
  have hzero : Making A base .unused (k₂.setTask base Task.zero) :=
    ⟨Task.zero.view, hA.remake hq hr ⟨rfl, rfl⟩ ⟨rfl, rfl⟩, rfl, rfl, rfl, rfl⟩
  refine wp_mono ((avoids_initTask _ _ _ _ _).wp (hzero.wp_initTask hq hr _ _ _ _ fun k₃ hk₃ => ?_))
    (fun _ _ hpost => hpost) fun _ _ he => he.1
  unfold storeCap
  rw [wp_bind, wp_modify, wp_bind]
  have hadopt : ∀ {s : SlotPtr} {f : PageTableCap → PageTableCap} {k₄ : Kernel},
      Making A base .suspended k₄ → ∀ {Q : Unit → Kernel → Prop},
      (∀ k₅, Making A base .suspended k₅ → Q () k₅) →
      wp (modifyPageTableCap s f) (.debug cfg) Q NoSwitch k₄ := fun hk₄ _ hQ =>
    wp_mono ((avoids_adopt _ _).wp (hk₄.wp_part (keeps_modifyPageTableCap _ _) fun _ =>
      hQ)) (fun _ _ hpost => hpost) fun _ _ he => he.1
  have hk₄ : Making A base .suspended (k₃.setCap y (makeTaskCap base)) :=
    hk₃.frame (.of_eq rfl rfl rfl rfl rfl rfl)
  refine hadopt hk₄ fun k₅ hk₅ => ?_
  rw [wp_bind]
  refine hadopt hk₅ fun k₆ hk₆ => ?_
  rw [wp_bind]
  refine hadopt hk₆ fun k₇ hk₇ => ?_
  exact hk₇.seated hI hu hg hgrows hspare

/-- The tables and the space of a new task are looked up. -/
theorem Seated.wp_createTask {args : List Nat} (hok : CreateOk k x .task args)
    (hunused : ∀ base, Carve m PAGE_SIZE PAGE_SIZE base → k.store.root base = none) :
    wp (createTask t y x args) (.debug cfg) (fun _ k' => Seated D G k') NoSwitch k₁ := by
  have hsafe : m.SafeRequest (kernelRequest m.device PAGE_SIZE) := hok m hx
  have herrno : ∀ {k₁ : Kernel} (e : SysError), SchedFrame k₁ { k₁ with errno := e } :=
    fun _ => .of_eq rfl rfl rfl rfl rfl rfl
  -- A table that is not found leaves an error code, and nothing else.
  have hafter : ∀ {k₁ k₂ : Kernel}, Seated D G k₁ ∧ Popped k t y k₁ →
      (∃ e, k₂ = { k₁ with errno := e }) ∨ k₂ = k₁ → Seated D G k₂ ∧ Popped k t y k₂ := by
    rintro k₁ k₂ ⟨hseat, h⟩ (⟨e, rfl⟩ | rfl)
    · exact ⟨hseat.frame (herrno e), h.errno e⟩
    · exact ⟨hseat, h⟩
  unfold createTask
  rw [wp_bind]
  refine wp_lookupCap (fun cs _ => ?_) fun e => hseat.frame (herrno _)
  simp only [wp_bind, wp_get, wp_ite]
  split
  · exact hseat.frame (herrno _)
  · refine wp_lookupCap (fun r _ => ?_) fun e => hseat.frame (herrno _)
    simp only [wp_bind, wp_get]
    split
    · rw [wp_ite]
      split
      · exact hseat.frame (herrno _)
      · rw [wp_bind]
        refine wp_lookupTable fun r0 k₂ hk₂ => ?_
        have h₂ := hafter ⟨hseat, h⟩ hk₂
        rw [wp_ite]
        split
        · rw [wp_bind]
          refine wp_lookupTable fun r1 k₃ hk₃ => ?_
          obtain ⟨hseat₃, h₃⟩ := hafter h₂ hk₃
          exact hseat₃.wp_createTaskObject h₃ hx hm hsafe hunused
        · exact h₂.1.wp_createTaskObject h₂.2 hx hm hsafe hunused
    · exact hseat.frame (herrno _)

/-- The cases of the `switch` of `create_object`. -/
theorem Seated.wp_createObjectOf {type : CapType} {args : List Nat} (hok : CreateOk k x type args)
    (hG : ∀ e, k.store.Free e → ¬ G e) :
    wp (createObjectOf t y x type args) (.debug cfg) (fun _ k' => Seated D G k') NoSwitch k₁ := by
  have hrun : wp (createObjectOf t y x type args) (.debug cfg) (fun _ _ => True) NoSwitch k₁ :=
    wp_mono (Caprese.wp_createObjectOf h hx hm hok) (fun _ _ _ => trivial) fun _ _ he => he
  have hframe : Keeps SchedFrame (createObjectOf t y x type args) →
      wp (createObjectOf t y x type args) (.debug cfg) (fun _ k' => Seated D G k') NoSwitch k₁ :=
    fun hkeeps => wp_mono (wp_and (hkeeps _ k₁) hrun) (fun _ _ hk => hseat.frame hk.1)
      fun _ _ he => he.2
  cases type with
  | mem => exact hframe (SchedFrame.keeps_createMemoryObject _ _ _ _)
  | task =>
    refine hseat.wp_createTask h hx hm hok fun base hcarve => ?_
    by_contra hused
    obtain ⟨r, hr⟩ := Option.ne_none_iff_exists'.mp hused
    have hbase : Between base (base + PAGE_SIZE) base :=
      ⟨Nat.le_refl _, Nat.lt_add_of_pos_right (by decide)⟩
    have hcovers := hcarve.covers_object hbase.1 hbase.2
    rw [← hx] at hcovers
    exact hm.tasks base r base hr hbase ⟨x, m, hx, hcovers⟩
  | endpoint => exact hseat.wp_createEndpointObject h hx hm (hok m hx) hG
  | pageTable => exact hframe (SchedFrame.keeps_createPageTableObject _ _)
  | virtPage => exact hframe (SchedFrame.keeps_createVirtPageObject _ _ _ _ _ _)
  | capSpace => exact hframe (SchedFrame.keeps_createCapSpaceObject _ _)
  | null => exact hseat
  | id => exact hseat
  | zombie => exact hseat
  | unknown => exact hseat

end Objects

/-- `create_object` keeps the queues in order: nobody waits at memory that is free. -/
theorem Seated.wp_createObject {type : CapType} {args : List Nat} (hseat : Seated D G k)
    (h : StoreInv k ∅) (hm : MemInv k.store) (hok : CreateOk k x type args)
    (hG : ∀ e, k.store.Free e → ¬ G e) :
    wp (createObject t x type args) (.debug cfg) (fun _ k' => Seated D G k') NoSwitch k := by
  have herrno : ∀ (e : SysError), SchedFrame k { k with errno := e } :=
    fun _ => .of_eq rfl rfl rfl rfl rfl rfl
  unfold createObject
  simp only [wp_bind, wp_get, wp_kassert, wp_ite]
  split
  swap
  · exact Stop.noConfusion
  split
  · exact hseat.frame (herrno _)
  · rename_i hmem
    split
    · exact hseat.frame (herrno _)
    · rename_i hdead
      obtain ⟨m, hx⟩ : ∃ m, k.cap x = .memory m := by
        cases hx : k.cap x <;> simp_all [getCapType]
      have hpop : wp (popFreeSlots t) (.debug cfg)
          (fun r k₁ => ∀ y, r = some y → Popped k t y k₁) NoSwitch k :=
        wp_pop h (fun hu => hdead (Or.inl hu)) (fun _ _ => by simp)
          fun y k₁ hy _ heq => Option.some.inj heq ▸ hy
      refine wp_mono (wp_and (SchedFrame.keeps_popFreeSlots t _ k) hpop) (fun r k₁ hr => ?_)
        fun _ _ he => he.2
      cases r with
      | none => exact hseat.frame (hr.1.trans (.of_eq rfl rfl rfl rfl rfl rfl))
      | some y =>
        rw [wp_bind]
        have hy := hr.2 y rfl
        have hseat₁ := hseat.frame hr.1
        refine wp_mono (wp_and (Caprese.wp_createObjectOf hy hx hm hok)
          (hseat₁.wp_createObjectOf hy hx hm hok hG)) (fun r' k₂ hr' => ?_) fun _ _ he => he.1
        cases r' with
        | none =>
          rw [wp_bind]
          have hpush : wp (pushFreeSlots t y) (.debug cfg) (fun _ _ => True) NoSwitch k₂ :=
            Popped.pushBack hr'.1 fun _ _ _ => trivial
          exact wp_mono (wp_and (SchedFrame.keeps_pushFreeSlots t y _ k₂) hpush)
            (fun _ k₃ hk₃ => hr'.2.frame hk₃.1) fun _ _ he => he.2
        | some z => exact hr'.2

end Caprese
