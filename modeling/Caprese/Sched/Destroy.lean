import Caprese.Sched.Calls
import Caprese.Sched.Ground
import Caprese.Sched.Touch

/-!
# `Caprese.Sched.Destroy`: the end of capabilities and the queues

The revocation and the destruction of capabilities run the destructors of tasks and endpoints,
which kill a task and cancel an endpoint. Between them only slots and tables are stored to
(`SlotsFrame`). So a state in which the queues are in order and every sender and receiver stands in
its queue (`Tidy`) stays one, up to where the calling task itself dies or a notice is sent.
-/

set_option autoImplicit false

namespace Caprese

open Lib Prog

/-- Every task that waits to send or to receive stands in a queue. -/
def Desk.Settled (A : Desk) : Prop :=
  ∀ t, (A.tasks t).state = .waiting → (A.tasks t).ipcState = .calling ∨ A.Queued t

/-- No capability names the idle task. -/
def Kernel.NoIdleCap (k : Kernel) : Prop := ∀ s c, k.cap s = .task c → c.task ≠ k.idleTask

/-- The queues are in order and settled, and the current task `u` is in user mode. -/
structure Tidy (u : TaskPtr) (G : EndpointPtr → Prop) (k : Kernel) : Prop where
  current : k.currentTask = u
  desk : ∃ A, Shows k A ∧ A.Inv debugAllows ∧ A.User ∧ A.Settled ∧ A.Grounded G
  noIdle : k.NoIdleCap

/-- The queues are in order, and the task that got the processor was switched in. -/
structure Left (G : EndpointPtr → Prop) (k : Kernel) : Prop where
  desk : ∃ A, Shows k A ∧ A.Inv debugAllows ∧ A.SwitchedIn ∧ A.Grounded G
  noIdle : k.NoIdleCap

/-- The queues are as they were, and no capability names a task that none named before. -/
structure SlotsFrame (k k' : Kernel) : Prop extends SchedFrame k k' where
  named : ∀ s c, k'.cap s = .task c → ∃ s', k.cap s' = .task c

namespace SlotsFrame

variable {k k' k'' : Kernel} {u : TaskPtr} {G : EndpointPtr → Prop}

theorem refl (k : Kernel) : SlotsFrame k k := ⟨.refl k, fun s _ h => ⟨s, h⟩⟩

theorem trans (h : SlotsFrame k k') (h' : SlotsFrame k' k'') : SlotsFrame k k'' where
  toSchedFrame := h.toSchedFrame.trans h'.toSchedFrame
  named s c hs := by
    obtain ⟨s', hs'⟩ := h'.named s c hs
    exact h.named s' c hs'

instance : IsPreorder Kernel SlotsFrame where
  refl := refl
  trans _ _ _ := trans

/-- Stores outside of the capabilities. -/
theorem of_cap (h : SchedFrame k k') (hcap : k'.cap = k.cap) : SlotsFrame k k' :=
  ⟨h, fun s _ hs => ⟨s, hcap ▸ hs⟩⟩

theorem setLinks (k : Kernel) (L : Links SlotPtr) : SlotsFrame k (k.setLinks L) :=
  of_cap (SchedFrame.setLinks_frame k L) rfl

/-- A store of a capability that names no new task. -/
theorem setCap {s : SlotPtr} {c : Capability} (h : ∀ cap, c = .task cap → ∃ s', k.cap s' = c) :
    SlotsFrame k (k.setCap s c) := by
  refine ⟨.of_eq rfl rfl rfl rfl rfl rfl, fun s' cap hs' => ?_⟩
  rw [Kernel.setCap_cap, upd_apply] at hs'
  split at hs'
  · obtain ⟨s₀, hs₀⟩ := h cap hs'
    exact ⟨s₀, hs₀.trans hs'⟩
  · exact ⟨s', hs'⟩

theorem noIdle (h : SlotsFrame k k') (hk : k.NoIdleCap) : k'.NoIdleCap := by
  intro s c hs
  obtain ⟨s', hs'⟩ := h.named s c hs
  rw [h.idleTask]
  exact hk s' c hs'

theorem tidy (h : SlotsFrame k k') (hk : Tidy u G k) : Tidy u G k' := by
  obtain ⟨A, hA, hrest⟩ := hk.desk
  exact ⟨h.currentTask.trans hk.current, ⟨A, hA.frame h.toSchedFrame, hrest⟩, h.noIdle hk.noIdle⟩

end SlotsFrame

/-! ### What lies between the destructors -/

/-- The run keeps the processor, the queues and the tasks that are named. -/
abbrev Idly {α : Type} (m : K α) : Prop := Steady .switched SlotsFrame m

section Parts

variable (slot : SlotPtr)

theorem idly_kassert (p : Prop) [Decidable p] : Idly (kassert p) :=
  ⟨keeps_kassert p, avoids_kassert p⟩

theorem idly_deref {α : Type} (p : Option α) : Idly (deref p) := ⟨keeps_deref p, avoids_deref p⟩

theorem idly_setErrno (e : SysError) : Idly (setErrno e) :=
  steady_modify fun _ => .of_cap (.of_eq rfl rfl rfl rfl rfl rfl) rfl

theorem idly_kloop {α β : Type} {body : α → K (α ⊕ β)} (h : ∀ a, Idly (body a)) (a : α) :
    Idly (kloop body a) :=
  ⟨keeps_kloop (fun a => (h a).keeps) a, avoids_kloop (fun a => (h a).avoids) a⟩

theorem idly_pageTableCap : Idly (pageTableCap slot) := by
  refine ⟨keeps_pageTableCap slot, avoids_bind avoids_get fun k => ?_⟩
  cases k.cap slot <;> first | exact avoids_pure _ | exact avoids_stop (by decide)

theorem idly_virtPageCap : Idly (virtPageCap slot) := by
  refine ⟨keeps_virtPageCap slot, avoids_bind avoids_get fun k => ?_⟩
  cases k.cap slot <;> first | exact avoids_pure _ | exact avoids_stop (by decide)

theorem idly_capSpaceCap : Idly (capSpaceCap slot) := by
  refine ⟨keeps_capSpaceCap slot, avoids_bind avoids_get fun k => ?_⟩
  cases k.cap slot <;> first | exact avoids_pure _ | exact avoids_stop (by decide)

theorem idly_idCap : Idly (idCap slot) := by
  refine ⟨keeps_idCap slot, avoids_bind avoids_get fun k => ?_⟩
  cases k.cap slot <;> first | exact avoids_pure _ | exact avoids_stop (by decide)

theorem idly_checkSlotTask : Idly (checkSlotTask slot) :=
  ⟨keeps_checkSlotTask slot, avoids_checkSlotTask slot⟩

theorem idly_eraseThis : Idly (eraseThis slot) :=
  ⟨keeps_eraseThis SlotsFrame.setLinks slot, avoids_eraseThis slot⟩

theorem idly_insertBefore (this : SlotPtr) : Idly (insertBefore this slot) :=
  ⟨keeps_insertBefore SlotsFrame.setLinks this slot, avoids_insertBefore this slot⟩

theorem idly_pushFreeSlots (task : TaskPtr) : Idly (pushFreeSlots task slot) := by
  have hpush : ∀ slot, Idly (modify fun k => k.setTask task { k.tasks task with
      freeSlots := some slot
      freeSlotsCount := (k.tasks task).freeSlotsCount + 1 } : K Unit) := fun _ =>
    steady_modify fun k => .of_cap (SchedFrame.freeSlots_frame k _ _) rfl
  refine steady_bind steady_get fun _ => steady_bind (idly_kassert _) fun _ => ?_
  refine steady_bind (idly_eraseThis slot) fun _ => steady_bind ?_ fun _ => ?_
  · exact steady_modify fun k => .setCap fun _ h => absurd h (by simp)
  refine steady_bind steady_get fun k => ?_
  cases (k.tasks task).freeSlots with
  | none => exact hpush slot
  | some head => exact steady_bind (idly_insertBefore slot head) fun _ => hpush slot

theorem idly_freeSlot : Idly (freeSlot slot) :=
  steady_bind steady_get fun _ => steady_bind (idly_deref _) fun task =>
    idly_pushFreeSlots slot task

/-- Skipping zombies, in the comparison of neighbours. -/
theorem idly_skipZombies : Idly (skipZombies slot) := by
  refine idly_kloop (fun slot => ?_) slot
  refine steady_bind steady_get fun _ => steady_ite ?_ (steady_pure _)
  exact steady_bind steady_get fun _ => steady_bind (idly_deref _) fun _ => steady_pure _

theorem idly_isSameObject (lhs rhs : SlotPtr) : Idly (isSameObject lhs rhs) := by
  refine steady_bind (idly_skipZombies lhs) fun _ => steady_bind (idly_skipZombies rhs) fun _ => ?_
  exact steady_ite (steady_pure _) (steady_bind steady_get fun _ => steady_bind steady_get fun _ =>
    steady_pure _)

theorem idly_checkLast : Idly (checkLast slot) := by
  refine steady_bind steady_get fun k => ?_
  cases (k.slots slot).next with
  | none => exact steady_pure _
  | some next => exact steady_bind (idly_isSameObject _ _) fun _ => idly_kassert _

theorem idly_clearEntry (parent : Option TablePtr) (va level : Nat) (object : PhysAddr) :
    Idly (clearEntry parent va level object) := by
  cases parent with
  | none => exact steady_pure _
  | some table =>
    refine steady_bind ⟨keeps_pageTableWalk va level, avoids_pageTableWalk va level⟩ fun _ => ?_
    refine steady_bind steady_get fun _ => steady_bind (idly_kassert _) fun _ => ?_
    refine steady_bind steady_get fun _ => steady_bind (idly_kassert _) fun _ => ?_
    exact steady_modify fun _ => .of_cap (.of_eq rfl rfl rfl rfl rfl rfl) rfl

theorem idly_lastSlot : Idly (lastSlot slot) := by
  refine idly_kloop (fun slot => steady_bind steady_get fun k => ?_) slot
  cases (k.slots slot).next with
  | none => exact steady_pure _
  | some next => exact steady_pure _

theorem idly_hasSameNeighbor : Idly (hasSameNeighbor slot) := by
  have hone : ∀ neighbor, Idly (isSameNeighbor neighbor slot) := by
    intro neighbor
    cases neighbor with
    | none => exact steady_pure _
    | some neighbor => exact idly_isSameObject _ _
  refine steady_bind steady_get fun _ => steady_bind (hone _) fun _ => ?_
  exact steady_ite (steady_pure _) (steady_bind steady_get fun _ => hone _)

end Parts

/-! ### The destructors -/

variable {cfg : Config} {k : Kernel} {t u : TaskPtr} {e : EndpointPtr} {slot : SlotPtr}
  {G : EndpointPtr → Prop}

/-- From a tidy state the run ends in a tidy state, or another task has the processor. -/
abbrev Tidies (u : TaskPtr) (G : EndpointPtr → Prop) (cfg : Config) {α : Type} (m : K α)
    (k : Kernel) : Prop :=
  wp m (.debug cfg) (fun _ k' => Tidy u G k') (fun e k' => e = .switched → Left G k') k

theorem left_fatal : Fatal fun e k => e = .switched → Left G k := fun _ _ hne heq => absurd heq hne

/-- The processor does not move in what is idly run. -/
theorem Tidy.wp_idly {α : Type} {m : K α} (h : Tidy u G k) (hm : Idly m) {Q : α → Kernel → Prop}
    (hQ : ∀ a k', SlotsFrame k k' → Tidy u G k' → Q a k') :
    wp m (.debug cfg) Q (fun e k' => e = .switched → Left G k') k :=
  hm.wp (fun a k' hk' => hQ a k' hk' (hk'.tidy h)) fun _ _ hne heq => absurd heq hne

theorem Tidy.idly {α : Type} {m : K α} (h : Tidy u G k) (hm : Idly m) : Tidies u G cfg m k :=
  h.wp_idly hm fun _ _ _ hk' => hk'

theorem Desk.Settled.mono {A B : Desk} (h : A.Settled)
    (htasks : ∀ u, (B.tasks u).state = .waiting → (A.tasks u).state = .waiting ∧
      (B.tasks u).ipcState = (A.tasks u).ipcState)
    (hqueued : ∀ u, (B.tasks u).state = .waiting → A.Queued u → B.Queued u) : B.Settled := by
  intro u hu
  obtain ⟨hstate, hipc⟩ := htasks u hu
  rw [hipc]
  exact (h u hstate).imp_right (hqueued u hu)

theorem Desk.queued_dequeue {A : Desk} (hp : A.Proper) {u : TaskPtr} {side : QueueSide}
    (hne : u ≠ t) (hu : A.Queued u) : (A.dequeue t e side).Queued u := by
  obtain ⟨e', side', hmem⟩ := hu
  exact ⟨e', side', (Desk.mem_dequeue hp).mpr ⟨hmem, fun heq => hne heq.2.2⟩⟩

/-- A task that dies leaves the queues to the others. -/
theorem Desk.Settled.bury {A : Desk} (h : A.Settled) (hp : A.Proper) (i : Int) :
    (A.bury t i).Settled := by
  have hcases : (∃ e side, A.unlink t = A.dequeue t e side) ∨
      (∃ s, A.unlink t = A.mapTask s fun task => { task with callerTask := none }) ∨
      A.unlink t = A.dropReady t ∨ A.unlink t = A := by
    unfold Desk.unlink Desk.withdraw
    split
    · exact Or.inr (Or.inr (Or.inl rfl))
    · split
      · split
        · exact Or.inl ⟨_, _, rfl⟩
        · exact Or.inl ⟨_, _, rfl⟩
        · split
          · exact Or.inr (Or.inl ⟨_, rfl⟩)
          · exact Or.inr (Or.inr (Or.inr rfl))
      · exact Or.inr (Or.inr (Or.inr rfl))
    · exact Or.inr (Or.inr (Or.inr rfl))
  have hbury : ∀ u, u ≠ t → (A.bury t i).tasks u = (A.unlink t).tasks u :=
    fun u hne => upd_ne _ _ hne
  have hdead : ((A.bury t i).tasks t).state = .killed := by
    unfold Desk.bury
    rw [Desk.mapTask_tasks, if_pos rfl]
  have hne : ∀ u, ((A.bury t i).tasks u).state = .waiting → u ≠ t := by
    rintro u hu rfl
    rw [hdead] at hu
    exact absurd hu (by decide)
  refine h.mono (fun u hu => ?_) fun u hu hq => ?_
  · have hu' := hu
    rw [hbury u (hne u hu)] at hu' ⊢
    rcases hcases with ⟨e, side, heq⟩ | ⟨s, heq⟩ | heq | heq
    · rw [heq, Desk.dequeue_tasks] at hu' ⊢
      exact ⟨hu', rfl⟩
    · rw [heq, Desk.mapTask_tasks] at hu' ⊢
      split at hu' <;> rename_i hs
      · rw [if_pos hs]
        subst hs
        exact ⟨hu', rfl⟩
      · rw [if_neg hs]
        exact ⟨hu', rfl⟩
    · rw [heq] at hu' ⊢
      exact ⟨hu', rfl⟩
    · rw [heq] at hu' ⊢
      exact ⟨hu', rfl⟩
  · show (A.unlink t).Queued u
    rcases hcases with ⟨e, side, heq⟩ | ⟨s, heq⟩ | heq | heq
    · rw [heq]
      exact Desk.queued_dequeue hp (hne u hu) hq
    · rw [heq]
      exact hq
    · rw [heq]
      exact hq
    · rw [heq]
      exact hq

theorem Desk.CancelTurn.settled {A B : Desk} {side : QueueSide} (hp : A.Proper) (h : A.Settled)
    (hturn : Desk.CancelTurn e side A B) : B.Settled := by
  obtain ⟨t, -, rfl⟩ := hturn
  have hne : ∀ u, (((A.dequeue t e side).wake t fun task => task.canceled side).tasks u).state
      = .waiting → u ≠ t := by
    rintro u hu rfl
    unfold Desk.wake at hu
    rw [Desk.pushReady_tasks, Desk.mapTask_tasks, if_pos rfl] at hu
    cases side <;> exact absurd hu (by simp [Task.canceled, Task.received, Task.sent])
  refine h.mono (fun u hu => ?_) fun u hu hq => Desk.queued_dequeue hp (hne u hu) hq
  have hu' := hu
  unfold Desk.wake at hu' ⊢
  rw [Desk.pushReady_tasks, Desk.mapTask_tasks, if_neg (hne u hu)] at hu' ⊢
  exact ⟨hu', rfl⟩

theorem Desk.CancelEffect.settled {A B : Desk} (hI : A.Inv debugAllows) (hp : A.Proper)
    (hu : A.User) (halive : A.Alive e) (h : A.Settled) (he : A.CancelEffect e B) : B.Settled := by
  have hloop : ∀ {side : QueueSide} {D D' : Desk}, D.CancelLoop e side D' →
      D.Inv debugAllows ∧ D.Proper ∧ D.User ∧ D.Alive e ∧ D.Settled →
      D'.Inv debugAllows ∧ D'.Proper ∧ D'.User ∧ D'.Alive e ∧ D'.Settled := by
    rintro side D D' ⟨hturns, -⟩ hD
    induction hturns with
    | refl => exact hD
    | tail _ hturn ih =>
      obtain ⟨hI', hp', hu', halive', hs'⟩ := ih
      obtain ⟨hI'', hp'', hu'', halive''⟩ := Desk.CancelTurn.inv hI' hp' hu' halive' hturn
      exact ⟨hI'', hp'', hu'', halive'', hturn.settled hp' hs'⟩
  obtain ⟨D, hreceivers, hsenders⟩ := he
  exact (hloop hsenders (hloop hreceivers ⟨hI, hp, hu, halive, h⟩)).2.2.2.2

theorem Kernel.NoIdleCap.frame {k' : Kernel} (h : k.NoIdleCap) (hframe : CapFrame k k')
    (hidle : k'.idleTask = k.idleTask) : k'.NoIdleCap := by
  intro s c hs
  rw [hidle]
  refine h s c ?_
  rw [← hs]
  unfold Kernel.cap
  rw [hframe.slots]

theorem Tidy.killTask (h : Tidy u G k) (ht : t ≠ k.idleTask) (i : Int) :
    Tidies u G cfg (Caprese.killTask t i) k := by
  obtain ⟨A, hA, hI, hu, hs, hg⟩ := h.desk
  have ho : A.Orderly (.kill t i) := by
    refine ⟨hs t, fun hdead _ _ _ hq => ?_⟩
    rw [hI.queued_waits hq] at hdead
    exact absurd hdead (by decide)
  have htarget : (Op.kill t i).target ≠ some A.idle := by
    intro heq
    exact ht ((Option.some.inj heq).trans hA.idle.symm)
  have hdeaths : ∀ t' i', Op.kill t i = .kill t' i' → debugAllows.deaths ∧
      ((Env.debug cfg).ndebug = true → debugAllows.notices) := fun _ _ _ =>
    ⟨trivial, fun hrelease => Bool.noConfusion hrelease⟩
  have hwp : wp (do Caprese.killTask t i; return true : K Bool) (.debug cfg) _ _ k :=
    hA.wp_serve hI hA.proper hu (fun hn => hn.elim) hdeaths ho htarget
  have hnoIdle : ∀ {k' : Kernel} {A' : Desk} {answer : Option Bool}, CapFrame k k' →
      Shows k' A' → A.Effect debugAllows.notices (.kill t i) answer A' → k'.NoIdleCap := by
    intro k' A' answer hframe hA' he
    exact h.noIdle.frame hframe (hA'.idle.trans (he.idle.trans hA.idle.symm))
  rw [wp_bind] at hwp
  refine wp_mono (wp_and hwp (wp_killTask t i)) ?_ ?_
  · rintro _ k' ⟨⟨A', hA', he⟩, hframe⟩
    obtain ⟨hI', hu'⟩ := he.inv hI hA.proper hu ho htarget fun _ _ _ => trivial
    have hg' := he.2.grounded (Desk.bury_grounded hg i)
    have hcurrent : k'.currentTask = u := by
      rw [hA'.current, he.current, ← hA.current, h.current]
    refine ⟨hcurrent, ⟨A', hA', hI', hu', ?_, hg'⟩, hnoIdle hframe hA' he⟩
    obtain ⟨-, he⟩ := he
    cases he with
    | other => exact hs.bury hA.proper i
  · rintro _ k' ⟨hstop, hframe⟩ rfl
    rcases hstop with ⟨-, A', hA', he⟩ | ⟨hne, -⟩
    · obtain ⟨hI', hswitched⟩ := he.inv hI hA.proper hu ho htarget fun _ _ _ => trivial
      exact ⟨⟨A', hA', hI', hswitched, he.2.grounded (Desk.bury_grounded hg i)⟩,
        hnoIdle hframe hA' he⟩
    · exact absurd rfl hne

theorem Tidy.ipcCancel (h : Tidy u G k) : Tidies u G cfg (Caprese.ipcCancel e) k := by
  obtain ⟨A, hA, hI, hu, hs, hg⟩ := h.desk
  have ho : A.Orderly (.cancel e) := by
    intro t hmem hdead
    rw [hI.queued_waits ⟨e, .sender, hmem⟩] at hdead
    exact absurd hdead (by decide)
  have hwp : wp (do Caprese.ipcCancel e; return true : K Bool) (.debug cfg) _ _ k :=
    hA.wp_serve hI hA.proper hu (fun hn => hn.elim) (by rintro _ _ ⟨⟩) ho (by simp [Op.target])
  rw [wp_bind] at hwp
  refine wp_mono (wp_and (wp_and hwp (wp_ipcCancel e)) (avoids_ipcCancel e _ _)) ?_ ?_
  · rintro _ k' ⟨⟨⟨A', hA', he⟩, hframe⟩, -⟩
    obtain ⟨hI', hu'⟩ := he.inv hI hA.proper hu ho (by simp [Op.target]) (by rintro _ _ ⟨⟩)
    have hcurrent : k'.currentTask = u := by
      rw [hA'.current, he.current, ← hA.current, h.current]
    exact ⟨hcurrent, ⟨A', hA', hI', hu', he.2.settled hI hA.proper hu ho hs, he.2.grounded hg⟩,
      h.noIdle.frame hframe (hA'.idle.trans (he.idle.trans hA.idle.symm))⟩
  · rintro _ k' ⟨-, hne⟩ heq
    exact absurd heq hne

/-! ### Revocation and destruction -/

theorem Tidy.destroyObject (h : Tidy u G k) : Tidies u G cfg (Caprese.destroyObject slot) k := by
  have hdestroyed : ∀ {m : K Unit}, Idly m → Tidies u G cfg m k := fun hm => h.idly hm
  have hcap : ∀ {m : MemoryCap} {k' : Kernel}, SlotsFrame k' (k'.setCap slot (.memory m)) :=
    .setCap fun _ heq => absurd heq (by simp)
  unfold Caprese.destroyObject
  rw [Tidies, wp_bind, wp_get]
  cases getCapType (k.cap slot) with
  | mem =>
    refine hdestroyed (steady_bind steady_get fun _ => steady_bind (idly_kassert _) fun _ => ?_)
    refine steady_bind ⟨keeps_memoryCap slot, avoids_bind avoids_get fun k => ?_⟩ fun _ =>
      steady_modify fun _ => hcap
    cases k.cap slot <;> first | exact avoids_pure _ | exact avoids_stop (by decide)
  | task =>
    show wp (destroyTaskObject slot) _ _ _ _
    unfold destroyTaskObject
    rw [wp_bind]
    refine h.wp_idly (idly_checkLast slot) fun _ k₁ _ h₁ => ?_
    rw [wp_bind]
    refine wp_readTask left_fatal fun cap hcap => ?_
    rw [wp_bind, wp_modify]
    have hrecord : SlotsFrame k₁ (k₁.record (.destroyTask cap.task)) := by
      refine .of_cap (.of_eq rfl rfl rfl rfl rfl ?_) rfl
      show (k₁.trace ++ [_]).filterMap Event.delivery = k₁.trace.filterMap Event.delivery
      rw [List.filterMap_append]
      exact List.append_nil _
    exact (hrecord.tidy h₁).killTask (h₁.noIdle slot cap hcap) 0
  | endpoint =>
    show wp (destroyEndpointObject slot) _ _ _ _
    unfold destroyEndpointObject
    rw [wp_bind]
    refine h.wp_idly (idly_checkLast slot) fun _ k₁ _ h₁ => ?_
    rw [wp_bind]
    refine wp_readEndpoint left_fatal fun cap hcap => ?_
    rw [wp_bind, wp_modify]
    have hrecord : SlotsFrame k₁ (k₁.record (.destroyEndpoint cap.endpoint)) := by
      refine .of_cap (.of_eq rfl rfl rfl rfl rfl ?_) rfl
      show (k₁.trace ++ [_]).filterMap Event.delivery = k₁.trace.filterMap Event.delivery
      rw [List.filterMap_append]
      exact List.append_nil _
    exact (hrecord.tidy h₁).ipcCancel
  | pageTable =>
    exact hdestroyed (steady_bind (idly_checkLast slot) fun _ =>
      steady_bind (idly_pageTableCap slot) fun _ => idly_clearEntry _ _ _ _)
  | virtPage =>
    exact hdestroyed (steady_bind (idly_checkLast slot) fun _ =>
      steady_bind (idly_virtPageCap slot) fun _ => idly_clearEntry _ _ _ _)
  | capSpace =>
    exact hdestroyed (steady_bind (idly_checkLast slot) fun _ =>
      steady_bind (idly_capSpaceCap slot) fun _ => steady_pure _)
  | id =>
    exact hdestroyed (steady_bind (idly_checkLast slot) fun _ =>
      steady_bind (idly_idCap slot) fun _ => steady_pure _)
  | null => exact hdestroyed (steady_stop (by decide))
  | zombie => exact hdestroyed (steady_stop (by decide))
  | unknown => exact hdestroyed (steady_stop (by decide))

theorem Tidy.destroyCapSlot (h : Tidy u G k) : Tidies u G cfg (Caprese.destroyCapSlot slot) k := by
  have hend : ∀ k', Tidy u G k' → Tidies u G cfg (do
      let _ ← eraseThis slot
      freeSlot slot : K Unit) k' := fun k' h' =>
    h'.idly (steady_bind (idly_eraseThis slot) fun _ => idly_freeSlot slot)
  have hdestroy : ∀ k', Tidy u G k' → Tidies u G cfg (do
      Caprese.destroyObject slot
      let _ ← eraseThis slot
      freeSlot slot : K Unit) k' := by
    intro k' h'
    rw [Tidies, wp_bind]
    exact wp_mono h'.destroyObject (fun _ k'' h'' => hend k'' h'') fun _ _ he => he
  unfold Caprese.destroyCapSlot
  rw [Tidies, wp_bind, wp_get, wp_bind]
  refine h.wp_idly (idly_kassert _) fun _ k₁ _ h₁ => ?_
  rw [wp_bind]
  refine h₁.wp_idly (idly_checkSlotTask slot) fun _ k₂ _ h₂ => ?_
  rw [wp_bind, wp_get]
  cases (k₂.slots slot).prev with
  | none => exact hdestroy k₂ h₂
  | some prevSlot =>
    dsimp only
    rw [wp_bind, wp_get, wp_ite]
    split
    · rw [wp_bind, wp_modify]
      exact hend _ ((SlotsFrame.setCap fun _ _ => ⟨slot, rfl⟩).tidy h₂)
    · rw [wp_bind]
      refine h₂.wp_idly (idly_isSameObject _ _) fun same k₃ _ h₃ => ?_
      rw [wp_ite]
      split
      · exact hdestroy k₃ h₃
      · exact hend k₃ h₃

theorem Tidy.backTo {body : SlotPtr → K Unit}
    (hbody : ∀ s k, Tidy u G k → Tidies u G cfg (body s) k) (h : Tidy u G k) (last : SlotPtr) : Tidies u G cfg (Caprese.backTo slot body last) k := by
  refine wp_kloop (fun _ k' => Tidy u G k') h (by simp) fun s k' h' => ?_
  rw [wp_ite]
  split
  · exact h'
  · rw [wp_bind, wp_get]
    dsimp only
    rw [wp_bind]
    refine wp_mono (hbody s k' h') (fun _ k'' h'' => ?_) fun _ _ he => he
    rw [wp_bind]
    exact h''.wp_idly (idly_deref _) fun _ _ _ h₃ => h₃

theorem Tidy.setCap {c : Capability} (h : Tidy u G k)
    (hc : ∀ cap, c = .task cap → cap.task ≠ k.idleTask) :
    Tidy u G (k.setCap slot c) := by
  obtain ⟨A, hA, hrest⟩ := h.desk
  refine ⟨h.current, ⟨A, hA.frame (.of_eq rfl rfl rfl rfl rfl rfl), hrest⟩, fun s cap hs => ?_⟩
  rw [Kernel.setCap_cap, upd_apply] at hs
  split at hs
  · exact hc cap hs
  · exact h.noIdle s cap hs

theorem Tidy.revokeCap (h : Tidy u G k) : Tidies u G cfg (Caprese.revokeCap slot) k := by
  unfold Caprese.revokeCap
  rw [Tidies, wp_bind, wp_get]
  dsimp only
  rw [wp_ite]
  split
  · exact h.idly (steady_bind (idly_setErrno _) fun _ => steady_pure _)
  · rw [wp_bind]
    refine h.wp_idly (idly_checkSlotTask slot) fun _ k₁ _ h₁ => ?_
    rw [wp_ite]
    split
    · rw [wp_bind]
      refine h₁.wp_idly (idly_lastSlot slot) fun last k₂ _ h₂ => ?_
      rw [wp_bind]
      refine wp_mono (h₂.backTo (fun s k hk => hk.destroyCapSlot) last) (fun _ k₃ h₃ => ?_)
        fun _ _ he => he
      exact h₃
    · -- Of the zombie's list nothing but slots is given back.
      rw [wp_bind, wp_get, wp_bind]
      refine h₁.wp_idly (idly_deref _) fun next k₂ _ h₂ => ?_
      rw [wp_bind]
      refine h₂.wp_idly (idly_skipZombies next) fun capSlot k₃ _ h₃ => ?_
      rw [wp_bind, wp_get]
      rw [wp_bind]
      have hback : Idly (Caprese.backTo slot (fun capSlot => do
          let _ ← eraseThis capSlot
          freeSlot capSlot) capSlot) := by
        refine idly_kloop (fun s => steady_ite (steady_pure _) ?_) capSlot
        refine steady_bind steady_get fun _ => steady_bind ?_ fun _ => ?_
        · exact steady_bind (idly_eraseThis s) fun _ => idly_freeSlot s
        · exact steady_bind (idly_deref _) fun _ => steady_pure _
      refine h₃.wp_idly hback fun _ k₄ hk₄ h₄ => ?_
      unfold storeCap
      rw [wp_bind, wp_modify]
      refine h₄.setCap fun cap hcap => ?_
      rw [hk₄.idleTask]
      exact h₃.noIdle capSlot cap hcap

theorem Tidy.destroyRevoked (h : Tidy u G k) : Tidies u G cfg (Caprese.destroyRevoked slot) k := by
  have hend : ∀ k', Tidy u G k' → Tidies u G cfg (do
      let _ ← eraseThis slot
      freeSlot slot
      return true : K Bool) k' := fun k' h' =>
    h'.idly (steady_bind (idly_eraseThis slot) fun _ => steady_bind (idly_freeSlot slot) fun _ =>
      steady_pure _)
  unfold Caprese.destroyRevoked
  rw [Tidies, wp_bind]
  refine h.wp_idly (idly_hasSameNeighbor slot) fun same k₁ _ h₁ => ?_
  rw [wp_ite]
  split
  · rw [wp_bind]
    refine wp_mono h₁.destroyObject (fun _ k₂ h₂ => ?_) fun _ _ he => he
    exact h₂.idly (steady_bind (idly_freeSlot slot) fun _ => steady_pure _)
  · rw [wp_bind, wp_get]
    cases (k₁.slots slot).prev with
    | none => exact hend k₁ h₁
    | some prevSlot =>
      rw [wp_bind, wp_get, wp_ite]
      split
      · rw [wp_bind]
        refine h₁.wp_idly (idly_isSameObject _ _) fun _ k₂ _ h₂ => ?_
        rw [wp_bind]
        refine h₂.wp_idly (idly_kassert _) fun _ k₃ _ h₃ => ?_
        exact h₃.revokeCap
      · exact hend k₁ h₁

/-- The destruction of a capability. -/
theorem Tidy.destroyCap (h : Tidy u G k) : Tidies u G cfg (Caprese.destroyCap slot) k := by
  unfold Caprese.destroyCap
  rw [Tidies, wp_bind, wp_get]
  dsimp only
  rw [wp_ite]
  split
  · exact h.idly (steady_bind (idly_setErrno _) fun _ => steady_pure _)
  · rw [wp_ite]
    split
    · rw [wp_bind]
      refine wp_mono h.revokeCap (fun revoked k₁ h₁ => ?_) fun _ _ he => he
      rw [wp_ite]
      split
      · exact h₁
      · exact h₁.destroyRevoked
    · exact h.destroyRevoked

end Caprese
