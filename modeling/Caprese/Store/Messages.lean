import Caprese.Kernel.Core
import Caprese.Sched.Frame
import Caprese.Store.Attach

/-!
# `Caprese.Store.Messages`: operations on tasks and endpoints are moves

A message hands capabilities over, and all else that an operation on tasks and endpoints does is of
no interest to the capability store. `Hands k k'` says that an operation took the kernel from `k` to
`k'` by moves of the abstract machine, with the same tasks in use. That a message was delivered is
in the history of the kernel, and the machine does not see it (`CapStore.mute`).

The second half runs an operation: `Stays` is the relation as long as it keeps the processor, and
each rule takes it through one step of the code.
-/

set_option autoImplicit false

namespace Caprese

open Lib Prog

/-! ### The history without messages -/

/-- An event that the abstract machine sees. -/
def Event.loud : Event → Bool
  | .deliver _ _ => false
  | _ => true

/-- The store without the messages in its history. -/
def CapStore.mute (S : CapStore) : CapStore := { S with trace := S.trace.filter Event.loud }

section Mute

variable {S S' : CapStore} {act : Act} {acts : List Act}

theorem filter_loud (trace : List Event) {events : List Event} (h : ∀ e ∈ events, e.loud = true) :
    (trace ++ events).filter Event.loud = trace.filter Event.loud ++ events := by
  rw [List.filter_append, List.filter_eq_self.mpr h]

theorem destroyEvents_loud (c : Capability) : ∀ e ∈ c.destroyEvents, e.loud = true := by
  cases c <;> simp [Capability.destroyEvents, Event.loud]

/-- A move is one of the muted store, as no move is a message. -/
theorem Trans.mute (h : Trans S act S') : Trans S.mute act S'.mute := by
  cases h with
  | create hx hy hl carve object => exact .create (S := S.mute) hx hy hl carve object
  | adopt hy hp hr h0 h1 unmapped unused detached init =>
    unfold CapStore.mute
    rw [filter_loud S.trace]
    · exact .adopt (S := S.mute) hy hp hr h0 h1 unmapped unused detached init
    · simp [Event.loud]
  | copy hx hy hl => exact .copy (S := S.mute) hx hy hl
  | delegate hx hy hl => exact .delegate (S := S.mute) hx hy hl
  | move hx hy hl => exact .move (S := S.mute) hx hy hl
  | newRoot hy => exact .newRoot (S := S.mute) hy
  | undelegate hz hm he hl => exact .undelegate (S := S.mute) hz hm he hl
  | @destroy s _ _ hs hl hp last =>
    unfold CapStore.mute
    rw [filter_loud S.trace (destroyEvents_loud (S.cap s))]
    exact .destroy (S := S.mute) hs hl hp last
  | drop hs hl hp same => exact .drop (S := S.mute) hs hl hp same
  | selfDestroy =>
    unfold CapStore.mute
    rw [filter_loud S.trace]
    · exact .selfDestroy (S := S.mute)
    · simp [Event.loud]
  | mapTable hx hy hi va level free unmapped =>
    exact .mapTable (S := S.mute) hx hy hi va level free unmapped
  | unmapTable hx hy hi va enabled mapped same =>
    exact .unmapTable (S := S.mute) hx hy hi va enabled mapped same
  | mapPage hx hy hi va free unmapped level =>
    exact .mapPage (S := S.mute) hx hy hi va free unmapped level
  | unmapPage hx hy hi va enabled mapped same =>
    exact .unmapPage (S := S.mute) hx hy hi va enabled mapped same
  | remapPage hx ho hy hi va mapped level free enabled same =>
    exact .remapPage (S := S.mute) hx ho hy hi va mapped level free enabled same
  | attach hx hy unused detached free =>
    unfold CapStore.mute
    rw [filter_loud S.trace]
    · exact .attach (S := S.mute) hx hy unused detached free
    · simp [Event.loud]
  | extend hx hy unmapped free => exact .extend (S := S.mute) hx hy unmapped free

theorem Moves.mute (h : Moves S acts S') : Moves S.mute acts S'.mute := by
  induction h with
  | nil => exact .nil
  | snoc _ ht ih => exact .snoc ih ht.mute

/-- The invariant of the machine does not look at the history. -/
theorem capInv_mute : CapInv S.mute ↔ CapInv S := by
  constructor
  · exact fun h => ⟨⟨h.ok.valid, h.ok.mem⟩, h.tail,
      ⟨h.mem.bounds, h.mem.disjoint, h.mem.aligned, h.mem.tasks, h.mem.spaces⟩⟩
  · exact fun h => ⟨⟨h.ok.valid, h.ok.mem⟩, h.tail,
      ⟨h.mem.bounds, h.mem.disjoint, h.mem.aligned, h.mem.tasks, h.mem.spaces⟩⟩

end Mute

/-! ### What an operation does -/

/-- The operation took `k` to `k'` by moves, and left the same tasks in use. -/
structure Hands (k k' : Kernel) : Prop where
  does : StoreInv k ∅ → StoreInv k' ∅ ∧ ∃ acts, Moves k.store.mute acts k'.store.mute
  unused : ∀ t, (k'.tasks t).state = .unused ↔ (k.tasks t).state = .unused

namespace Hands

variable {k k' k'' : Kernel}

theorem refl (k : Kernel) : Hands k k := ⟨fun h => ⟨h, [], .nil⟩, fun _ => Iff.rfl⟩

theorem trans (h : Hands k k') (h' : Hands k' k'') : Hands k k'' where
  does hk := by
    obtain ⟨hk', acts, hmoves⟩ := h.does hk
    obtain ⟨hk'', acts', hmoves'⟩ := h'.does hk'
    exact ⟨hk'', acts ++ acts', hmoves.append hmoves'⟩
  unused t := (h'.unused t).trans (h.unused t)

theorem of_capFrame (h : CapFrame k k') : Hands k k' where
  does hk := ⟨h.storeInv hk, [], h.store ▸ .nil⟩
  unused := h.unused

/-- The processor goes to another task. -/
theorem processor (k : Kernel) (task : TaskPtr) : Hands k { k with currentTask := task } :=
  .of_capFrame (.of_eq rfl rfl rfl rfl rfl rfl)

/-- The machine does not see that a message was delivered. -/
theorem deliver (k : Kernel) (dst src : TaskPtr) : Hands k (k.record (.deliver dst src)) where
  does hk := by
    have hframe : StoreFrame k (k.record (.deliver dst src)) :=
      ⟨rfl, rfl, fun _ => rfl, fun _ => rfl, fun _ => Iff.rfl⟩
    refine ⟨hframe.storeInv hk, [], ?_⟩
    have hstore : (k.record (.deliver dst src)).store.mute = k.store.mute := by
      show ({ k.store with trace := (k.trace ++ [Event.deliver dst src]).filter Event.loud } :
        CapStore) = _
      rw [List.filter_append, show [Event.deliver dst src].filter Event.loud = [] from rfl,
        List.append_nil]
      rfl
    rw [hstore]
    exact .nil
  unused _ := Iff.rfl

/-- A store to the fields of a task that the capabilities do not depend on. -/
theorem mapTask {t : TaskPtr} {f : Task → Task}
    (hf : ∀ task : Task, (f task).freeSlots = task.freeSlots ∧
      (f task).freeSlotsCount = task.freeSlotsCount ∧
      (f task).rootPageTable = task.rootPageTable ∧ (f task).capCount = task.capCount)
    (hstate : (f (k.tasks t)).state = .unused ↔ (k.tasks t).state = .unused) :
    Hands k (k.mapTask t f) := by
  obtain ⟨h1, h2, h3, h4⟩ := hf (k.tasks t)
  exact .of_capFrame (.mapTask k t h1 h2 h3 h4 hstate)

theorem used (h : Hands k k') {t : TaskPtr} (ht : (k.tasks t).state ≠ .unused) :
    (k'.tasks t).state ≠ .unused := fun hu => ht ((h.unused t).mp hu)

end Hands

/-- The same, and the processor is where it was. -/
structure Stays (k k' : Kernel) : Prop extends Hands k k' where
  current : k'.currentTask = k.currentTask

namespace Stays

variable {k k' k'' : Kernel}

theorem refl (k : Kernel) : Stays k k := ⟨.refl k, rfl⟩

theorem trans (h : Stays k k') (h' : Stays k' k'') : Stays k k'' :=
  ⟨h.toHands.trans h'.toHands, h'.current.trans h.current⟩

instance : IsPreorder Kernel Stays where
  refl := refl
  trans _ _ _ := trans

theorem storeBytes (k : Kernel) (addr : Nat) (bytes : List UInt8) :
    Stays k (k.storeBytes addr bytes) := ⟨.of_capFrame (.of_eq rfl rfl rfl rfl rfl rfl), rfl⟩

end Stays

section Operations

variable {cfg : Config} {k k₁ : Kernel}

/-- Runs of the build with assertions, up to where they give the processor away. -/
abbrev Handing {α : Type} (cfg : Config) (m : K α) : Prop :=
  KeepsIn (.debug cfg) (fun e => e = .switched) Stays m

theorem handing_of_keeps {α : Type} {m : K α} (h : Keeps Stays m) : Handing cfg m :=
  h.keepsIn fun _ _ h => h

/-- An operation on capabilities that no task notices. -/
theorem handing_of_does {α : Type} {m : K α} (hframe : Keeps SchedFrame m)
    (h : ∀ k, StoreInv k ∅ → wp m (.debug cfg) (fun _ k' => ∃ acts, Does k acts k') NoSwitch k) :
    Handing cfg m := by
  intro k
  have hunused : ∀ {k' : Kernel}, SchedFrame k k' → ∀ t,
      (k'.tasks t).state = .unused ↔ (k.tasks t).state = .unused := fun hk' t => by rw [hk'.state]
  by_cases hk : StoreInv k ∅
  · refine wp_mono (wp_and (hframe (.debug cfg) k) (h k hk)) ?_ ?_
    · rintro _ k' ⟨hk', acts, hdoes⟩
      exact ⟨⟨fun _ => ⟨hdoes.inv, acts, hdoes.moves.mute⟩, hunused hk'⟩, hk'.currentTask⟩
    · rintro e k' ⟨-, hne⟩ rfl
      exact absurd rfl hne
  · refine hframe.wp (fun _ k' hk' => ?_) fun _ k' hk' _ => ?_
    · exact ⟨⟨fun hk' => absurd hk' hk, hunused hk'⟩, hk'.currentTask⟩
    · exact ⟨⟨fun hk' => absurd hk' hk, hunused hk'⟩, hk'.currentTask⟩

/-! ### The transfer of a message -/

theorem handing_transferCap (dst : TaskPtr) (slot : Option SlotPtr) :
    Handing cfg (transferCap dst slot) := by
  refine handing_of_does (SchedFrame.keeps_transferCap dst slot) fun k hk => ?_
  cases slot with
  | none =>
    unfold transferCap
    simp only [wp_bind, wp_kassert]
    exact Stop.noConfusion
  | some x =>
    refine wp_mono (wp_transferCap hk) (fun y k' hy => ?_) fun _ _ he => he
    cases y with
    | none => exact ⟨_, hy⟩
    | some y => exact ⟨_, hy⟩

theorem handing_delegateCap (dst : TaskPtr) (slot : Option SlotPtr) :
    Handing cfg (delegateCap dst slot) := by
  refine handing_of_does (SchedFrame.keeps_delegateCap dst slot) fun k hk => ?_
  cases slot with
  | none =>
    unfold delegateCap
    simp only [wp_bind, wp_deref]
    exact Stop.noConfusion
  | some x =>
    refine wp_mono (wp_delegateCap hk) (fun y k' hy => ?_) fun _ _ he => he
    cases y with
    | none => exact ⟨_, hy⟩
    | some y => exact ⟨_, hy⟩

theorem handing_lookupCap (task : TaskPtr) (capDesc : Nat) :
    Handing cfg (lookupCap task capDesc) := by
  refine handing_of_does (SchedFrame.keeps_lookupCap task capDesc) fun k hk => ?_
  exact wp_lookupCap (fun _ _ => ⟨[], .nothing hk rfl⟩) fun e => ⟨[], does_errno hk e⟩

theorem handing_writeUserMemory (task : TaskPtr) (src : List UInt8) (dst : Nat) :
    Handing cfg (writeUserMemory task src dst) :=
  handing_of_keeps (keeps_writeUserMemory Stays.storeBytes task src dst)

theorem handing_writeMessageHeader (task : TaskPtr) (header : MessageHeader) :
    Handing cfg (writeMessageHeader task header) :=
  handing_of_keeps (keeps_writeMessageHeader Stays.storeBytes task header)

theorem handing_get : Handing cfg (get : K Kernel) := handing_of_keeps keeps_get

theorem handing_ask : Handing cfg (ask : K Env) := handing_of_keeps keeps_ask

theorem handing_transferMsgCap (dst src : TaskPtr) (i : Nat) :
    Handing cfg (transferMsgCap dst src i) := by
  unfold transferMsgCap
  refine keepsIn_bind handing_ask fun env => keepsIn_bind handing_get fun _ => ?_
  refine keepsIn_bind (handing_of_keeps (keeps_readUserMemory _ _ _)) fun bytes => ?_
  cases bytes with
  | none => exact keepsIn_pure _
  | some bytes =>
    refine keepsIn_bind (handing_lookupCap _ _) fun slot => keepsIn_ite ?_ ?_
    · refine keepsIn_bind (handing_delegateCap _ _) fun dstSlot => ?_
      cases dstSlot with
      | none => exact keepsIn_pure _
      | some dstSlot =>
        exact keepsIn_bind (keepsIn_bind handing_get fun _ => keepsIn_pure _) fun _ =>
          keepsIn_bind handing_get fun _ => handing_writeUserMemory _ _ _
    · refine keepsIn_bind (handing_transferCap _ _) fun dstSlot => ?_
      cases dstSlot with
      | none => exact keepsIn_pure _
      | some dstSlot =>
        exact keepsIn_bind (keepsIn_bind handing_get fun _ => keepsIn_pure _) fun _ =>
          keepsIn_bind handing_get fun _ => handing_writeUserMemory _ _ _

theorem handing_transferMsgCaps (dst src : TaskPtr) (is dataTypeMap : List Nat) :
    Handing cfg (transferMsgCaps dst src is dataTypeMap) := by
  induction is generalizing dataTypeMap with
  | nil => exact keepsIn_pure _
  | cons i is ih =>
    unfold transferMsgCaps
    refine keepsIn_ite (keepsIn_bind (handing_transferMsgCap _ _ _) fun _ => ?_) (ih _)
    exact keepsIn_ite (ih _) (keepsIn_pure _)

theorem handing_transferPayload (dst src : TaskPtr) (header : MessageHeader) :
    Handing cfg (transferPayload dst src header) := by
  unfold transferPayload
  refine keepsIn_bind handing_get fun k => ?_
  dsimp only
  cases (k.tasks src).ipcMsgState with
  | empty => exact keepsIn_pure _
  | shortSize =>
    exact keepsIn_bind handing_get fun _ => keepsIn_bind handing_ask fun _ =>
      handing_writeUserMemory _ _ _
  | longSize =>
    unfold transferLongPayload
    refine keepsIn_bind handing_ask fun _ => keepsIn_bind handing_get fun _ => ?_
    refine keepsIn_bind handing_get fun _ => keepsIn_bind ?_ fun _ => ?_
    · exact handing_of_keeps (keeps_forwardUserMemory Stays.storeBytes _ _ _ _ _)
    · refine keepsIn_ite (keepsIn_bind (handing_transferMsgCaps _ _ _ _) fun map => ?_)
        (keepsIn_pure _)
      cases map with
      | none => exact keepsIn_pure _
      | some map => exact keepsIn_ite (handing_writeMessageHeader _ _) (keepsIn_pure _)

theorem handing_ipcTransferIpcMsg (dst src : TaskPtr) :
    Handing cfg (ipcTransferIpcMsg dst src) := by
  unfold ipcTransferIpcMsg
  refine keepsIn_bind (handing_of_keeps (keeps_checkReceiver dst)) fun _ => ?_
  refine keepsIn_bind ?_ fun srcHeader => ?_
  · unfold sourceHeader
    refine keepsIn_bind handing_get fun k => ?_
    dsimp only
    cases (k.tasks src).ipcMsgState with
    | empty => exact keepsIn_pure _
    | shortSize => exact keepsIn_pure _
    | longSize => exact handing_of_keeps (keeps_readMessageHeader _)
  · cases srcHeader with
    | none => exact keepsIn_pure _
    | some srcHeader =>
      refine keepsIn_bind (handing_of_keeps (keeps_readMessageHeader dst)) fun dstHeader => ?_
      cases dstHeader with
      | none => exact keepsIn_pure _
      | some dstHeader =>
        refine keepsIn_ite (keepsIn_pure _) ?_
        refine keepsIn_bind handing_ask fun _ => keepsIn_bind handing_get fun _ => ?_
        refine keepsIn_bind handing_get fun _ => ?_
        refine keepsIn_bind (handing_writeMessageHeader _ _) fun _ => ?_
        refine keepsIn_ite (keepsIn_bind (handing_transferPayload _ _ _) fun _ => ?_) (keepsIn_pure _)
        refine keepsIn_ite (keepsIn_bind ?_ fun _ => keepsIn_pure _) (keepsIn_pure _)
        exact handing_of_keeps (keeps_modify fun k => ⟨.deliver k dst src, rfl⟩)

theorem handing_ipcTransferKillMsg (dst src : TaskPtr) :
    Handing cfg (ipcTransferKillMsg dst src) := by
  refine handing_of_keeps ?_
  unfold ipcTransferKillMsg
  refine keeps_bind (keeps_checkReceiver dst) fun _ => ?_
  refine keeps_bind (keeps_readMessageHeader dst) fun header => ?_
  cases header with
  | none => exact keeps_pure _
  | some header =>
    refine keeps_bind keeps_ask fun _ => keeps_bind keeps_get fun _ => keeps_bind keeps_get ?_
    refine fun _ => keeps_bind (keeps_writeMessageHeader Stays.storeBytes _ _) fun _ => ?_
    refine keeps_ite (keeps_bind (keeps_modify fun k => ?_) fun _ => keeps_pure _) (keeps_pure _)
    exact ⟨.of_capFrame (.mapTask k _ rfl rfl rfl rfl Iff.rfl), rfl⟩

/-! ### Steps of an operation -/

/-- A stop that gives the processor away comes behind moves. -/
def Gives (k : Kernel) : Stop → Kernel → Prop := fun e k' => e = .switched → Hands k k'

theorem gives_of_ne {e : Stop} {k' : Kernel} (h : e ≠ .switched) : Gives k e k' :=
  fun heq => absurd heq h

/-- A store to a task in use that the capabilities do not depend on. -/
def Spares (f : Task → Task) : Prop := ∀ task : Task, (f task).freeSlots = task.freeSlots ∧
  (f task).freeSlotsCount = task.freeSlotsCount ∧ (f task).rootPageTable = task.rootPageTable ∧
  (f task).capCount = task.capCount ∧ (task.state ≠ .unused → (f task).state ≠ .unused)

section Rules

variable {α : Type} {Q : α → Kernel → Prop} {QU : Unit → Kernel → Prop}
  {t : TaskPtr} {f : Task → Task} {e : EndpointPtr} {side : QueueSide} {resume : Resume}

theorem Stays.wp_handing {m : K α} (h : Stays k k₁) (hm : Handing cfg m)
    (hQ : ∀ a k', Stays k k' → Q a k') : wp m (.debug cfg) Q (Gives k) k₁ :=
  hm.wp (fun a k' hk' => hQ a k' (h.trans hk')) fun _ _ hk' he => h.toHands.trans (hk' he).toHands

theorem wp_kassert_gives {p : Prop} [Decidable p] (hQ : p → QU () k₁) :
    wp (kassert p) (.debug cfg) QU (Gives k) k₁ := by
  rw [wp_kassert]
  split
  · rename_i hp
    exact hQ hp
  · exact gives_of_ne (by decide)

theorem Stays.used (h : Stays k k₁) (ht : (k.tasks t).state ≠ .unused) :
    (k₁.tasks t).state ≠ .unused := h.toHands.used ht

/-- What is in use now was so before. -/
theorem Stays.used_before (h : Stays k k₁) (ht : (k₁.tasks t).state ≠ .unused) :
    (k.tasks t).state ≠ .unused := fun hu => ht ((h.unused t).mpr hu)

theorem Stays.mapTask (h : Stays k k₁) (hf : Spares f) (ht : (k₁.tasks t).state ≠ .unused) :
    Stays k (k₁.mapTask t f) := by
  refine h.trans ⟨.mapTask (fun task => ?_) ⟨fun hu => absurd hu ?_, fun hu => absurd hu ht⟩, rfl⟩
  · obtain ⟨h1, h2, h3, h4, -⟩ := hf task
    exact ⟨h1, h2, h3, h4⟩
  · exact (hf _).2.2.2.2 ht

theorem Stays.wp_modifyTask (h : Stays k k₁) (hf : Spares f) (ht : (k₁.tasks t).state ≠ .unused)
    (hQ : ∀ k', Stays k k' → QU () k') : wp (modifyTask t f) (.debug cfg) QU (Gives k) k₁ :=
  hQ _ (h.mapTask hf ht)

theorem Stays.readyLinks (k : Kernel) (L : Links TaskPtr) (queue : TaskQueue) :
    Stays k { k.setReadyLinks L with readyQueue := queue } :=
  ⟨.of_capFrame ((CapFrame.setReadyLinks k L).trans (.of_eq rfl rfl rfl rfl rfl rfl)), rfl⟩

theorem Stays.wp_pushReadyQueue (h : Stays k k₁) (hQ : ∀ k', Stays k k' → QU () k') :
    wp (pushReadyQueue t) (.debug cfg) QU (Gives k) k₁ := by
  refine h.wp_handing (handing_of_keeps ?_) fun _ => hQ
  unfold pushReadyQueue
  refine keeps_bind keeps_get fun _ => keeps_bind (keeps_kassert _) fun _ => ?_
  refine keeps_bind keeps_get fun _ => keeps_bind (keeps_kassert _) fun _ => ?_
  refine keeps_bind keeps_get fun _ => keeps_bind (keeps_kassert _) fun _ => ?_
  refine keeps_bind keeps_get fun _ => keeps_bind keeps_get fun _ => ?_
  exact keeps_bind (keeps_deref _) fun _ => keeps_modify fun k => .readyLinks k _ _

/-- The task was ready. -/
theorem Stays.wp_removeReadyQueue (h : Stays k k₁)
    (hQ : ∀ k', Stays k k' → (k₁.tasks t).state ≠ .unused → QU () k') :
    wp (removeReadyQueue t) (.debug cfg) QU (Gives k) k₁ := by
  unfold removeReadyQueue
  rw [wp_bind, wp_get, wp_bind]
  refine wp_kassert_gives fun hready => ?_
  have hused : (k₁.tasks t).state ≠ .unused := by
    rw [hready]
    decide
  refine h.wp_handing (handing_of_keeps ?_) fun _ k' hk' => hQ k' hk' hused
  refine keeps_bind keeps_get fun _ => keeps_bind keeps_get fun _ => ?_
  exact keeps_bind (keeps_deref _) fun _ => keeps_modify fun k => .readyLinks k _ _

theorem Stays.wp_pushWaitingQueue (h : Stays k k₁) (hQ : ∀ k', Stays k k' → QU () k') :
    wp (pushWaitingQueue e side t) (.debug cfg) QU (Gives k) k₁ := by
  refine h.wp_handing (handing_of_keeps ?_) fun _ => hQ
  unfold pushWaitingQueue
  refine keeps_bind keeps_get fun _ => keeps_bind (keeps_kassert _) fun _ => ?_
  refine keeps_bind keeps_get fun _ => keeps_bind (keeps_kassert _) fun _ => ?_
  refine keeps_bind keeps_get fun _ => keeps_bind (keeps_kassert _) fun _ => ?_
  refine keeps_bind keeps_get fun _ => keeps_bind keeps_get fun _ => ?_
  exact keeps_bind (keeps_deref _) fun _ => keeps_modify fun k =>
    ⟨.of_capFrame (.requeued k _ _ _ _), rfl⟩

/-- The task waited, so it is in use. -/
theorem Stays.wp_removeWaitingQueue (h : Stays k k₁)
    (hQ : ∀ k', Stays k k' → (k'.tasks t).state ≠ .unused → QU () k') :
    wp (removeWaitingQueue e side t) (.debug cfg) QU (Gives k) k₁ := by
  rw [Caprese.wp_removeWaitingQueue]
  split
  · rename_i hwait
    split
    · rename_i queue L _
      have hk' : Stays k₁ (k₁.requeued e side queue L) := ⟨.of_capFrame (.requeued k₁ _ _ _ _), rfl⟩
      refine hQ _ (h.trans hk') (hk'.used ?_)
      rw [hwait]
      decide
    · exact gives_of_ne (by decide)
  · exact gives_of_ne (by decide)

theorem Stays.wp_resched (h : Stays k k₁) :
    wp (resched resume : K α) (.debug cfg) Q (Gives k) k₁ := by
  unfold resched switchContext modifyTask
  rw [wp_bind, wp_get, wp_bind, wp_modify, wp_bind, wp_modify]
  have hleave : CapFrame { k₁ with currentTask := k₁.idleTask }
      (({ k₁ with currentTask := k₁.idleTask } : Kernel).mapTask k₁.currentTask fun t =>
        { t with context := resume }) := .mapTask _ _ rfl rfl rfl rfl Iff.rfl
  exact fun _ => (h.toHands.trans (.processor k₁ _)).trans (.of_capFrame hleave)

/-- The current task is in use, and so is the one that gets the processor, which is ready. -/
theorem Stays.wp_switchTask (h : Stays k k₁) (hcur : (k.tasks k.currentTask).state ≠ .unused)
    (hQ : ∀ k', Stays k k' → QU () k') : wp (switchTask t resume) (.debug cfg) QU (Gives k) k₁ := by
  unfold switchTask
  rw [wp_bind, wp_get, wp_bind]
  refine wp_kassert_gives fun hready => ?_
  have hused : (k₁.tasks t).state ≠ .unused := by
    rw [hready]
    decide
  rw [wp_bind, wp_get, wp_ite]
  split
  · exact hQ _ h
  · have hk₂ : Stays k (k₁.mapTask t fun t => { t with state := .running }) :=
      h.mapTask (fun _ => ⟨rfl, rfl, rfl, rfl, fun _ => TaskState.noConfusion⟩) hused
    have hcur₂ := hk₂.used hcur
    generalize hk₂' : k₁.mapTask t (fun t => { t with state := .running }) = k₂ at hk₂ hcur₂
    unfold modifyTask
    rw [wp_bind, wp_modify, hk₂', wp_bind, wp_modify, wp_bind, wp_modify, wp_bind]
    -- From here on the processor is not where it was, so the relation is taken to the new state.
    have hold : k₁.currentTask = k.currentTask := h.current
    generalize hk₃ : (({ k₂ with currentTask := t } : Kernel).mapTask k₁.currentTask fun t =>
      { t with state := .ready }) = k₃
    have h₃ : Hands k k₃ := by
      rw [← hk₃, hold]
      have hready : Hands { k₂ with currentTask := t } (({ k₂ with currentTask := t } :
          Kernel).mapTask k.currentTask fun t => { t with state := .ready }) :=
        .mapTask (fun _ => ⟨rfl, rfl, rfl, rfl⟩)
          ⟨fun hu => absurd hu (by simp), fun hu => absurd hu hcur₂⟩
      exact (hk₂.toHands.trans (.processor k₂ t)).trans hready
    refine (Stays.refl k₃).wp_pushReadyQueue (fun k₄ h₄ => ?_) |> fun hwp =>
      wp_mono hwp (fun _ _ hQ' => hQ') fun e k' he heq => h₃.trans (he heq)
    unfold switchContext modifyTask
    rw [wp_bind, wp_modify]
    exact fun _ => h₃.trans (h₄.toHands.trans (.of_capFrame (.mapTask _ _ rfl rfl rfl rfl Iff.rfl)))

end Rules

end Operations

end Caprese
