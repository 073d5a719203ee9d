import Caprese.Kernel.Syscall
import Caprese.Store.Attach

/-!
# `Caprese.System.Authority`: what a system call may ask for

A system call names objects by descriptors of its task. `Kernel.Grants` says what a request rests
on: a slot that the task can look up, with a capability of the right type that names the object of
the request and carries the flag that the request needs. `wp_resolve` shows that no table entry asks
for more, and that looking things up changes nothing in the kernel but the error number.
-/

set_option autoImplicit false

namespace Caprese

open Lib Prog

/-! ### Grants -/

section Grants

variable (k : Kernel) (t : TaskPtr)

/-- A descriptor of the task stands for the slot. -/
def Kernel.Finds (s : SlotPtr) : Prop := ∃ desc, k.findCap t desc = some s

/-- The task finds a capability to the task `target` that has the flag `right`. -/
def Kernel.HasTask (right : TaskCap → Bool) (target : TaskPtr) : Prop :=
  ∃ s cap, k.Finds t s ∧ k.cap s = .task cap ∧ cap.task = target ∧ right cap = true

/-- The task finds a capability to the endpoint. -/
def Kernel.HasEndpoint (e : EndpointPtr) : Prop :=
  ∃ s cap, k.Finds t s ∧ k.cap s = .endpoint cap ∧ cap.endpoint = e

/-- The task finds a capability of the type in the slot. -/
def Kernel.HasType (type : CapType) (s : SlotPtr) : Prop :=
  k.Finds t s ∧ getCapType (k.cap s) = type

/-- What an operation on tasks and endpoints rests on. -/
def Kernel.GrantsOp : Op → Prop
  | .sendShort _ e _ | .sendLong _ e _ | .receive _ e _ | .call e _ | .reply e _
  | .replyAndReceive e _ => k.HasEndpoint t e
  -- Only the destructor of an endpoint does this.
  | .cancel _ => False
  | .yield => True
  | .switchTo target => k.HasTask t (·.switchable) target
  | .suspend target => k.HasTask t (·.suspendable) target
  | .resume target => k.HasTask t (·.resumable) target
  | .kill target _ => k.HasTask t (·.killable) target
  -- No flag is asked for.
  | .setKillNotify target e => k.HasTask t (fun _ => true) target ∧ k.HasEndpoint t e

/-- What a call on capabilities rests on. -/
def Kernel.GrantsCall : Call → Prop
  | .createObject s _ _ => k.HasType t .mem s
  | .createId => True
  | .copyCap s | .revokeCap s | .destroyCap s => k.Finds t s
  | .transferCap target s | .delegateCap target s =>
    k.HasTask t (fun _ => true) target ∧ (k.tasks target).state = .suspended ∧ k.Finds t s
  | .insertCapSpace s s' => k.HasType t .task s ∧ k.HasType t .capSpace s'
  | .extendCapSpace s s' => k.HasType t .task s ∧ k.HasType t .pageTable s'
  | .mapPageTable s _ s' | .unmapPageTable s _ s' | .mapVirtPage s _ s' _ _ _
  | .unmapVirtPage s _ s' => k.HasType t .pageTable s ∧ ∀ y, s' = some y → k.Finds t y
  | .remapVirtPage s _ s' _ _ _ old =>
    k.HasType t .pageTable s ∧ (∀ y, s' = some y → k.Finds t y) ∧ ∀ y, old = some y → k.Finds t y

/-- What a request rests on. The registers are those of a suspended task. -/
def Kernel.Grants (lib : TrapConfig) : Request → Prop
  | .answer _ | .refuse _ => True
  | .op op => k.GrantsOp t op
  | .call call => k.GrantsCall t call
  | .getReg target reg => k.HasTask t (·.registerGettable) target ∧
    (k.tasks target).state = .suspended ∧ reg ≤ lib.lastRegister
  | .setReg target reg _ => k.HasTask t (·.registerSettable) target ∧
    (k.tasks target).state = .suspended ∧ reg ≤ lib.lastRegister

end Grants

/-! ### Lookups -/

/-- The two states differ in the error number at most. -/
def Kernel.Alike (k k' : Kernel) : Prop := ∃ error, k' = { k with errno := error }

variable {cfg : Config} {lib : TrapConfig} {abi : Abi} {args : SyscallArgs} {k k₁ : Kernel}
  {s : SlotPtr} {desc : UInt64} {type : CapType}

namespace Kernel.Alike

theorem refl (k : Kernel) : k.Alike k := ⟨k.errno, rfl⟩

theorem errno (h : k.Alike k₁) (error : SysError) : k.Alike { k₁ with errno := error } := by
  obtain ⟨_, rfl⟩ := h
  exact ⟨error, rfl⟩

variable (h : k.Alike k₁)
include h

theorem current : k₁.currentTask = k.currentTask := by
  obtain ⟨_, rfl⟩ := h
  rfl

theorem tasks : k₁.tasks = k.tasks := by
  obtain ⟨_, rfl⟩ := h
  rfl

theorem cap : k₁.cap = k.cap := by
  obtain ⟨_, rfl⟩ := h
  rfl

theorem findCap (t : TaskPtr) (desc : Nat) : k₁.findCap t desc = k.findCap t desc := by
  obtain ⟨_, rfl⟩ := h
  exact findCap_congr rfl rfl rfl rfl rfl desc

end Kernel.Alike

/-- From `k₁` the run resolves to a request that `k` grants its current task. -/
abbrev Resolved (cfg : Config) (lib : TrapConfig) (k : Kernel) (m : K Request) (k₁ : Kernel) :
    Prop :=
  wp m (.debug cfg) (fun request k' => k.Grants k.currentTask lib request ∧ k.Alike k')
    NoSwitch k₁

section Lookup

variable (h : k.Alike k₁)
include h

theorem resolved_refuse (error : SysError) :
    Resolved cfg lib k (pure (.refuse error) : K Request) k₁ := ⟨trivial, h⟩

theorem resolved_answer (result : Nat) :
    Resolved cfg lib k (pure (.answer result) : K Request) k₁ := ⟨trivial, h⟩

theorem resolved_errno : Resolved cfg lib k Request.errnoToSysret k₁ := by
  unfold Request.errnoToSysret
  rw [Resolved, wp_bind, wp_get]
  exact resolved_refuse h _

/-- A descriptor of the current task. -/
theorem wp_lookupArg {Q : Option SlotPtr → Kernel → Prop}
    (hQ : ∀ slot k₂, (∀ y, slot = some y → k.Finds k.currentTask y) → k.Alike k₂ → Q slot k₂) :
    wp (lookupArg desc) (.debug cfg) Q NoSwitch k₁ := by
  unfold lookupArg
  rw [wp_bind, wp_get, h.current]
  refine wp_lookupCap (fun y hy => ?_) fun error => ?_
  · rw [h.findCap] at hy
    refine hQ _ _ (fun y' hy' => ?_) h
    obtain rfl := Option.some.inj hy'
    exact ⟨_, hy⟩
  · exact hQ _ _ (fun y hy => absurd hy (by simp)) (h.errno error)

theorem resolved_withSlot {body : SlotPtr → K Request}
    (hbody : ∀ s k₂, k.Finds k.currentTask s → k.Alike k₂ → Resolved cfg lib k (body s) k₂) :
    Resolved cfg lib k (withSlot desc body) k₁ := by
  show wp (lookupArg desc >>= _) _ _ _ _
  rw [wp_bind]
  refine wp_lookupArg h fun slot k₂ hslot h₂ => ?_
  cases slot with
  | none => exact resolved_errno h₂
  | some s => exact hbody s k₂ (hslot s rfl) h₂

theorem resolved_withCap {body : SlotPtr → K Request}
    (hbody : ∀ s k₂, k.HasType k.currentTask type s → k.Alike k₂ →
      Resolved cfg lib k (body s) k₂) :
    Resolved cfg lib k (withCap type desc body) k₁ := by
  refine resolved_withSlot h fun s k₂ hs h₂ => ?_
  rw [Resolved, wp_bind, wp_get, wp_ite, h₂.cap]
  split
  · rw [wp_bind, wp_setErrno]
    exact resolved_errno (h₂.errno _)
  · rename_i htype
    exact hbody s k₂ ⟨hs, not_not.mp htype⟩ h₂

theorem resolved_withArg {body : SlotPtr → K Request}
    (hbody : ∀ s k₂, k.HasType k.currentTask type s → k.Alike k₂ →
      Resolved cfg lib k (body s) k₂) :
    Resolved cfg lib k (withArg type desc body) k₁ := by
  refine resolved_withSlot h fun s k₂ hs h₂ => ?_
  rw [Resolved, wp_bind, wp_get, wp_ite, h₂.cap]
  split
  · exact resolved_refuse h₂ _
  · rename_i htype
    exact hbody s k₂ ⟨hs, not_not.mp htype⟩ h₂

/-! The lookups of `lookup_mem_cap` and its siblings. -/

theorem resolved_withMemCap {body : SlotPtr → MemoryCap → K Request}
    (hbody : ∀ s cap k₂, k.HasType k.currentTask .mem s → k.Alike k₂ →
      Resolved cfg lib k (body s cap) k₂) :
    Resolved cfg lib k (withMemCap args body) k₁ := by
  refine resolved_withCap h fun s k₂ hs h₂ => ?_
  rw [Resolved, wp_bind]
  unfold memoryCap
  rw [wp_bind, wp_get]
  split
  · exact hbody s _ k₂ hs h₂
  · exact Stop.noConfusion

theorem resolved_withTaskCap {body : SlotPtr → TaskCap → K Request}
    (hbody : ∀ s cap k₂, k.HasType k.currentTask .task s → k.cap s = .task cap → k.Alike k₂ →
      Resolved cfg lib k (body s cap) k₂) :
    Resolved cfg lib k (withTaskCap args body) k₁ := by
  refine resolved_withCap h fun s k₂ hs h₂ => ?_
  rw [Resolved, wp_bind]
  refine wp_readTask (fun _ _ he => he) fun cap hcap => ?_
  rw [h₂.cap] at hcap
  exact hbody s cap k₂ hs hcap h₂

theorem resolved_withEndpointCap {body : EndpointCap → K Request}
    (hbody : ∀ cap k₂, k.HasEndpoint k.currentTask cap.endpoint → k.Alike k₂ →
      Resolved cfg lib k (body cap) k₂) :
    Resolved cfg lib k (withEndpointCap args body) k₁ := by
  refine resolved_withCap h fun s k₂ hs h₂ => ?_
  rw [Resolved, wp_bind]
  refine wp_readEndpoint (fun _ _ he => he) fun cap hcap => ?_
  rw [h₂.cap] at hcap
  exact hbody cap k₂ ⟨s, cap, hs.1, hcap, rfl⟩ h₂

theorem resolved_withPageTableCap {body : SlotPtr → PageTableCap → K Request}
    (hbody : ∀ s cap k₂, k.HasType k.currentTask .pageTable s → k.Alike k₂ →
      Resolved cfg lib k (body s cap) k₂) :
    Resolved cfg lib k (withPageTableCap args body) k₁ := by
  refine resolved_withCap h fun s k₂ hs h₂ => ?_
  rw [Resolved, wp_bind]
  exact wp_readPageTable (fun _ _ he => he) fun cap _ => hbody s cap k₂ hs h₂

theorem resolved_withVirtPageCap {body : VirtPageCap → K Request}
    (hbody : ∀ cap k₂, k.Alike k₂ → Resolved cfg lib k (body cap) k₂) :
    Resolved cfg lib k (withVirtPageCap args body) k₁ := by
  refine resolved_withCap h fun s k₂ hs h₂ => ?_
  rw [Resolved, wp_bind]
  exact wp_readVirtPage (fun _ _ he => he) fun cap _ => hbody cap k₂ h₂

/-! The calls on tasks. -/

theorem resolved_withRight (right : TaskCap → Bool) (op : TaskPtr → Op)
    (hop : ∀ target, k.HasTask k.currentTask right target → k.GrantsOp k.currentTask (op target)) :
    Resolved cfg lib k (withRight right args fun target => .op (op target)) k₁ := by
  refine resolved_withTaskCap h fun s cap k₂ hs hcap h₂ => ?_
  rw [Resolved, wp_ite]
  split
  · exact resolved_refuse h₂ _
  · rename_i hright
    exact ⟨hop _ ⟨s, cap, hs.1, hcap, rfl, by simpa using hright⟩, h₂⟩

theorem resolved_withRegister (right : TaskCap → Bool) (body : TaskPtr → Nat → Request)
    (hbody : ∀ target reg, k.HasTask k.currentTask right target →
      (k.tasks target).state = .suspended → reg ≤ lib.lastRegister →
      k.Grants k.currentTask lib (body target reg)) :
    Resolved cfg lib k (withRegister lib right args body) k₁ := by
  refine resolved_withTaskCap h fun s cap k₂ hs hcap h₂ => ?_
  rw [Resolved, wp_ite]
  split
  · exact resolved_refuse h₂ _
  · rename_i hright
    rw [wp_bind, wp_get, wp_ite, h₂.tasks]
    split
    · exact resolved_refuse h₂ _
    · rename_i hstate
      rw [wp_ite]
      split
      · exact resolved_refuse h₂ _
      · rename_i hreg
        exact ⟨hbody _ _ ⟨s, cap, hs.1, hcap, rfl, by simpa using hright⟩ (not_not.mp hstate)
          (not_lt.mp hreg), h₂⟩

theorem resolved_giveCap (call : TaskPtr → SlotPtr → Call)
    (hcall : ∀ target s, k.HasTask k.currentTask (fun _ => true) target →
      (k.tasks target).state = .suspended → k.Finds k.currentTask s →
      k.GrantsCall k.currentTask (call target s)) :
    Resolved cfg lib k (giveCap call args) k₁ := by
  refine resolved_withTaskCap h fun s cap k₂ hs hcap h₂ => ?_
  rw [Resolved, wp_bind, wp_get, wp_ite, h₂.tasks]
  split
  · exact resolved_refuse h₂ _
  · rename_i hstate
    refine resolved_withSlot h₂ fun s' k₃ hs' h₃ => ⟨?_, h₃⟩
    exact hcall _ _ ⟨s, cap, hs.1, hcap, rfl, rfl⟩ (not_not.mp hstate) hs'

end Lookup

/-! ### The table -/

/-- The calls on the tables of an address space. -/
theorem resolved_tableCall (h : k.Alike k₁) (call : SlotPtr → Option SlotPtr → Call)
    (hcall : ∀ s slot, k.HasType k.currentTask .pageTable s →
      (∀ y, slot = some y → k.Finds k.currentTask y) → k.GrantsCall k.currentTask (call s slot)) :
    Resolved cfg lib k (withPageTableCap args fun s _ => do
      let slot ← lookupArg desc
      return .call (call s slot)) k₁ := by
  refine resolved_withPageTableCap h fun s _ k₂ hs h₂ => ?_
  rw [Resolved, wp_bind]
  exact wp_lookupArg h₂ fun slot k₃ hslot h₃ => ⟨hcall s slot hs hslot, h₃⟩

/-- The operations on endpoints. -/
theorem resolved_endpointOp (h : k.Alike k₁) (op : EndpointPtr → Op)
    (hop : ∀ e, k.HasEndpoint k.currentTask e → k.GrantsOp k.currentTask (op e)) :
    Resolved cfg lib k (withEndpointCap args fun cap => pure (.op (op cap.endpoint))) k₁ :=
  resolved_withEndpointCap h fun _ _ he h₂ => ⟨hop _ he, h₂⟩

/-- What reads a field of a task. -/
theorem resolved_readTask (h : k.Alike k₁) (f : Task → Nat) :
    Resolved cfg lib k (withTaskCap args fun _ cap => do
      return .answer (f ((← get).tasks cap.task))) k₁ := by
  refine resolved_withTaskCap h fun _ _ k₂ _ _ h₂ => ?_
  rw [Resolved, wp_bind, wp_get]
  exact resolved_answer h₂ _

/-- No entry of the tables asks for what it has no capability to. -/
theorem Syscall.resolved (syscall : Syscall) (h : k.Alike k₁) :
    Resolved cfg lib k (syscall.resolve lib abi args) k₁ := by
  cases syscall with
  | systemNull => exact resolved_answer h _
  | systemCoreId => exact resolved_answer h _
  | systemPageSize => exact resolved_answer h _
  | systemUserSpaceStart => exact resolved_answer h _
  | systemUserSpaceEnd => exact resolved_answer h _
  | systemCapsPerCapSpace => exact resolved_answer h _
  | systemYield => exact ⟨trivial, h⟩
  | systemCapSize =>
    show Resolved cfg lib k (if _ then _ else _) k₁
    rw [Resolved, wp_ite]
    split
    · exact resolved_refuse h _
    · exact resolved_answer h _
  | systemCapAlign =>
    show Resolved cfg lib k (if _ then _ else _) k₁
    rw [Resolved, wp_ite]
    split
    · exact resolved_refuse h _
    · exact resolved_answer h _
  | archMmuMode => exact resolved_answer h _
  | capType =>
    show wp (lookupArg (args.args 0) >>= _) _ _ _ _
    rw [wp_bind]
    refine wp_lookupArg h fun slot k₂ _ h₂ => ?_
    cases slot with
    | none =>
      dsimp only
      rw [wp_bind, wp_get, wp_ite]
      split
      · exact resolved_answer h₂ _
      · exact resolved_errno h₂
    | some s =>
      dsimp only
      rw [wp_bind, wp_get]
      exact resolved_answer h₂ _
  | capCopy => exact resolved_withSlot h fun _ _ hs h₂ => ⟨hs, h₂⟩
  | capRevoke => exact resolved_withSlot h fun _ _ hs h₂ => ⟨hs, h₂⟩
  | capDestroy => exact resolved_withSlot h fun _ _ hs h₂ => ⟨hs, h₂⟩
  | capSame =>
    refine resolved_withSlot h fun lhs k₂ _ h₂ => resolved_withSlot h₂ fun rhs k₃ _ h₃ => ?_
    rw [Resolved, wp_bind]
    unfold isSameCap
    rw [wp_bind, wp_get, wp_bind, wp_get]
    split <;> exact ⟨trivial, h₃⟩
  | memCapDevice => exact resolved_withMemCap h fun _ _ _ _ h₂ => resolved_answer h₂ _
  | memCapPhysAddr => exact resolved_withMemCap h fun _ _ _ _ h₂ => resolved_answer h₂ _
  | memCapSize => exact resolved_withMemCap h fun _ _ _ _ h₂ => resolved_answer h₂ _
  | memCapUsedSize => exact resolved_withMemCap h fun _ _ _ _ h₂ => resolved_answer h₂ _
  | memCapCreateObject => exact resolved_withMemCap h fun _ _ _ hs h₂ => ⟨hs, h₂⟩
  | taskCapTid => exact resolved_readTask h (·.tid)
  | taskCapKillable => exact resolved_withTaskCap h fun _ _ _ _ _ h₂ => resolved_answer h₂ _
  | taskCapSwitchable => exact resolved_withTaskCap h fun _ _ _ _ _ h₂ => resolved_answer h₂ _
  | taskCapSuspendable => exact resolved_withTaskCap h fun _ _ _ _ _ h₂ => resolved_answer h₂ _
  | taskCapResumable => exact resolved_withTaskCap h fun _ _ _ _ _ h₂ => resolved_answer h₂ _
  | taskCapKill => exact resolved_withRight h (·.killable) (.kill · _) fun _ hright => hright
  | taskCapSwitch => exact resolved_withRight h (·.switchable) .switchTo fun _ hright => hright
  | taskCapSuspend => exact resolved_withRight h (·.suspendable) .suspend fun _ hright => hright
  | taskCapResume => exact resolved_withRight h (·.resumable) .resume fun _ hright => hright
  | taskCapGetReg =>
    exact resolved_withRegister h (·.registerGettable) .getReg
      fun _ _ hright hstate hreg => ⟨hright, hstate, hreg⟩
  | taskCapSetReg =>
    exact resolved_withRegister h (·.registerSettable) (.setReg · · _)
      fun _ _ hright hstate hreg => ⟨hright, hstate, hreg⟩
  | taskCapTransferCap =>
    exact resolved_giveCap h .transferCap fun _ _ ht hstate hs => ⟨ht, hstate, hs⟩
  | taskCapDelegateCap =>
    exact resolved_giveCap h .delegateCap fun _ _ ht hstate hs => ⟨ht, hstate, hs⟩
  | taskCapGetFreeSlotCount => exact resolved_readTask h (·.freeSlotsCount)
  | taskCapGetCapSpaceCount => exact resolved_readTask h (·.capCount.numCapSpace)
  | taskCapGetCapSpaceExtCount => exact resolved_readTask h (·.capCount.numExtension)
  | taskCapInsertCapSpace =>
    exact resolved_withTaskCap h fun _ _ _ hs _ h₂ =>
      resolved_withArg h₂ fun _ _ hs' h₃ => ⟨⟨hs, hs'⟩, h₃⟩
  | taskCapExtendCapSpace =>
    exact resolved_withTaskCap h fun _ _ _ hs _ h₂ =>
      resolved_withArg h₂ fun _ _ hs' h₃ => ⟨⟨hs, hs'⟩, h₃⟩
  | taskCapSetKillNotify =>
    refine resolved_withTaskCap h fun s cap _ hs hcap h₂ =>
      resolved_withArg h₂ fun s' k₃ hs' h₃ => ?_
    rw [Resolved, wp_bind]
    refine wp_readEndpoint (fun _ _ he => he) fun cap' hcap' => ?_
    rw [h₃.cap] at hcap'
    exact ⟨⟨⟨s, cap, hs.1, hcap, rfl, rfl⟩, ⟨s', cap', hs'.1, hcap', rfl⟩⟩, h₃⟩
  | endpointCapSendShort => exact resolved_endpointOp h (.sendShort true · _) fun _ he => he
  | endpointCapSendLong => exact resolved_endpointOp h (.sendLong true · _) fun _ he => he
  | endpointCapReceive => exact resolved_endpointOp h (.receive true · _) fun _ he => he
  | endpointCapReply => exact resolved_endpointOp h (.reply · _) fun _ he => he
  | endpointCapNbSendShort => exact resolved_endpointOp h (.sendShort false · _) fun _ he => he
  | endpointCapNbSendLong => exact resolved_endpointOp h (.sendLong false · _) fun _ he => he
  | endpointCapNbReceive => exact resolved_endpointOp h (.receive false · _) fun _ he => he
  | endpointCapCall => exact resolved_endpointOp h (.call · _) fun _ he => he
  | endpointCapReplyAndReceive => exact resolved_endpointOp h (.replyAndReceive · _) fun _ he => he
  | pageTableCapMapped => exact resolved_withPageTableCap h fun _ _ _ _ h₂ => resolved_answer h₂ _
  | pageTableCapLevel =>
    refine resolved_withPageTableCap h fun _ _ _ _ h₂ => ?_
    rw [Resolved, wp_ite]
    split
    · exact resolved_refuse h₂ _
    · exact resolved_answer h₂ _
  | pageTableCapMapTable =>
    exact resolved_tableCall h (.mapPageTable · _ ·) fun _ _ hs hslot => ⟨hs, hslot⟩
  | pageTableCapUnmapTable =>
    exact resolved_tableCall h (.unmapPageTable · _ ·) fun _ _ hs hslot => ⟨hs, hslot⟩
  | pageTableCapMapPage =>
    exact resolved_tableCall h (.mapVirtPage · _ · _ _ _) fun _ _ hs hslot => ⟨hs, hslot⟩
  | pageTableCapUnmapPage =>
    exact resolved_tableCall h (.unmapVirtPage · _ ·) fun _ _ hs hslot => ⟨hs, hslot⟩
  | pageTableCapRemapPage =>
    refine resolved_withPageTableCap h fun s _ k₂ hs h₂ => ?_
    rw [Resolved, wp_bind]
    refine wp_lookupArg h₂ fun slot k₃ hslot h₃ => ?_
    rw [wp_bind]
    exact wp_lookupArg h₃ fun old k₄ hold h₄ => ⟨⟨hs, hslot, hold⟩, h₄⟩
  | pageTableCapVirtAddrBase =>
    refine resolved_withPageTableCap h fun _ _ _ _ h₂ => ?_
    rw [Resolved, wp_ite]
    split
    · exact resolved_refuse h₂ _
    · exact resolved_answer h₂ _
  | virtPageCapMapped => exact resolved_withVirtPageCap h fun _ _ h₂ => resolved_answer h₂ _
  | virtPageCapReadable => exact resolved_withVirtPageCap h fun _ _ h₂ => resolved_answer h₂ _
  | virtPageCapWritable => exact resolved_withVirtPageCap h fun _ _ h₂ => resolved_answer h₂ _
  | virtPageCapExecutable => exact resolved_withVirtPageCap h fun _ _ h₂ => resolved_answer h₂ _
  | virtPageCapLevel => exact resolved_withVirtPageCap h fun _ _ h₂ => resolved_answer h₂ _
  | virtPageCapPhysAddr => exact resolved_withVirtPageCap h fun _ _ h₂ => resolved_answer h₂ _
  | virtPageCapVirtAddr =>
    refine resolved_withVirtPageCap h fun _ _ h₂ => ?_
    rw [Resolved, wp_ite]
    split
    · exact resolved_refuse h₂ _
    · exact resolved_answer h₂ _
  | idCapCreate => exact ⟨trivial, h⟩
  | idCapCompare =>
    refine resolved_withArg h fun lhs k₂ _ h₂ => resolved_withArg h₂ fun rhs k₃ _ h₃ => ?_
    rw [Resolved, wp_bind]
    unfold compareIdCap
    rw [wp_bind]
    refine wp_readId (fun _ _ he => he) fun _ _ => ?_
    rw [wp_bind]
    exact wp_readId (fun _ _ he => he) fun _ _ => ⟨trivial, h₃⟩

/-- A system call asks for nothing that its task has no capability to, and up to its request it
changes nothing but the error number. -/
theorem wp_resolve : Resolved cfg lib k (resolve lib abi args) k := by
  unfold resolve
  cases abi.syscall (args.code.toNat / 2 ^ 16 % 2 ^ 16) (args.code.toNat % 2 ^ 16) with
  | none => exact resolved_refuse (.refl k) _
  | some syscall => exact syscall.resolved (.refl k)

end Caprese
