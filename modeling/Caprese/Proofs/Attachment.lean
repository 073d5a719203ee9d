import Caprese.Store.Boot

/-!
# `Caprese.Proofs.Attachment`: capability spaces are attached once

A capability space is attached by `insert_cap_space`, which leaves an event in the history.
In a run without the creation of a task the flag `used` of a capability tells whether its
space is attached, and no space is attached twice. The creation of a task neither looks at the
flag nor sets it, so the space of the new task can be attached a second time.
-/

set_option autoImplicit false

namespace Caprese

open Lib Prog

variable {cfg : Config} {boot : BootInfo} {k k' : Kernel} {S S' : CapStore} {act : Act}

/-- Where an event attaches the space `p`. -/
def Event.attachment (p : SpacePtr) : Event → Option (TaskPtr × Nat)
  | .attach task index space => if space = p then some (task, index) else none
  | _ => none

/-- The places at which the space `p` was attached: tasks, and indices of their capability
spaces. -/
def attachments (trace : List Event) (p : SpacePtr) : List (TaskPtr × Nat) :=
  trace.filterMap (Event.attachment p)

/-- No space is attached twice, and the flags tell which spaces are attached. -/
structure AttachInv (S : CapStore) : Prop where
  count : ∀ p, (attachments S.trace p).length = if S.space p = none then 0 else 1
  used : ∀ s c, S.cap s = .capSpace c → (c.used = true ↔ S.space c.space ≠ none)

/-! ### One move -/

theorem between_start (p : PhysAddr) : Between p (p + PAGE_SIZE) p :=
  ⟨Nat.le_refl p, Nat.lt_add_of_pos_right (by decide)⟩

/-- The capability spaces of `cap` are named by capabilities of the store. -/
def FromSpaces (S : CapStore) (cap : SlotPtr → Capability) : Prop :=
  ∀ s c, cap s = .capSpace c → ∃ s', S.cap s' = .capSpace c

theorem fromSpaces_self (S : CapStore) : FromSpaces S S.cap := fun s _ hs => ⟨s, hs⟩

theorem FromSpaces.upd {cap : SlotPtr → Capability} {y : SlotPtr} {d : Capability}
    (h : FromSpaces S cap) (hd : ∀ c, d = .capSpace c → ∃ s', S.cap s' = .capSpace c) :
    FromSpaces S (upd cap y d) := by
  intro s c hs
  rw [upd_apply] at hs
  split at hs
  · exact hd c hs
  · exact h s c hs

theorem AttachInv.of_spaces (h : AttachInv S) (hspace : S'.space = S.space)
    (htrace : ∀ p, attachments S'.trace p = attachments S.trace p)
    (hcap : FromSpaces S S'.cap) : AttachInv S' where
  count p := by
    rw [htrace, hspace]
    exact h.count p
  used s c hs := by
    obtain ⟨s', hs'⟩ := hcap s c hs
    rw [hspace]
    exact h.used s' c hs'

theorem attachments_append_destroy (trace : List Event) (c : Capability) (p : SpacePtr) :
    attachments (trace ++ c.destroyEvents) p = attachments trace p := by
  unfold attachments
  rw [List.filterMap_append]
  cases c <;> simp [Capability.destroyEvents, Event.attachment]

/-- A new object is no capability space that is attached already. -/
theorem AttachInv.create (h : AttachInv S) (hm : MemInv S) {x y : SlotPtr} {m : MemoryCap}
    {size alignment base : Nat} {c : Capability} (hx : S.cap x = .memory m)
    (carve : Carve m size alignment base) (object : NewObject m.device base size alignment c)
    (hspace : S'.space = S.space) (htrace : S'.trace = S.trace)
    (hcap : S'.cap = upd (upd S.cap y c) x (.memory (m.carve base size))) : AttachInv S' := by
  have hdetached : ∀ d, c = .capSpace d → d.used = false ∧ S.space d.space = none := by
    intro d hd
    cases object with
    | capSpace =>
      obtain rfl := Capability.capSpace.inj hd
      refine ⟨rfl, ?_⟩
      show S.space base = none
      cases hbase : S.space base with
      | none => rfl
      | some t =>
        refine absurd ⟨x, m, hx, ?_⟩ (hm.spaces base t base hbase (between_start base))
        rw [hx]
        exact ⟨carve.low, Nat.lt_of_lt_of_le (between_start base).2 carve.high⟩
    | memory => exact absurd hd (by simp)
    | task => exact absurd hd (by simp [makeTaskCap])
    | endpoint => exact absurd hd (by simp [makeEndpointCap])
    | pageTable => exact absurd hd (by simp)
    | virtPage => exact absurd hd (by simp)
  refine ⟨fun p => ?_, fun s d hs => ?_⟩
  · rw [hspace, htrace]
    exact h.count p
  · rw [hspace]
    rw [hcap, upd_apply] at hs
    split at hs
    · exact absurd hs (by simp)
    · rw [upd_apply] at hs
      split at hs
      · obtain ⟨hused, hnone⟩ := hdetached d hs
        simp [hused, hnone]
      · exact h.used s d hs

/-- The space that `insert_cap_space` enters has one capability, which is marked. -/
theorem AttachInv.attach (h : AttachInv S) (hm : MemInv S) {y : SlotPtr} {p : CapSpaceCap}
    {task : TaskPtr} {number : Nat} (hy : S.cap y = .capSpace p) (hunused : p.used = false)
    (hspace : S'.space = upd S.space p.space (some task))
    (htrace : S'.trace = S.trace ++ [.attach task number p.space])
    (hcap : S'.cap = upd S.cap y (.capSpace { p with used := true })) : AttachInv S' := by
  have hnone : S.space p.space = none := by
    by_contra hsome
    have hused := (h.used y p hy).mpr hsome
    rw [hunused] at hused
    exact absurd hused (by simp)
  have hempty : (attachments S.trace p.space).length = 0 := by
    rw [h.count, if_pos hnone]
  refine ⟨fun q => ?_, fun s d hs => ?_⟩
  · have happend : attachments S'.trace q
        = attachments S.trace q ++ if p.space = q then [(task, number)] else [] := by
      rw [htrace]
      unfold attachments
      rw [List.filterMap_append]
      by_cases hq : p.space = q <;> simp [Event.attachment, hq]
    rw [happend, hspace, upd_apply]
    by_cases hq : q = p.space
    · rw [if_pos hq, if_pos hq.symm, if_neg (by simp), hq, List.length_append, hempty]
      rfl
    · rw [if_neg hq, if_neg (Ne.symm hq), List.append_nil]
      exact h.count q
  · rw [hspace, upd_apply]
    rw [hcap, upd_apply] at hs
    split at hs
    · obtain rfl := Capability.capSpace.inj hs
      simp
    · rename_i hsy
      have hne : d.space ≠ p.space := by
        intro heq
        have hdisjoint := hm.disjoint s y hsy
        rw [hs, hy] at hdisjoint
        have hsame := hdisjoint d.space (between_start d.space) (heq ▸ between_start d.space)
        exact absurd hsame (by simp [sameObject])
      rw [if_neg hne]
      exact h.used s d hs

theorem AttachInv.trans (h : AttachInv S) (hm : MemInv S) (ht : Trans S act S')
    (hact : act ≠ .adopt) : AttachInv S' := by
  cases ht with
  | create hx hy hl carve object => exact h.create hm hx carve object rfl rfl rfl
  | adopt => exact absurd rfl hact
  | @copy x y =>
    exact h.of_spaces rfl (fun _ => rfl)
      (((fromSpaces_self S).upd fun c hc => ⟨x, hc⟩).upd fun c hc => ⟨x, hc⟩)
  | @delegate x y =>
    exact h.of_spaces rfl (fun _ => rfl)
      (((fromSpaces_self S).upd fun c hc => ⟨x, hc⟩).upd fun c hc => absurd hc (by simp))
  | @move x y =>
    exact h.of_spaces rfl (fun _ => rfl)
      (((fromSpaces_self S).upd fun c hc => ⟨x, hc⟩).upd fun c hc => absurd hc (by simp))
  | newRoot =>
    exact h.of_spaces rfl (fun _ => rfl) ((fromSpaces_self S).upd fun c hc => absurd hc (by simp))
  | @undelegate z e =>
    refine h.of_spaces rfl (fun _ => rfl) fun s c hs => ?_
    dsimp only at hs
    split at hs
    · exact ⟨e, hs⟩
    · split at hs
      · exact absurd hs (by simp)
      · exact ⟨s, hs⟩
  | @destroy s =>
    exact h.of_spaces rfl (attachments_append_destroy S.trace (S.cap s))
      ((fromSpaces_self S).upd fun c hc => absurd hc (by simp))
  | drop =>
    exact h.of_spaces rfl (fun _ => rfl) ((fromSpaces_self S).upd fun c hc => absurd hc (by simp))
  | @selfDestroy task =>
    exact h.of_spaces rfl (attachments_append_destroy S.trace (makeTaskCap task))
      (fromSpaces_self S)
  | mapTable | unmapTable | mapPage | unmapPage | remapPage | extend =>
    exact h.of_spaces rfl (fun _ => rfl) ((fromSpaces_self S).upd fun c hc => absurd hc (by
      simp [VirtPageCap.mapTo]))
  | attach hx hy hunused => exact h.attach hm hy hunused rfl rfl rfl

/-! ### Runs -/

/-- The call creates a task. -/
def CreatesTask (call : Turn × Option Answer) : Prop :=
  match call.1.call, call.2 with
  | .createObject _ type _, some (.slot (some _)) => type = .task
  | _, _ => False

instance : DecidablePred CreatesTask := fun call => by
  unfold CreatesTask
  split <;> infer_instance

/-- No address wraps around in the call, and it creates no task. -/
def TasklessFits (k : Kernel) (call : Turn × Option Answer) : Prop :=
  call.1.Fits k ∧ ¬ CreatesTask call

instance (k : Kernel) (call : Turn × Option Answer) : Decidable (TasklessFits k call) :=
  inferInstanceAs (Decidable (_ ∧ _))

/-- Only the creation of a task makes one adopt its tables. -/
theorem Call.Makes.ne_adopt {turn : Turn} {answer : Option Answer} {acts : List Act}
    (h : turn.call.Makes k.cap answer acts) (hcall : ¬ CreatesTask (turn, answer)) :
    ∀ act ∈ acts, act ≠ .adopt := by
  have hremoval : ∀ act : Act, act.IsRemoval → act ≠ .adopt := by
    rintro act hact rfl
    exact hact
  intro act hact
  obtain ⟨t, call⟩ := turn
  match answer with
  | some (.slot (some y)) =>
    obtain rfl : acts = call.slotActs k.cap y := h
    cases call with
    | createObject x type args =>
      have htype : type ≠ .task := fun htype => hcall htype
      simp only [Call.slotActs, if_neg htype, List.mem_singleton] at hact
      rw [hact]
      exact Act.noConfusion
    | copyCap x =>
      simp only [Call.slotActs, List.mem_singleton] at hact
      rw [hact]
      unfold copyAct
      split <;> exact Act.noConfusion
    | _ =>
      simp only [Call.slotActs, List.mem_singleton, List.not_mem_nil] at hact
      try (rw [hact]; exact Act.noConfusion)
  | some (.slot none) =>
    obtain rfl : acts = [] := h
    exact absurd hact (by simp)
  | some (.bool b) =>
    rcases h with ⟨-, hacts⟩ | ⟨-, hacts⟩
    · exact hremoval act (hacts act hact)
    · rw [hacts] at hact
      cases b with
      | false => exact absurd hact (by simp)
      | true =>
        cases call <;> simp only [Call.flagActs, if_true, List.mem_singleton,
          List.not_mem_nil] at hact <;> (rw [hact]; exact Act.noConfusion)
  | none =>
    rcases h.2 act hact with hact | hact
    · exact hremoval act hact
    · rw [hact]
      exact Act.noConfusion

/-- The creation of an object answers with a slot. -/
theorem Step.create_answer {t : TaskPtr} {x : SlotPtr} {type : CapType} {args : List Nat}
    {answer : Option Answer} (hstep : Step cfg k ⟨t, .createObject x type args⟩ answer k')
    (h : KernelInv k) (hfits : CreateOk k x type args) : ∃ r, answer = some (.slot r) := by
  have hwp : wp (Answer.slot <$> createObject t x type args) (.debug cfg)
      (fun answer _ => ∃ r, answer = .slot r) NoSwitch (k.dispatch t) := by
    rw [wp_map]
    exact wp_mono (wp_createObject (h.links.dispatch t) h.store.mem hfits)
      (fun r _ _ => ⟨r, rfl⟩) fun _ _ he => he
  have hanswer := hstep.of_wp hwp
  cases answer with
  | none => exact absurd rfl hanswer
  | some answer =>
    obtain ⟨r, rfl⟩ := hanswer
    exact ⟨r, rfl⟩

/-- The flags keep `insert_cap_space` from attaching a space twice. -/
theorem AttachInv.safe {call : Turn × Option Answer} (h : AttachInv k.store) (hk : KernelInv k)
    (hok : TasklessFits k call) (hstep : Step cfg k call.1 call.2 k') : Safe k call := by
  refine ⟨hok.1, ?_⟩
  obtain ⟨⟨t, c⟩, answer⟩ := call
  cases c with
  | createObject x type args =>
    intro htype hanswer
    obtain ⟨r, rfl⟩ := hstep.create_answer hk hok.1
    cases r with
    | none => exact absurd rfl hanswer
    | some y => exact absurd htype hok.2
  | insertCapSpace x y =>
    intro hanswer p hp hunused
    by_contra hsome
    have hused := (h.used y p hp).mpr hsome
    rw [hunused] at hused
    exact absurd hused (by simp)
  | _ => trivial

/-- The two invariants along a call. -/
theorem AttachInv.step {call : Turn × Option Answer} (h : KernelInv k ∧ AttachInv k.store)
    (hok : TasklessFits k call) (hstep : Step cfg k call.1 call.2 k') :
    KernelInv k' ∧ AttachInv k'.store := by
  have hsafe : Safe k call := h.2.safe h.1 hok hstep
  obtain ⟨acts, hacts, hdoes⟩ := hstep.serves h.1.links h.1.store hsafe
  have hne : ∀ act ∈ acts, act ≠ .adopt := hacts.ne_adopt hok.2
  have hstore : CapInv k'.store ∧ AttachInv k'.store := by
    refine hdoes.moves.invariant_of (I := fun S => CapInv S ∧ AttachInv S) ?_ hne ⟨h.1.store, h.2⟩
    intro S act S' hact hS ht
    exact ⟨hS.1.trans ht, hS.2.trans hS.1.mem ht hact⟩
  exact ⟨⟨hdoes.inv, hstore.1⟩, hstore.2⟩

/-! ### The first state -/

theorem BootInfo.mem_caps_capSpace {c : CapSpaceCap} (h : .capSpace c ∈ boot.caps) :
    c.used = true ∧ c.space ∈ boot.capSpace :: boot.capSpaces := by
  have hin : .capSpace c ∈ (boot.capSpace :: boot.capSpaces).map (makeCapSpaceCap · true) := by
    simpa [caps, tableCaps, makeTaskCap, makeCapSpaceCap, RootMapping.caps, rootPageCaps,
      rootPageCap, MemoryRegion.cap] using h
  obtain ⟨p, hp, hc⟩ := List.mem_map.mp hin
  obtain rfl := Capability.capSpace.inj hc
  exact ⟨rfl, hp⟩

/-- A history of one attachment for each of some spaces. -/
theorem attachments_of_forall₂ {task : TaskPtr} {trace : List Event} {spaces : List SpacePtr}
    (h : List.Forall₂ (fun event p => ∃ n, event = .attach task n p) trace spaces)
    (hnd : spaces.Nodup) (p : SpacePtr) :
    (attachments trace p).length = if p ∈ spaces then 1 else 0 := by
  induction h with
  | nil => rfl
  | @cons event q trace spaces hevent _ ih =>
    obtain ⟨n, rfl⟩ := hevent
    obtain ⟨hq, hnd⟩ := List.nodup_cons.mp hnd
    have ih := ih hnd
    by_cases hqp : q = p
    · subst hqp
      rw [if_neg hq] at ih
      have hcons : attachments (.attach task n q :: trace) q = (task, n) :: attachments trace q := by
        simp [attachments, Event.attachment]
      rw [hcons, List.length_cons, ih, if_pos (by simp)]
    · have hcons : attachments (.attach task n q :: trace) p = attachments trace p := by
        simp [attachments, Event.attachment, hqp]
      rw [hcons, ih]
      simp [Ne.symm hqp]

theorem Booted.attachInv (h : Booted boot k) (hwf : boot.WellFormed) : AttachInv k.store where
  count p := by
    rw [h.space]
    have hcount := attachments_of_forall₂ h.trace hwf.spaces_nodup p
    by_cases hp : p ∈ boot.capSpace :: boot.capSpaces
    · rw [if_pos hp, if_neg (by simp)]
      rwa [if_pos hp] at hcount
    · rw [if_neg hp, if_pos rfl]
      rwa [if_neg hp] at hcount
  used s c hs := by
    have hcap : k.cap s = .capSpace c := hs
    have hmem := h.mem_caps (s := s) (by simp [hcap])
    rw [hcap] at hmem
    obtain ⟨hused, hspace⟩ := BootInfo.mem_caps_capSpace hmem
    rw [h.space, if_pos hspace]
    simp [hused]

/-! ### The claim of the source -/

/-- Each space is attached at one place at most, and the flags of the capabilities tell
which are attached. -/
structure AttachedOnce (k : Kernel) : Prop where
  once : ∀ p, (attachments k.trace p).length ≤ 1
  used : ∀ s c, k.cap s = .capSpace c → (c.used = true ↔ attachments k.trace c.space ≠ [])

theorem AttachInv.attachedOnce (h : AttachInv k.store) : AttachedOnce k where
  once p := by
    have hcount : (attachments k.trace p).length = if k.store.space p = none then 0 else 1 :=
      h.count p
    rw [hcount]
    split <;> omega
  used s c hs := by
    have hcount : (attachments k.trace c.space).length
      = if k.store.space c.space = none then 0 else 1 := h.count c.space
    rw [h.used s c hs, ne_eq, ne_eq, ← List.length_eq_zero_iff, hcount]
    by_cases hspace : k.store.space c.space = none <;> simp [hspace]

/-- In a run without the creation of a task, in which no address wraps around, every space is
attached once at most, and the flag of its capability tells whether it is. -/
theorem cap_spaces_attached_once (h : Reaches cfg boot TasklessFits k) : AttachedOnce k := by
  have hinv : KernelInv k ∧ AttachInv k.store :=
    h.invariant (fun k hk => ⟨hk.kernelInv h.wellFormed, hk.attachInv h.wellFormed⟩)
      fun k call k' hk hok hstep => AttachInv.step hk hok hstep
  exact hinv.2.attachedOnce

/-- A new space that the root task attaches to itself. -/
theorem cap_spaces_attached_once_root : ∃ k, Reaches sampleConfig sampleBoot TasklessFits k ∧
    k.cap (sampleSlot 11) = .capSpace ⟨true, 0x1000⟩ ∧ AttachedOnce k := by
  obtain ⟨k, hreach, hcap⟩ := @sample_reaches TasklessFits _
    [sampleTurn (.createObject (sampleSlot 6) .capSpace []),
      sampleTurn (.insertCapSpace (sampleSlot 1) (sampleSlot 11))]
    (fun k => k.cap (sampleSlot 11) = .capSpace ⟨true, 0x1000⟩) _ (by decide +kernel)
  exact ⟨k, hreach, hcap, cap_spaces_attached_once hreach⟩

/-- The first space of a new task is attached to it once more. -/
theorem cap_space_attached_twice : ¬ ∀ (cfg : Config) (boot : BootInfo) (k : Kernel),
    Reaches cfg boot (fun k call => call.1.Fits k) k → AttachedOnce k := by
  intro hclaim
  obtain ⟨k, hreach, htwice⟩ := @sample_reaches (fun k call => call.1.Fits k) _
    [sampleTurn (.createObject (sampleSlot 6) .capSpace []),
      sampleTurn (.createObject (sampleSlot 6) .pageTable []),
      sampleTurn (.createObject (sampleSlot 6) .pageTable []),
      sampleTurn (.createObject (sampleSlot 6) .pageTable []),
      sampleTurn (.createObject (sampleSlot 6) .task [11, 12, 13, 14]),
      sampleTurn (.insertCapSpace (sampleSlot 15) (sampleSlot 11))]
    (fun k => attachments k.trace 0x1000 = [(0x5000, 0), (0x5000, 1)]) _ (by decide +kernel)
  have honce := (hclaim _ _ k hreach).once 0x1000
  rw [htwice] at honce
  exact absurd honce (by decide)

end Caprese
