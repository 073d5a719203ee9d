import Caprese.Store.Boot

/-!
# `Caprese.Proofs.Carving`: `create_object` as an allocator

A memory capability hands out its range from low to high addresses. Along a run of
`create_object` the ranges that came from one capability are recorded (`Grant`), and each new
one lies behind them, inside of the parent, as long as no address computation wraps around
and no new task gets a capability space that is in use.
-/

set_option autoImplicit false

namespace Caprese

open Lib Prog

variable {cfg : Config} {boot : BootInfo} {k k' k₀ : Kernel} {t : TaskPtr} {x y s : SlotPtr}
  {type : CapType} {args : List Nat} {ok : Kernel → Turn × Option Answer → Prop}

/-! ### One call -/

theorem Step.creates (hstep : Step cfg k ⟨t, .createObject x type args⟩ (some (.slot (some y))) k')
    (h : KernelInv k) (hsafe : Safe k (⟨t, .createObject x type args⟩, some (.slot (some y)))) :
    CreatesObject k x type args y k' := by
  have hok : CreateOk (k.dispatch t) x type args := hsafe.1
  have hwp : wp (createObject t x type args) (.debug cfg)
      (CreateAnswers (k.dispatch t) t x type args) NoSwitch (k.dispatch t) :=
    wp_createObject (h.links.dispatch t) h.store.mem hok
  have hslot : wp (Answer.slot <$> createObject t x type args) (.debug cfg)
      (fun answer k' => ∀ y, answer = .slot (some y) →
        (type = .task → TaskDetached k t args) → CreatesObject k x type args y k')
      NoSwitch (k.dispatch t) := by
    rw [wp_map]
    refine wp_mono hwp (fun r k' hr y hy => ?_) fun _ _ he => he
    obtain rfl := Answer.slot.inj hy
    exact hr
  refine hstep.of_wp hslot y rfl fun htype => ?_
  exact hsafe.2 htype (by simp)

/-- A new object has the size that was asked for. -/
theorem NewObject.region {device : Bool} {base size alignment : Nat} {c : Capability}
    (h : NewObject device base size alignment c) : c.region = ⟨base, size⟩ := by
  cases h <;> rfl

theorem Trans.adopts {S S' : CapStore} (h : Trans S .adopt S') (s : SlotPtr) :
    Adopts (S.cap s) (S'.cap s) := by
  cases h with
  | adopt => exact adopts_adoptCaps

theorem Adopts.region {c c' : Capability} (h : Adopts c c') : c'.region = c.region := by
  rcases h with rfl | ⟨p, level, va, rfl, rfl⟩ <;> rfl

/-- What `create_object` did to the capabilities of memory. -/
theorem CreatesObject.carve (h : CreatesObject k x type args y k') :
    ∃ m size alignment base, k.cap x = .memory m ∧ k.cap y = .null ∧
      objectRequest m.device type args = some (size, alignment) ∧
      Carve m size alignment base ∧ (k'.cap y).region = ⟨base, size⟩ ∧
      k'.cap x = .memory (m.carve base size) ∧
      ∀ s n, s ≠ x → k.cap s = .memory n → k'.cap s = .memory n := by
  obtain ⟨-, m, size, alignment, S, hx, hrequest, hcreated, hrest⟩ := h
  obtain ⟨a, b, m', base, c, hx', hy, hl, hcarve, hobject, hS⟩ := hcreated
  obtain rfl := Capability.memory.inj (hx.symm.trans hx')
  have hy : k.cap y = .null := hy
  have hxy : x ≠ y := fun heq => by simp [heq, hy] at hx
  have hcap : S.cap = upd (upd k.cap y c) x (.memory (m.carve base size)) := by rw [hS]; rfl
  have hSx : S.cap x = .memory (m.carve base size) := by rw [hcap, upd_same]
  have hSy : S.cap y = c := by rw [hcap, upd_ne _ _ hxy.symm, upd_same]
  have hSs : ∀ s n, s ≠ x → k.cap s = .memory n → S.cap s = .memory n := by
    intro s n hsx hs
    have hsy : s ≠ y := fun heq => by simp [heq, hy] at hs
    rw [hcap, upd_ne _ _ hsx, upd_ne _ _ hsy, hs]
  refine ⟨m, size, alignment, base, hx, hy, hrequest, hcarve, ?_⟩
  rcases hrest with ⟨-, hstore⟩ | ⟨htype, hadopt⟩
  · have hcap' : k'.cap = S.cap := congrArg CapStore.cap hstore
    rw [hcap', hSy]
    exact ⟨hobject.region, hSx, hSs⟩
  · have hmemory : ∀ s n, S.cap s = .memory n → k'.cap s = .memory n := fun s n hs =>
      ((hadopt.adopts s).iff (by simp)).mpr hs
    refine ⟨?_, hmemory x _ hSx, fun s n hsx hs => hmemory s n (hSs s n hsx hs)⟩
    have hadopts : Adopts (S.cap y) (k'.cap y) := hadopt.adopts y
    rw [hadopts.region, hSy, hobject.region]

/-! ### A run of calls -/

/-- A range that was carved out of the memory capability in the slot `parent`. -/
structure Grant where
  parent : SlotPtr
  region : Region
deriving DecidableEq, Repr

/-- The range of a call that made an object. -/
def grantOf (call : Turn × Option Answer) (k' : Kernel) : List Grant :=
  match call.1.call, call.2 with
  | .createObject capSlot _ _, some (.slot (some slot)) => [⟨capSlot, (k'.cap slot).region⟩]
  | _, _ => []

/-- A run of `create_object` together with the ranges that it has handed out so far. -/
abbrev GrantRun (config : Config) (ok : Kernel → Turn × Option Answer → Prop) :
    Kernel × List Grant → List (Turn × Option Answer) → Kernel × List Grant → Prop :=
  Steps fun s call s' => ok s.1 call ∧ Step config s.1 call.1 call.2 s'.1 ∧
    s'.2 = s.2 ++ grantOf call s'.1

/-- The calls of such a run. -/
def IsCreate (call : Turn × Option Answer) : Prop :=
  ∃ capSlot type args, call.1.call = .createObject capSlot type args

/-- The calls that the allocator works for. -/
def SafeCreate (k : Kernel) (call : Turn × Option Answer) : Prop := IsCreate call ∧ Safe k call

/-- The object in `y` was carved out of the memory capability in `x`, as it was asked for, and
beside the ranges of `grants`. -/
def CarvedFrom (grants : List Grant) (k : Kernel) (x : SlotPtr) (type : CapType)
    (args : List Nat) (y : SlotPtr) (k' : Kernel) : Prop :=
  ∃ m m' size alignment, k.cap x = .memory m ∧ k'.cap x = .memory m' ∧
    objectRequest m.device type args = some (size, alignment) ∧
    (k'.cap y).region.size = size ∧
    m.physAddr ≤ (k'.cap y).region.start ∧
    (k'.cap y).region.start + size ≤ m.physAddr + m.size ∧
    (alignment = 0 ∨ alignment ∣ (k'.cap y).region.start) ∧
    (∀ g ∈ grants, g.parent = x → g.region.Apart (k'.cap y).region) ∧
    m'.physAddr = m.physAddr ∧ m'.size = m.size ∧
    m'.physAddr + m'.usedSize = (k'.cap y).region.start + size ∧ m'.usedSize ≤ m'.size

/-- All ranges that were handed out lie in the used part of their parents. -/
structure GrantInv (s : Kernel × List Grant) : Prop where
  inv : KernelInv s.1
  used : ∀ g ∈ s.2, ∃ m, s.1.cap g.parent = .memory m ∧
    g.region.start + g.region.size ≤ m.physAddr + m.usedSize

theorem CreatesObject.grants {grants : List Grant} (h : CreatesObject k x type args y k')
    (hused : GrantInv (k, grants)) :
    CarvedFrom grants k x type args y k' ∧ ∀ g ∈ grants ++ [⟨x, (k'.cap y).region⟩],
      ∃ m, k'.cap g.parent = .memory m ∧
        g.region.start + g.region.size ≤ m.physAddr + m.usedSize := by
  obtain ⟨m, size, alignment, base, hx, hy, hrequest, hcarve, hregion, hx', hother⟩ := h.carve
  have hlow := hcarve.low
  have hhigh := hcarve.high
  have hend : m.physAddr + (m.carve base size).usedSize = base + size := by
    show m.physAddr + (base + size - m.physAddr) = base + size
    omega
  have hbound : (m.carve base size).usedSize ≤ m.size := by
    show base + size - m.physAddr ≤ m.size
    omega
  refine ⟨⟨m, m.carve base size, size, alignment, hx, hx', hrequest, ?_⟩, fun g hg => ?_⟩
  · rw [hregion]
    refine ⟨rfl, Nat.le_trans (Nat.le_add_right _ _) hlow, hhigh, hcarve.aligned,
      fun g hg hparent => ?_, rfl, rfl, hend, hbound⟩
    obtain ⟨n, hn, hle⟩ := hused.used g hg
    rw [hparent] at hn
    obtain rfl := Capability.memory.inj (hx.symm.trans hn)
    exact Or.inl (Nat.le_trans hle hlow)
  · rcases List.mem_append.mp hg with hg | hg
    · obtain ⟨n, hn, hle⟩ := hused.used g hg
      by_cases hgx : g.parent = x
      · rw [hgx] at hn ⊢
        obtain rfl := Capability.memory.inj (hx.symm.trans hn)
        refine ⟨_, hx', Nat.le_trans hle (Nat.le_trans hlow ?_)⟩
        show base ≤ m.physAddr + (m.carve base size).usedSize
        omega
      · exact ⟨n, hother _ _ hgx hn, hle⟩
    · rw [List.mem_singleton.mp hg]
      refine ⟨_, hx', ?_⟩
      rw [hregion]
      exact Nat.le_of_eq hend.symm

/-- A call that made nothing changed no capability. -/
theorem Step.failed_create {call : Turn × Option Answer}
    (hstep : Step cfg k call.1 call.2 k') (h : KernelInv k) (hok : SafeCreate k call)
    (hfail : ∀ y, call.2 ≠ some (.slot (some y))) : k'.cap = k.cap := by
  obtain ⟨⟨x, type, args, hcall⟩, hsafe⟩ := hok
  obtain ⟨acts, hacts, hdoes⟩ := hstep.serves h.links h.store hsafe
  obtain ⟨⟨t, c⟩, answer⟩ := call
  obtain rfl : c = .createObject x type args := hcall
  have hnil : acts = [] := by
    match answer, hacts, hfail with
    | some (.slot none), hacts, _ => exact hacts
    | some (.slot (some y)), _, hfail => exact absurd rfl (hfail y)
    | some (.bool b), hacts, _ =>
      rcases hacts with ⟨hremoves, -⟩ | ⟨-, hacts⟩
      · exact absurd hremoves (by simp [Call.Removes])
      · exact hacts.trans (ite_self _)
    | none, hacts, _ => exact absurd hacts.1 (by simp [Call.Removes])
  subst hnil
  exact congrArg CapStore.cap hdoes.moves.of_nil

theorem GrantInv.step {s s' : Kernel × List Grant} {call : Turn × Option Answer}
    (h : GrantInv s) (hok : SafeCreate s.1 call) (hstep : Step cfg s.1 call.1 call.2 s'.1)
    (hgrants : s'.2 = s.2 ++ grantOf call s'.1) : GrantInv s' := by
  refine ⟨hstep.keeps h.inv hok.2, ?_⟩
  rw [hgrants]
  obtain ⟨x, type, args, hcall⟩ := hok.1
  by_cases hy : ∃ y, call.2 = some (.slot (some y))
  · obtain ⟨y, hy⟩ := hy
    obtain ⟨⟨t, c⟩, answer⟩ := call
    obtain rfl : c = .createObject x type args := hcall
    obtain rfl : answer = some (.slot (some y)) := hy
    exact ((hstep.creates h.inv hok.2).grants h).2
  · have hcap := hstep.failed_create h.inv hok fun y heq => hy ⟨y, heq⟩
    have hnone : grantOf call s'.1 = [] := by
      unfold grantOf
      split
      · rename_i y _ heq
        exact absurd ⟨_, heq⟩ hy
      · rfl
    rw [hnone, List.append_nil, hcap]
    exact h.used

theorem GrantRun.inv {s s' : Kernel × List Grant} {calls : List (Turn × Option Answer)}
    (hrun : GrantRun cfg SafeCreate s calls s') (h : GrantInv s) : GrantInv s' :=
  hrun.invariant (fun _ _ _ hs hstep => hs.step hstep.1 hstep.2.1 hstep.2.2) h

/-- In every run of `create_object` from a reachable state, each object lies in its parent
behind the ranges that were carved out before, and the parent's fill level follows. -/
theorem create_object_carves {grants : List Grant} {calls : List (Turn × Option Answer)}
    (h : Reaches cfg boot Safe k₀) (hrun : GrantRun cfg SafeCreate (k₀, []) calls (k, grants))
    (hstep : Step cfg k ⟨t, .createObject x type args⟩ (some (.slot (some y))) k')
    (hsafe : Safe k (⟨t, .createObject x type args⟩, some (.slot (some y)))) :
    CarvedFrom grants k x type args y k' := by
  have hinv : GrantInv (k, grants) :=
    hrun.inv ⟨h.kernelInv fun _ _ hok => hok, fun g hg => absurd hg (by simp)⟩
  exact ((hstep.creates hinv.inv hsafe).grants hinv).1

/-- A page carved out of the root task's memory. -/
theorem create_object_carves_page : ∃ k k', Reaches sampleConfig sampleBoot Safe k ∧
    CarvedFrom [] k (sampleSlot 6) .virtPage [1, 1, 1, 0] (sampleSlot 11) k' := by
  obtain ⟨k, answer, k', hreach, hstep, rfl, hsafe⟩ := @sample_step Safe _ []
    (sampleTurn (.createObject (sampleSlot 6) .virtPage [1, 1, 1, 0]))
    (fun k answer _ => answer = some (.slot (some (sampleSlot 11))) ∧
      Safe k (sampleTurn (.createObject (sampleSlot 6) .virtPage [1, 1, 1, 0]), answer)) _
    (by decide +kernel)
  exact ⟨k, k', hreach, create_object_carves hreach .nil hstep hsafe⟩

/-- The fill level may be rounded up beyond the end of the memory: the rest of it wraps around
to a large number, and the new page lies behind its parent. -/
theorem create_object_escapes :
    ¬ ∀ (cfg : Config) (boot : BootInfo) (k₀ k k' : Kernel) (grants : List Grant)
      (calls : List (Turn × Option Answer)) (t : TaskPtr) (x y : SlotPtr) (type : CapType)
      (args : List Nat), Reaches cfg boot (fun _ _ => True) k₀ →
      GrantRun cfg (fun _ call => IsCreate call) (k₀, []) calls (k, grants) →
      Step cfg k ⟨t, .createObject x type args⟩ (some (.slot (some y))) k' →
      CarvedFrom grants k x type args y k' := by
  intro hclaim
  obtain ⟨k, answer, k', hreach, hstep, rfl, hmemory, hpage⟩ := @sample_step
    (fun _ _ => True) _
    [sampleTurn (.createObject (sampleSlot 6) .mem [0x800, 0]),
      sampleTurn (.createObject (sampleSlot 11) .mem [0x400, 0])]
    (sampleTurn (.createObject (sampleSlot 11) .virtPage [1, 1, 1, 0]))
    (fun k answer k' => answer = some (.slot (some (sampleSlot 13))) ∧
      k.cap (sampleSlot 11) = .memory ⟨false, 0x800, 0x1000, 0x400⟩ ∧
      (k'.cap (sampleSlot 13)).region = ⟨0x2000, 0x1000⟩) _ (by decide +kernel)
  obtain ⟨m, m', size, alignment, hm, -, -, hsize, -, hinside, -⟩ :=
    hclaim _ _ _ _ _ _ _ _ _ _ _ _ hreach .nil hstep
  obtain rfl := Capability.memory.inj (hmemory.symm.trans hm)
  rw [hpage] at hsize hinside
  rw [← hsize] at hinside
  exact absurd hinside (by decide)

end Caprese
