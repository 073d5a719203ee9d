import Caprese.Lib.Leads
import Caprese.Store.Boot

/-!
# `Caprese.Store.Lending`: what zombies have delegated

A slot becomes a zombie when its capability is delegated. The kernel keeps no record of what it
held. `remember` keeps one beside a run: the capability that a slot held before it last became a
zombie. Each move of the machine keeps the capability that is due to a zombie behind it, with
nothing but zombies in between (`Trans.lends`).
-/

set_option autoImplicit false

namespace Caprese

open Lib Prog Chains

variable {cfg : Config} {boot : BootInfo} {k k' : Kernel} {S S' : CapStore} {act : Act}
  {x y z s : SlotPtr} {a b : List SlotPtr} {c c' : Capability}
  {lent lent' : SlotPtr → Capability}

/-- A capability without what the kernel records in it while it is held. -/
def Capability.bare : Capability → Capability
  | .memory cap => .memory { cap with usedSize := 0 }
  | .pageTable cap => .pageTable { cap with
      mapped := false, level := 0, virtAddrBase := 0, parentTable := none }
  | .virtPage cap => .virtPage { cap with
      mapped := false, readable := false, writable := false, executable := false, index := 0,
      address := 0, parentTable := none }
  | .capSpace cap => .capSpace { cap with used := false }
  | c => c

@[simp] theorem Capability.bare_eq_zombie : c.bare = .zombie ↔ c = .zombie := by
  cases c <;> simp [Capability.bare]

@[simp] theorem Capability.bare_eq_null : c.bare = .null ↔ c = .null := by
  cases c <;> simp [Capability.bare]

@[simp] theorem Capability.bare_zombie : Capability.bare .zombie = .zombie := rfl

/-- The capability that each slot held before it last became a zombie, after a call. -/
def remember (cap cap' : SlotPtr → Capability) (lent : SlotPtr → Capability) : SlotPtr → Capability :=
  fun s => if cap' s = .zombie ∧ cap s ≠ .zombie then cap s else lent s

/-- Behind each zombie, over zombies only, comes the capability that it has lent. -/
def CapStore.Lends (S : CapStore) (lent : SlotPtr → Capability) : Prop :=
  Leads .zombie (fun s => (S.cap s).bare) (fun s => (lent s).bare) S.chains

/-! ### One move -/

theorem CapStore.Lends.of_bare (h : S.Lends lent) (hcap : ∀ s, (S'.cap s).bare = (S.cap s).bare)
    (hchains : S'.chains = S.chains) : S'.Lends lent := by
  unfold CapStore.Lends
  rw [hchains, funext hcap]
  exact h

/-- What was lent matters for the zombies only. -/
theorem CapStore.Lends.congr (h : S.Lends lent)
    (hlent : ∀ s, S.cap s = .zombie → lent' s = lent s) : S.Lends lent' :=
  h.due_congr fun s hs => congrArg _ (hlent s (Capability.bare_eq_zombie.mp hs))

theorem bare_adoptCap {cap : SlotPtr → Capability} {slot : SlotPtr} {level virtAddrBase : Nat} :
    (adoptCap cap slot level virtAddrBase s).bare = (cap s).bare := by
  unfold adoptCap
  cases hslot : cap slot with
  | pageTable table =>
    show (upd cap slot (.pageTable (table.adopt level virtAddrBase)) s).bare = _
    rw [upd_apply]
    split
    · rename_i heq
      rw [heq, hslot]
      rfl
    · rfl
  | _ => rfl

/-- A record in a capability. -/
theorem bare_setCap (hc : c.bare = (S.cap y).bare) : (upd S.cap y c s).bare = (S.cap s).bare := by
  rw [upd_apply]
  split
  · rename_i heq
    rw [heq, hc]
  · rfl

/-- The moves that only change what is recorded in capabilities that are held. -/
def Act.IsRecord : Act → Prop
  | .adopt | .attach | .extend | .map | .selfDestroy => True
  | _ => False

theorem Trans.records (ht : Trans S act S') (hact : act.IsRecord) :
    S'.chains = S.chains ∧ ∀ s, (S'.cap s).bare = (S.cap s).bare := by
  cases ht with
  | adopt =>
    refine ⟨rfl, fun s => ?_⟩
    show (adoptCaps S.cap _ _ _ s).bare = _
    unfold adoptCaps
    rw [bare_adoptCap, bare_adoptCap, bare_adoptCap]
  | selfDestroy => exact ⟨rfl, fun _ => rfl⟩
  | mapTable hx hy => exact ⟨rfl, fun _ => bare_setCap (by rw [hy]; rfl)⟩
  | unmapTable hx hy => exact ⟨rfl, fun _ => bare_setCap (by rw [hy]; rfl)⟩
  | mapPage hx hy => exact ⟨rfl, fun _ => bare_setCap (by rw [hy]; rfl)⟩
  | unmapPage hx hy => exact ⟨rfl, fun _ => bare_setCap (by rw [hy]; rfl)⟩
  | remapPage hx ho hy => exact ⟨rfl, fun _ => bare_setCap (by rw [hy]; rfl)⟩
  | attach hx hy => exact ⟨rfl, fun _ => bare_setCap (by rw [hy]; rfl)⟩
  | extend hx hy => exact ⟨rfl, fun _ => bare_setCap (by rw [hy]; rfl)⟩
  | _ => exact absurd hact id

/-- A capability goes into the free slot `y` behind `x`. -/
theorem CapStore.Lends.derive (h : S.Lends lent) (hS : StoreOk S) (hx : S.cap x ≠ .zombie)
    (hy : S.cap y = .null) (hl : a ++ x :: b ∈ S.chains) (hc : c ≠ .zombie)
    (hfirst : (c'.bare = (S.cap x).bare) ∨ c' = .zombie ∧ c = S.cap x ∧ lent x = S.cap x) :
    (S.derive x y a b c c').Lends lent := by
  have hxy : x ≠ y := fun heq => hS.not_null hl (by simp) (heq ▸ hy)
  have hl' : a ++ [x] ++ b ∈ S.chains := by simpa using hl
  have hgx : (upd (upd S.cap y c) x c' x).bare = c'.bare := by rw [upd_same]
  have hgy : (upd (upd S.cap y c) x c' y).bare = c.bare := by
    rw [upd_ne _ _ (Ne.symm hxy), upd_same]
  have hlist : a ++ x :: y :: b = a ++ [x, y] ++ b := by simp
  unfold CapStore.Lends CapStore.derive
  rw [hlist]
  refine h.splice hS.valid hl' (by simp) (fun z hz hz' => ?_) (fun z hz => ?_) (fun p _ _ => ?_)
    fun l z l' hpart hz => ?_
  · simp only [List.mem_cons, List.not_mem_nil, or_false, not_or] at hz'
    show (upd (upd S.cap y c) x c' z).bare = _
    rw [upd_ne _ _ hz'.1, upd_ne _ _ hz'.2]
  · rcases List.mem_pair.mp hz with rfl | rfl
    · exact Or.inl (by simp)
    · exact Or.inr (hS.fresh hy)
  · -- What follows begins with the capability of `x`, in `x` or in `y`.
    show behind _ _ (x :: y :: b) = behind _ _ (x :: b)
    rw [behind_cons_value (f := fun s => (S.cap s).bare) (by simpa using hx)]
    rcases hfirst with hsame | ⟨rfl, rfl, -⟩
    · have hne : c'.bare ≠ .zombie := by
        rw [hsame]
        simpa using hx
      rw [behind_cons_value (by rwa [hgx]), hgx, hsame]
    · rw [behind_cons_hole (by rw [hgx]; rfl), behind_cons_value (by rw [hgy]; simpa using hc), hgy]
  · -- The only new zombie is `x`, and only if it has delegated to `y`.
    have hpart : l ++ z :: l' = [x] ++ [y] := hpart.symm
    rcases split_append hpart with ⟨r, hr, rfl⟩ | ⟨r, hr⟩
    · obtain ⟨rfl, rfl, rfl⟩ : l = [] ∧ x = z ∧ r = [] := by
        cases l <;> simp_all
      rw [hgx, Capability.bare_eq_zombie] at hz
      rcases hfirst with hsame | ⟨-, rfl, hlent⟩
      · rw [hz] at hsame
        exact absurd (Capability.bare_eq_zombie.mp hsame.symm) hx
      · rw [List.nil_append, List.singleton_append,
          behind_cons_value (by rw [hgy]; simpa using hc), hgy, hlent]
    · obtain ⟨rfl, rfl, rfl⟩ : r = [] ∧ y = z ∧ l' = [] := by
        cases r <;> simp_all
      rw [hgy, Capability.bare_eq_zombie] at hz
      exact absurd hz hc

/-- A slot that no zombie leads to is emptied. -/
theorem CapStore.Lends.clear (h : S.Lends lent) (hS : StoreOk S) (hl : a ++ s :: b ∈ S.chains)
    (hp : ∀ p, a.getLast? = some p → S.cap p ≠ .zombie) : (S.clear s a b).Lends lent := by
  have hl' : a ++ [s] ++ b ∈ S.chains := by simpa using hl
  unfold CapStore.Lends CapStore.clear
  have hsplice : Leads .zombie (fun w => (upd S.cap s .null w).bare) (fun w => (lent w).bare)
      (rewrite S.chains s (a ++ [] ++ b)) := by
    refine h.splice hS.valid hl' (by simp) (fun z hz _ => ?_) (by simp) (fun p hlast hz => ?_)
      fun l z l' hpart _ => absurd hpart (by simp)
    · simp only [List.mem_singleton] at hz
      rw [upd_ne _ _ hz]
    · exact absurd (Capability.bare_eq_zombie.mp hz) (hp p hlast)
  simpa using hsplice

/-- A capability goes into the free slot `y`, which takes the place of `x`. -/
theorem CapStore.Lends.move (h : S.Lends lent) (hS : StoreOk S) (hx : S.cap x ≠ .zombie)
    (hy : S.cap y = .null) (hl : a ++ x :: b ∈ S.chains)
    (hcap : S'.cap = upd (upd S.cap y (S.cap x)) x .null)
    (hchains : S'.chains = rewrite S.chains x (a ++ y :: b)) : S'.Lends lent := by
  have hxy : x ≠ y := fun heq => hS.not_null hl (by simp) (heq ▸ hy)
  have hl' : a ++ [x] ++ b ∈ S.chains := by simpa using hl
  have hgy : (upd (upd S.cap y (S.cap x)) x .null y).bare = (S.cap x).bare := by
    rw [upd_ne _ _ (Ne.symm hxy), upd_same]
  have hlist : a ++ y :: b = a ++ [y] ++ b := by simp
  unfold CapStore.Lends
  rw [hcap, hchains, hlist]
  refine h.splice hS.valid hl' (by simp) (fun z hz hz' => ?_) (fun z hz => ?_) (fun p _ _ => ?_)
    fun l z l' hpart hz => ?_
  · rw [List.mem_singleton] at hz hz'
    rw [upd_ne _ _ hz, upd_ne _ _ hz']
  · rw [List.mem_singleton.mp hz]
    exact Or.inr (hS.fresh hy)
  · show behind _ _ (y :: b) = behind _ _ (x :: b)
    rw [behind_cons_value (by rw [hgy]; simpa using hx), hgy,
      behind_cons_value (f := fun s => (S.cap s).bare) (by simpa using hx)]
  · obtain ⟨rfl, rfl, rfl⟩ : l = [] ∧ y = z ∧ l' = [] := by
      cases l <;> simp_all
    rw [hgy, Capability.bare_eq_zombie] at hz
    exact absurd hz hx

/-- A zombie gets the capability back. What leads to it led to the holder before. -/
theorem CapStore.Lends.undelegate {e : SlotPtr} {m : List SlotPtr} (h : S.Lends lent)
    (hS : StoreOk S) (hz : S.cap z = .zombie) (hm : ∀ s ∈ m, S.cap s = .zombie)
    (he : (S.cap e).Names) (hl : a ++ z :: (m ++ e :: b) ∈ S.chains)
    (hcap : ∀ s, s ≠ z → s ∉ m → s ≠ e → S'.cap s = S.cap s) (hback : S'.cap z = S.cap e)
    (hchains : S'.chains = rewrite S.chains z (a ++ z :: b)) : S'.Lends lent := by
  have hl' : a ++ z :: (m ++ [e]) ++ b ∈ S.chains := by simpa using hl
  have hlist : a ++ z :: b = a ++ [z] ++ b := by simp
  unfold CapStore.Lends
  rw [hchains, hlist]
  refine h.splice hS.valid hl' (by simp) (fun w hw _ => ?_) (fun w hw => Or.inl ?_)
    (fun p _ _ => ?_) fun l w l' hpart hw => ?_
  · simp only [List.mem_cons, List.mem_append, List.not_mem_nil, or_false, not_or] at hw
    rw [hcap w hw.1 hw.2.1 hw.2.2]
  · simp [List.mem_singleton.mp hw]
  · have hnone : behind .zombie (fun s => (S.cap s).bare) m = none :=
      behind_eq_none.mpr fun s hs => by rw [hm s hs]; rfl
    have hlist : z :: (m ++ [e]) ++ b = z :: m ++ e :: b := by simp
    rw [hlist, List.singleton_append, behind_cons_value (by rw [hback]; simpa using he.2), hback,
      behind_append, behind_cons_hole (f := fun s => (S.cap s).bare) (by rw [hz]; rfl), hnone,
      Option.none_or, behind_cons_value (f := fun s => (S.cap s).bare) (by simpa using he.2)]
  · obtain ⟨rfl, rfl, rfl⟩ : l = [] ∧ z = w ∧ l' = [] := by
      cases l <;> simp_all
    rw [hback, Capability.bare_eq_zombie] at hw
    exact absurd hw he.2

/-- Each move keeps what is due to the zombies behind them. A slot that becomes a zombie has to
be on record. -/
theorem Trans.lends (ht : Trans S act S') (hS : StoreOk S) (h : S.Lends lent)
    (hlent : ∀ s, S'.cap s = .zombie → S.cap s ≠ .zombie → lent s = S.cap s) :
    S'.Lends lent := by
  by_cases hact : act.IsRecord
  · obtain ⟨hchains, hcap⟩ := ht.records hact
    exact h.of_bare hcap hchains
  cases ht with
  | @create x y a b m size alignment base c hx hy hl hcarve hobject =>
    have hc : c ≠ .zombie := by
      cases hobject <;> simp [makeTaskCap, makeEndpointCap, makeCapSpaceCap]
    have hbare : (Capability.memory (m.carve base size)).bare = (S.cap x).bare := by
      rw [hx]
      rfl
    exact (h.derive hS (by simp [hx]) hy hl hc (Or.inl hbare) :
      (S.derive x y a b c _).Lends lent)
  | @copy x y a b hx hy hl =>
    have hc : S.cap x ≠ .zombie := fun heq => by simp [heq, Capability.Linked] at hx
    exact h.derive hS hc hy hl hc (Or.inl rfl)
  | @delegate x y a b hx hy hl =>
    have hlentx : lent x = S.cap x := hlent x (upd_same _ _ _) hx.2
    exact h.derive hS hx.2 hy hl hx.2 (Or.inr ⟨rfl, rfl, hlentx⟩)
  | @move x y a b hx hy hl => exact h.move hS hx.2 hy hl rfl rfl
  | @newRoot y i hy =>
    refine h.single (fun hz => ?_) fun z hz => ?_
    · have hz : (upd S.cap y (.id i) y).bare = .zombie := hz
      rw [upd_same] at hz
      exact absurd hz (by simp)
    · show (upd S.cap y (.id i) z).bare = _
      rw [upd_ne _ _ hz]
  | @undelegate z e a m b hz hm he hl =>
    refine h.undelegate hS hz hm he hl (fun s hsz hsm hse => ?_) (if_pos rfl) rfl
    show (if s = z then S.cap e else if s ∈ m ∨ s = e then .null else S.cap s) = S.cap s
    rw [if_neg hsz, if_neg (by simp [hsm, hse])]
  | destroy hs hl hp => exact h.clear hS hl hp
  | drop hs hl hp => exact h.clear hS hl hp
  | _ => exact absurd trivial hact

/-- Only a delegation makes a zombie. -/
theorem Trans.zombie_of (ht : Trans S act S') (hact : ∀ x y, act ≠ .delegate x y)
    (hs : S'.cap s = .zombie) : S.cap s = .zombie := by
  -- A slot becomes a zombie only where the move writes one.
  have hupd : ∀ {y c}, c ≠ .zombie → upd S.cap y c s = .zombie → S.cap s = .zombie := by
    intro y c hc hs
    rw [upd_apply] at hs
    split at hs
    · exact absurd hs hc
    · exact hs
  have hupd₂ : ∀ {x y c c'}, c ≠ .zombie → c' ≠ .zombie → upd (upd S.cap y c) x c' s = .zombie →
      S.cap s = .zombie := by
    intro x y c c' hc hc' hs
    rw [upd_apply] at hs
    split at hs
    · exact absurd hs hc'
    · exact hupd hc hs
  by_cases hrecord : act.IsRecord
  · rw [← Capability.bare_eq_zombie, (ht.records hrecord).2 s] at hs
    exact Capability.bare_eq_zombie.mp hs
  cases ht with
  | @create x y a b m size alignment base c hx hy hl hcarve hobject =>
    have hc : c ≠ .zombie := by
      cases hobject <;> simp [makeTaskCap, makeEndpointCap, makeCapSpaceCap]
    exact hupd₂ hc (by simp) hs
  | @copy x y a b hx hy hl =>
    have hc : S.cap x ≠ .zombie := fun heq => by simp [heq, Capability.Linked] at hx
    exact hupd₂ hc hc hs
  | @delegate x y a b hx hy hl => exact absurd rfl (hact x y)
  | move hx hy hl => exact hupd₂ hx.2 (by simp) hs
  | newRoot hy => exact hupd (by simp) hs
  | @undelegate z e a m b hz hm he hl =>
    have hs : (if s = z then S.cap e else if s ∈ m ∨ s = e then .null else S.cap s)
      = .zombie := hs
    split at hs
    · exact absurd hs he.2
    · split at hs
      · exact absurd hs (by simp)
      · exact hs
  | destroy => exact hupd (by simp) hs
  | drop => exact hupd (by simp) hs
  | _ => exact absurd trivial hrecord

/-! ### Calls -/

theorem lends_moves {acts : List Act} (hm : Moves S acts S') (hS : StoreOk S) (h : S.Lends lent)
    (hacts : ∀ act ∈ acts, ∀ x y, act ≠ .delegate x y) :
    S'.Lends lent ∧ ∀ s, S'.cap s = .zombie → S.cap s = .zombie := by
  refine (hm.invariant_of (P := fun act => ∀ x y, act ≠ .delegate x y)
    (I := fun T => StoreOk T ∧ T.Lends lent ∧ ∀ s, T.cap s = .zombie → S.cap s = .zombie)
    (fun T act T' hact hT ht => ?_) hacts ⟨hS, h, fun _ hs => hs⟩).2
  obtain ⟨hT, hlends, hzombie⟩ := hT
  refine ⟨hT.trans ht, ht.lends hT hlends fun s hs hne => ?_, fun s hs => ?_⟩
  · exact absurd (ht.zombie_of hact hs) hne
  · exact hzombie s (ht.zombie_of hact hs)

/-- A call delegates one capability, and does nothing else, or none. -/
theorem makes_delegates {cap : SlotPtr → Capability} {call : Call} {answer : Option Answer}
    {acts : List Act} (h : call.Makes cap answer acts) :
    (∃ x y, acts = [.delegate x y]) ∨ ∀ act ∈ acts, ∀ x y, act ≠ .delegate x y := by
  have hremoval : ∀ {act : Act}, act.IsRemoval ∨ act = .selfDestroy → ∀ x y,
      act ≠ .delegate x y := by
    rintro act (hact | rfl) x y hdelegate
    · rw [hdelegate] at hact
      exact hact
    · exact absurd hdelegate (by simp)
  match answer, h with
  | none, h => exact Or.inr fun act hact => hremoval (h.2 act hact)
  | some (.slot none), h =>
    obtain rfl : acts = [] := h
    exact Or.inr (by simp)
  -- Calls that answer with a slot: each makes the moves of its own list.
  | some (.slot (some y)), h =>
    obtain rfl : acts = call.slotActs cap y := h
    cases call with
    | delegateCap t x => exact Or.inl ⟨x, y, rfl⟩
    | createObject x type args =>
      refine Or.inr fun act hact => ?_
      by_cases htype : type = .task
      · have hact : act = .create x y ∨ act = .adopt := by
          simpa [Call.slotActs, htype] using hact
        rcases hact with rfl | rfl <;> simp
      · obtain rfl : act = .create x y := by simpa [Call.slotActs, htype] using hact
        simp
    | copyCap x =>
      refine Or.inr fun act hact => ?_
      obtain rfl := List.mem_singleton.mp hact
      unfold copyAct
      split <;> simp
    | createId | transferCap =>
      refine Or.inr fun act hact => ?_
      obtain rfl := List.mem_singleton.mp hact
      simp
    | _ => exact Or.inr fun act hact => absurd hact List.not_mem_nil
  -- Calls that answer yes or no: the removals, or the moves on records.
  | some (.bool b), h =>
    rcases h with ⟨-, hacts⟩ | ⟨-, rfl⟩
    · exact Or.inr fun act hact => hremoval (Or.inl (hacts act hact))
    · refine Or.inr fun act hact => ?_
      cases b with
      | false => exact absurd hact List.not_mem_nil
      | true =>
        cases call with
        | insertCapSpace | extendCapSpace | mapPageTable | unmapPageTable | mapVirtPage
          | unmapVirtPage | remapVirtPage =>
          obtain rfl := List.mem_singleton.mp hact
          simp
        | _ => exact absurd hact List.not_mem_nil

variable {turn : Turn} {answer : Option Answer} {ok : Kernel → Turn × Option Answer → Prop}

theorem Step.lends (hstep : Step cfg k turn answer k') (hk : KernelInv k)
    (hsafe : Safe k (turn, answer)) (h : k.store.Lends lent) :
    k'.store.Lends (remember k.cap k'.cap lent) := by
  obtain ⟨acts, hmakes, hdoes⟩ := hstep.serves hk.links hk.store hsafe
  have hkept : ∀ s, k.cap s = .zombie → remember k.cap k'.cap lent s = lent s :=
    fun s hs => if_neg fun hnew => hnew.2 hs
  rcases makes_delegates hmakes with ⟨x, y, rfl⟩ | hacts
  · have ht : Trans k.store (.delegate x y) k'.store := hdoes.moves.of_single
    exact ht.lends hk.store.ok (h.congr hkept) fun s hs hne => if_pos ⟨hs, hne⟩
  · obtain ⟨hlends, hzombie⟩ := lends_moves hdoes.moves hk.store.ok h hacts
    exact hlends.congr fun s hs => hkept s (hzombie s hs)

/-! ### Runs -/

/-- A run with the record of what each slot held before it last became a zombie. -/
abbrev LendingRun (config : Config) (ok : Kernel → Turn × Option Answer → Prop) :
    Kernel × (SlotPtr → Capability) → List (Turn × Option Answer) →
      Kernel × (SlotPtr → Capability) → Prop :=
  Steps fun s call s' => ok s.1 call ∧ Step config s.1 call.1 call.2 s'.1 ∧
    s'.2 = remember s.1.cap s'.1.cap s.2

/-- A run from the first state, with the record beside it. Nothing is a zombie at first, so what
the record begins with is of no matter. -/
structure ReachesLending (config : Config) (boot : BootInfo)
    (ok : Kernel → Turn × Option Answer → Prop) (k : Kernel) (lent : SlotPtr → Capability) :
    Prop where
  wellFormed : boot.WellFormed
  run : ∃ k₀ lent₀ calls, setup boot (.debug config) .powerOn = .ok () k₀ ∧
    LendingRun config ok (k₀, lent₀) calls (k, lent)

/-- The record goes with every run. -/
theorem Reaches.lending (h : Reaches cfg boot ok k) (lent₀ : SlotPtr → Capability) :
    ∃ lent, ReachesLending cfg boot ok k lent := by
  obtain ⟨hwf, k₀, calls, hsetup, hrun⟩ := h
  have hlending : ∃ lent, LendingRun cfg ok (k₀, lent₀) calls (k, lent) := by
    clear hsetup
    induction hrun with
    | nil => exact ⟨lent₀, .nil⟩
    | @snoc acts call k k' _ hstep ih =>
      obtain ⟨lent, hlending⟩ := ih
      exact ⟨remember k.cap k'.cap lent, .snoc hlending ⟨hstep.1, hstep.2, rfl⟩⟩
  obtain ⟨lent, hlending⟩ := hlending
  exact ⟨lent, hwf, k₀, lent₀, calls, hsetup, hlending⟩

theorem Booted.lends (h : Booted boot k) (hwf : boot.WellFormed) : k.store.Lends lent := by
  intro a x b hl hx
  obtain ⟨s, hs⟩ := h.chain_single hl
  obtain ⟨rfl, rfl, rfl⟩ : a = [] ∧ x = s ∧ b = [] := by
    cases a <;> simp_all
  have htail := (h.kernelInv hwf).store.tail [x] hl x rfl
  exact absurd (Capability.bare_eq_zombie.mp hx) htail

theorem ReachesLending.lends (h : ReachesLending cfg boot ok k lent)
    (hsafe : ∀ k call, ok k call → Safe k call) : KernelInv k ∧ k.store.Lends lent := by
  obtain ⟨k₀, lent₀, calls, hsetup, hrun⟩ := h.run
  have hbooted : Booted boot k₀ := wp_ok (wp_setup h.wellFormed) hsetup
  refine hrun.invariant (I := fun s => KernelInv s.1 ∧ s.1.store.Lends s.2)
    (fun s call s' hs hstep => ?_) ⟨hbooted.kernelInv h.wellFormed, hbooted.lends h.wellFormed⟩
  obtain ⟨hok, hstep, hrecord⟩ := hstep
  refine ⟨hstep.keeps hs.1 (hsafe _ _ hok), ?_⟩
  rw [hrecord]
  exact hstep.lends hs.1 (hsafe _ _ hok) hs.2

end Caprese
