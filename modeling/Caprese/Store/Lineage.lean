import Caprese.Store.Objects

/-!
# `Caprese.Store.Lineage`: where capabilities come from

No move forges a capability. Each capability of the state behind a run of moves goes back to one of
the state before it: to one for the same object with the same flags, or to memory that the object
was carved from (`Capability.Yields`, `Moves.yields`). A task or an endpoint that no capability
named before the run lies in memory that was free then (`Moves.denoted`).

The flags of a page are not among those that are kept: each mapping sets them. Identifiers are
counted up, and carry no authority.
-/

set_option autoImplicit false

namespace Caprese

open Lib

variable {S S' : CapStore} {act : Act} {acts : List Act} {c c' c'' : Capability} {s : SlotPtr}

/-! ### Free memory -/

/-- No move gives memory back, and so no run of moves does. -/
theorem Moves.free (hm : Moves S acts S') {addr : Nat} (h : S'.Free addr) : S.Free addr := by
  induction hm with
  | nil => exact h
  | snoc _ ht ih => exact ih (ht.free h)

/-! ### Lineage -/

/-- Who holds `c` can come to hold `c'`. -/
inductive Capability.Yields : Capability → Capability → Prop
  | task (cap : TaskCap) : Yields (.task cap) (.task cap)
  | endpoint (cap : EndpointCap) : Yields (.endpoint cap) (.endpoint cap)
  | memory {m m' : MemoryCap} (device : m'.device = m.device) (low : m.physAddr ≤ m'.physAddr)
      (high : m'.physAddr + m'.size ≤ m.physAddr + m.size) : Yields (.memory m) (.memory m')
  | pageTable {p p' : PageTableCap} (table : p'.table = p.table) :
      Yields (.pageTable p) (.pageTable p')
  | virtPage {v v' : VirtPageCap} (device : v'.device = v.device) (level : v'.level = v.level)
      (physAddr : v'.physAddr = v.physAddr) : Yields (.virtPage v) (.virtPage v')
  | capSpace {p p' : CapSpaceCap} (space : p'.space = p.space) : Yields (.capSpace p) (.capSpace p')
  /-- The object of `c` is carved from the memory. -/
  | carved {m : MemoryCap} {base size alignment : Nat} {c c' : Capability}
      (object : NewObject m.device base size alignment c) (low : m.physAddr ≤ base)
      (high : base + size ≤ m.physAddr + m.size) (yields : Yields c c') : Yields (.memory m) c'

/-- A capability that has a lineage: one that names an object, and is no identifier. -/
def Capability.Authority (c : Capability) : Prop := c.Names ∧ ∀ i, c ≠ .id i

namespace Capability

theorem Yields.refl (h : c.Authority) : c.Yields c := by
  cases c with
  | null => exact absurd rfl h.1.1
  | memory m => exact .memory rfl (Nat.le_refl _) (Nat.le_refl _)
  | task cap => exact .task cap
  | endpoint cap => exact .endpoint cap
  | pageTable p => exact .pageTable rfl
  | virtPage v => exact .virtPage rfl rfl rfl
  | capSpace p => exact .capSpace rfl
  | id i => exact absurd rfl (h.2 i)
  | zombie => exact absurd rfl h.1.2

theorem Yields.trans (h : c.Yields c') (h' : c'.Yields c'') : c.Yields c'' := by
  induction h with
  | task cap => exact h'
  | endpoint cap => exact h'
  | memory device low high =>
    cases h' with
    | memory device' low' high' =>
      exact .memory (device'.trans device) (Nat.le_trans low low') (Nat.le_trans high' high)
    | carved object low' high' yields =>
      exact .carved (device ▸ object) (Nat.le_trans low low') (Nat.le_trans high' high) yields
  | pageTable table =>
    cases h' with
    | pageTable table' => exact .pageTable (table'.trans table)
  | virtPage device level physAddr =>
    cases h' with
    | virtPage device' level' physAddr' =>
      exact .virtPage (device'.trans device) (level'.trans level) (physAddr'.trans physAddr)
  | capSpace space =>
    cases h' with
    | capSpace space' => exact .capSpace (space'.trans space)
  | carved object low high _ ih => exact .carved object low high (ih h')

/-- The tables of a new task. -/
theorem Yields.of_adopts (ha : Adopts c c') (h : c'.Authority) : c.Yields c' := by
  rcases ha with rfl | ⟨p, level, va, rfl, rfl⟩
  · exact .refl h
  · exact .pageTable rfl

end Capability

open Capability

/-- A new object is one to have authority over. -/
theorem NewObject.authority {device : Bool} {base size alignment : Nat}
    (h : NewObject device base size alignment c) : c.Authority := by
  cases h <;>
    exact ⟨⟨Capability.noConfusion, Capability.noConfusion⟩, fun _ => Capability.noConfusion⟩

/-- The step lemma: each capability goes back to one that was there. -/
theorem Trans.yields (ht : Trans S act S') (hs : (S'.cap s).Authority) :
    ∃ s', (S.cap s').Yields (S'.cap s) := by
  have hold : ∀ {q}, S'.cap s = S.cap q → ∃ s', (S.cap s').Yields (S'.cap s) := fun {q} heq =>
    ⟨q, heq ▸ .refl hs⟩
  -- A store to one slot, of a capability that goes back to what was in it.
  have hset : ∀ {y d}, S'.cap = upd S.cap y d → (d.Authority → ∃ s', (S.cap s').Yields d) →
      ∃ s', (S.cap s').Yields (S'.cap s) := by
    intro y d hcap hd
    by_cases hsy : s = y
    · rw [hcap, hsy, upd_same] at hs ⊢
      exact hd hs
    · exact hold (hcap ▸ upd_ne _ _ hsy)
  have hpage : ∀ {y : SlotPtr} {v v' : VirtPageCap}, S.cap y = .virtPage v →
      v'.device = v.device → v'.level = v.level → v'.physAddr = v.physAddr →
      ∃ s', (S.cap s').Yields (.virtPage v') := by
    intro y v v' hy hdevice hlevel haddr
    exact ⟨y, hy ▸ .virtPage hdevice hlevel haddr⟩
  cases ht with
  | @create x y a b m size alignment base c hx hy hl hcarve hobject =>
    change ∃ s', (S.cap s').Yields (upd (upd S.cap y c) x _ s)
    have hlow : m.physAddr ≤ base := Nat.le_trans (Nat.le_add_right _ _) hcarve.low
    by_cases hsx : s = x
    · rw [hsx, upd_same]
      exact ⟨x, hx ▸ .memory rfl (Nat.le_refl _) (Nat.le_refl _)⟩
    · by_cases hsy : s = y
      · rw [upd_ne _ _ hsx, hsy, upd_same]
        exact ⟨x, hx ▸ .carved hobject hlow hcarve.high (.refl hobject.authority)⟩
      · rw [upd_ne _ _ hsx, upd_ne _ _ hsy]
        have hcap : upd (upd S.cap y c) x (.memory (m.carve base size)) s = S.cap s := by
          rw [upd_ne _ _ hsx, upd_ne _ _ hsy]
        rw [← hcap]
        exact hold hcap
  | adopt => exact ⟨s, .of_adopts adopts_adoptCaps hs⟩
  | @copy x y a b hx hy hl =>
    by_cases hsx : s = x
    · subst hsx
      exact hold (q := s) (upd_same _ _ _)
    · by_cases hsy : s = y
      · exact hold (q := x) (hsy ▸ (upd_ne _ _ (hsy ▸ hsx)).trans (upd_same _ _ _))
      · exact hold (q := s) ((upd_ne _ _ hsx).trans (upd_ne _ _ hsy))
  | @delegate x y a b hx hy hl =>
    by_cases hsx : s = x
    · change (upd (upd S.cap y (S.cap x)) x .zombie s).Authority at hs
      rw [hsx, upd_same] at hs
      exact absurd rfl hs.1.2
    · by_cases hsy : s = y
      · exact hold (q := x) (hsy ▸ (upd_ne _ _ (hsy ▸ hsx)).trans (upd_same _ _ _))
      · exact hold (q := s) ((upd_ne _ _ hsx).trans (upd_ne _ _ hsy))
  | @move x y a b hx hy hl =>
    by_cases hsx : s = x
    · change (upd (upd S.cap y (S.cap x)) x .null s).Authority at hs
      rw [hsx, upd_same] at hs
      exact absurd rfl hs.1.1
    · by_cases hsy : s = y
      · exact hold (q := x) (hsy ▸ (upd_ne _ _ (hsy ▸ hsx)).trans (upd_same _ _ _))
      · exact hold (q := s) ((upd_ne _ _ hsx).trans (upd_ne _ _ hsy))
  | @newRoot y i => exact hset rfl fun h => absurd rfl (h.2 i)
  | @undelegate z e a m b hz hm he hl =>
    by_cases hsz : s = z
    · exact hold (q := e) (if_pos hsz)
    · by_cases hsm : s ∈ m ∨ s = e
      · change (if s = z then _ else if s ∈ m ∨ s = e then _ else _ : Capability).Authority at hs
        rw [if_neg hsz, if_pos hsm] at hs
        exact absurd rfl hs.1.1
      · exact hold (q := s) ((if_neg hsz).trans (if_neg hsm))
  | destroy => exact hset rfl fun h => absurd rfl h.1.1
  | drop => exact hset rfl fun h => absurd rfl h.1.1
  | selfDestroy => exact hold (q := s) rfl
  -- What maps an object stores to the slot of the object.
  | @mapTable x y => exact hset rfl fun _ => ⟨y, by rw [‹S.cap y = _›]; exact .pageTable rfl⟩
  | @unmapTable x y => exact hset rfl fun _ => ⟨y, by rw [‹S.cap y = _›]; exact .pageTable rfl⟩
  | mapPage hx hy => exact hset rfl fun _ => hpage hy rfl rfl rfl
  | unmapPage hx hy => exact hset rfl fun _ => hpage hy rfl rfl rfl
  | remapPage hx ho hy => exact hset rfl fun _ => hpage hy rfl rfl rfl
  | @attach x y => exact hset rfl fun _ => ⟨y, by rw [‹S.cap y = _›]; exact .capSpace rfl⟩
  | @extend x y => exact hset rfl fun _ => ⟨y, by rw [‹S.cap y = _›]; exact .pageTable rfl⟩

theorem Capability.Yields.authority (h : c.Yields c') : c.Authority := by
  cases h <;>
    exact ⟨⟨Capability.noConfusion, Capability.noConfusion⟩, fun _ => Capability.noConfusion⟩

/-- The run lemma. -/
theorem Moves.yields (hm : Moves S acts S') (hs : (S'.cap s).Authority) :
    ∃ s', (S.cap s').Yields (S'.cap s) := by
  induction hm generalizing s with
  | nil => exact ⟨s, .refl hs⟩
  | snoc _ ht ih =>
    obtain ⟨s₁, h₁⟩ := ht.yields hs
    obtain ⟨s₀, h₀⟩ := ih h₁.authority
    exact ⟨s₀, h₀.trans h₁⟩

/-! ### New objects -/

/-- A task or an endpoint that no slot denoted before lay in memory that was free. -/
theorem Moves.denoted (hm : Moves S acts S') {o : Object} (h : S'.Denoted o) :
    S.Denoted o ∨ S.Free o.addr := by
  induction hm with
  | nil => exact Or.inl h
  | snoc hsteps ht ih =>
    rcases ht.denoted h with hdenoted | hfree
    · exact ih hdenoted
    · exact Or.inr (Moves.free hsteps hfree)

/-! ### Root tables -/

/-- A task that is in use keeps its root table. -/
theorem Trans.root (ht : Trans S act S') {t : TaskPtr} {r : TablePtr} (h : S.root t = some r) :
    S'.root t = some r := by
  cases ht with
  | @adopt y capSpace root slot0 slot1 task p r' t0 t1 tables hy hp hr h0 h1 unmapped unused =>
    have hne : t ≠ task := by
      rintro rfl
      rw [unused] at h
      exact absurd h (by simp)
    exact (upd_ne _ _ hne).trans h
  | _ => exact h

theorem Moves.root (hm : Moves S acts S') {t : TaskPtr} {r : TablePtr} (h : S.root t = some r) :
    S'.root t = some r := by
  induction hm with
  | nil => exact h
  | snoc _ ht ih => exact ht.root ih

/-- No other move takes a task into use. -/
theorem Trans.root_eq (ht : Trans S act S') (hact : act ≠ .adopt) : S'.root = S.root := by
  cases ht with
  | adopt => exact absurd rfl hact
  | _ => rfl

theorem Moves.root_eq (hm : Moves S acts S') (hacts : ∀ act ∈ acts, act ≠ .adopt) :
    S'.root = S.root := by
  induction hm with
  | nil => rfl
  | snoc _ ht ih =>
    exact (ht.root_eq (hacts _ (by simp))).trans (ih fun act hin => hacts act (by simp [hin]))

end Caprese
