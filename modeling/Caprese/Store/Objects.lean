import Caprese.Lib.Grouped
import Caprese.Store.Shape

/-!
# `Caprese.Store.Objects`: the slots of an object stand together

There is no count of the slots that denote a task or an endpoint. Whether a slot is the last
one of its object is read off its neighbours on the derivation list, where a zombie counts for
the capability that it leads to. `Together S` is what makes this right: all slots of one object
are on one list, and on it nothing stands between them but zombies that lead to them. Every
move keeps it (`Together.trans`), so a move destroys an object when, and only when, it clears
the last slot of it (`Trans.destroys`).
-/

set_option autoImplicit false

namespace Caprese

open Lib Chains

/-- The objects that several slots can denote, and that have a destructor. -/
inductive Object where
  | task (task : TaskPtr)
  | endpoint (endpoint : EndpointPtr)
deriving DecidableEq, Repr

/-- The object that a capability denotes. -/
def Capability.object : Capability → Option Object
  | .task cap => some (.task cap.task)
  | .endpoint cap => some (.endpoint cap.endpoint)
  | _ => none

/-- The run of the destructor. -/
def Object.destroyed : Object → Event
  | .task t => .destroyTask t
  | .endpoint e => .destroyEndpoint e

/-- Where the object lies. -/
def Object.addr : Object → PhysAddr
  | .task t => t
  | .endpoint e => e

/-- The objects that the slots of a list lead to, where `next` is what follows the list. A
zombie leads to what the slot behind it leads to. -/
def leadsFrom (cap : SlotPtr → Capability) (next : Option Object) :
    List SlotPtr → List (Option Object)
  | [] => []
  | s :: l =>
    (if cap s = .zombie then (leadsFrom cap next l).headD next else (cap s).object) ::
      leadsFrom cap next l

/-- The objects that the slots of a derivation list lead to. -/
abbrev leads (cap : SlotPtr → Capability) (l : List SlotPtr) : List (Option Object) :=
  leadsFrom cap none l

/-- The slots of one object are on one list, next to each other. -/
structure Together (S : CapStore) : Prop where
  grouped : ∀ l ∈ S.chains, Grouped (leads S.cap l)
  one : ∀ o s s', (S.cap s).object = some o → (S.cap s').object = some o →
    ∃ l ∈ S.chains, s ∈ l ∧ s' ∈ l

variable {S S' : CapStore} {act : Act} {x y z s s' e : SlotPtr} {a b l m : List SlotPtr}
  {c c' : Capability} {cap cap' : SlotPtr → Capability} {next : Option Object} {o : Object}

/-! ### What a list leads to -/

theorem leadsFrom_append : leadsFrom cap next (a ++ b) =
    leadsFrom cap ((leadsFrom cap next b).headD next) a ++ leadsFrom cap next b := by
  induction a with
  | nil => rfl
  | cons s a ih =>
    have hhead : (leadsFrom cap ((leadsFrom cap next b).headD next) a
          ++ leadsFrom cap next b).headD next
        = (leadsFrom cap ((leadsFrom cap next b).headD next) a).headD
            ((leadsFrom cap next b).headD next) := by
      cases a with
      | nil => rfl
      | cons => rfl
    rw [List.cons_append, leadsFrom, ih, hhead]
    rfl

theorem leadsFrom_congr (h : ∀ s ∈ l, (cap' s = .zombie ↔ cap s = .zombie) ∧
    (cap' s).object = (cap s).object) : leadsFrom cap' next l = leadsFrom cap next l := by
  induction l with
  | nil => rfl
  | cons s l ih =>
    have htail := ih fun s' hs' => h s' (List.mem_cons_of_mem s hs')
    obtain ⟨hzombie, hobject⟩ := h s List.mem_cons_self
    unfold leadsFrom
    rw [htail, hobject]
    simp only [hzombie]

/-- What follows a capability that is no zombie is all the same to those in front. -/
theorem leadsFrom_last (h : ∀ p, a.getLast? = some p → cap p ≠ .zombie)
    (next' : Option Object) : leadsFrom cap next a = leadsFrom cap next' a := by
  induction a with
  | nil => rfl
  | cons s a ih =>
    cases a with
    | nil =>
      unfold leadsFrom
      rw [if_neg (h s rfl), if_neg (h s rfl)]
      rfl
    | cons s' a =>
      have htail := ih fun p hp => h p (by rw [List.getLast?_cons_cons]; exact hp)
      unfold leadsFrom
      rw [htail]
      rfl

theorem leads_cons (h : cap s ≠ .zombie) :
    leads cap (s :: l) = (cap s).object :: leads cap l := by
  unfold leads
  rw [leadsFrom, if_neg h]

theorem leads_zombie (h : cap s = .zombie) :
    leads cap (s :: l) = (leads cap l).headD none :: leads cap l := by
  unfold leads
  rw [leadsFrom, if_pos h]

theorem leads_append :
    leads cap (a ++ b) = leadsFrom cap ((leads cap b).headD none) a ++ leads cap b :=
  leadsFrom_append

/-- Zombies in a row lead to what is behind them. -/
theorem leadsFrom_zombies (h : ∀ s ∈ m, cap s = .zombie) :
    leadsFrom cap next m = List.replicate m.length next := by
  induction m with
  | nil => rfl
  | cons s m ih =>
    have htail := ih fun s' hs' => h s' (List.mem_cons_of_mem s hs')
    rw [leadsFrom, if_pos (h s List.mem_cons_self), htail]
    cases m with
    | nil => rfl
    | cons => rfl

theorem mem_leads : some o ∈ leads cap l → ∃ s ∈ l, (cap s).object = some o := by
  intro ho
  induction l with
  | nil => exact absurd ho List.not_mem_nil
  | cons s l ih =>
    have hrest : some o ∈ leads cap l → ∃ s' ∈ s :: l, (cap s').object = some o := by
      intro ho
      obtain ⟨s', hs', hobject⟩ := ih ho
      exact ⟨s', List.mem_cons_of_mem s hs', hobject⟩
    rcases List.mem_cons.mp ho with ho | ho
    · split at ho
      · refine hrest ?_
        cases hl : leadsFrom cap none l with
        | nil =>
          rw [hl] at ho
          exact absurd ho (by simp)
        | cons d ds =>
          rw [hl] at ho
          show some o ∈ leadsFrom cap none l
          rw [hl, ho]
          exact List.mem_cons_self
      · exact ⟨s, List.mem_cons_self, ho.symm⟩
    · exact hrest ho

theorem object_zombie (h : (cap s).object = some o) : cap s ≠ .zombie := by
  intro heq
  rw [heq] at h
  exact absurd h (by simp [Capability.object])

theorem object_null (h : (cap s).object = some o) : cap s ≠ .null := by
  intro heq
  rw [heq] at h
  exact absurd h (by simp [Capability.object])

theorem mem_leadsFrom_of (hs : s ∈ l) (h : (cap s).object = some o) :
    some o ∈ leadsFrom cap next l := by
  obtain ⟨a, b, rfl⟩ := List.append_of_mem hs
  rw [leadsFrom_append, leadsFrom, if_neg (object_zombie h), h]
  simp

theorem mem_leads_of (hs : s ∈ l) (h : (cap s).object = some o) : some o ∈ leads cap l :=
  mem_leadsFrom_of hs h

theorem sameObject_iff (hc : c.Linked) : sameObject c' c = true ↔ c'.object = c.object := by
  cases c <;> cases c' <;> simp_all [Capability.Linked, sameObject, Capability.object]

theorem linked_of_object (h : c.object = some o) : c.Linked := by
  cases c <;> simp_all [Capability.object, Capability.Linked]

/-! ### One list changes -/

/-- The back part of a list changes. The front part leads where it led, if it ends in no zombie
or the back part begins with the same object. -/
theorem leads_splice (ha : ∀ s ∈ a, cap' s = cap s)
    (hnext : (leads cap' l).headD none = (leads cap b).headD none ∨
      ∀ p, a.getLast? = some p → cap p ≠ .zombie) :
    ∃ p, leads cap (a ++ b) = p ++ leads cap b ∧ leads cap' (a ++ l) = p ++ leads cap' l := by
  refine ⟨leadsFrom cap ((leads cap b).headD none) a, leadsFrom_append, ?_⟩
  have hsame : leadsFrom cap' ((leads cap' l).headD none) a
      = leadsFrom cap ((leads cap b).headD none) a := by
    have hcap : leadsFrom cap' ((leads cap' l).headD none) a
        = leadsFrom cap ((leads cap' l).headD none) a := by
      refine leadsFrom_congr fun s hs => ?_
      rw [ha s hs]
      exact ⟨Iff.rfl, rfl⟩
    rw [hcap]
    rcases hnext with hnext | hnext
    · rw [hnext]
    · exact leadsFrom_last hnext _
  rw [← hsame]
  exact leadsFrom_append

/-- One list is exchanged, and no other slot is touched. -/
theorem Together.rewrite (h : Together S) (hS : StoreOk S) (hl : a ++ x :: b ∈ S.chains)
    {new : List SlotPtr} (hchains : S'.chains = Chains.rewrite S.chains x new)
    (hnew : ∀ z ∈ new, z ∈ a ++ x :: b ∨ S.cap z = .null)
    (hcap : ∀ z, z ∉ a ++ x :: b → z ∉ new → S'.cap z = S.cap z)
    (hgroup : Grouped (leads S'.cap new))
    (hobject : ∀ z o, (S'.cap z).object = some o → z ∈ a ++ x :: b ∨ z ∈ new → z ∈ new ∧
      ((∃ r ∈ a ++ x :: b, (S.cap r).object = some o) ∨ ∀ r, (S.cap r).object ≠ some o)) :
    Together S' := by
  have hold : ∀ l ∈ S.chains, x ∉ l → ∀ z ∈ l, z ∉ a ++ x :: b := by
    intro l hl' hx z hz hzl
    have heq : l = a ++ x :: b := hS.valid.unique l hl' _ hl z hz hzl
    exact hx (by rw [heq]; simp)
  constructor
  · intro l hl'
    rw [hchains] at hl'
    rcases hl' with ⟨hl', hx, hdisj⟩ | ⟨rfl, -⟩
    · have hsame : leads S'.cap l = leads S.cap l := by
        refine leadsFrom_congr fun s hs => ?_
        rw [hcap s (hold l hl' hx s hs) fun hsn => hdisj s hsn hs]
        exact ⟨Iff.rfl, rfl⟩
      rw [hsame]
      exact h.grouped l hl'
    · exact hgroup
  · intro o s s' hs hs'
    have hkeep : ∀ z, (S'.cap z).object = some o → z ∉ new →
        z ∉ a ++ x :: b ∧ (S.cap z).object = some o := by
      intro z hz hzn
      have hzl : z ∉ a ++ x :: b := fun hzl => hzn (hobject z o hz (Or.inl hzl)).1
      exact ⟨hzl, hcap z hzl hzn ▸ hz⟩
    -- A slot that stays out has its object in the old store as well, away from the list.
    have happart : ∀ r ∈ a ++ x :: b, (S.cap r).object = some o → ∀ z,
        (S.cap z).object = some o → z ∈ a ++ x :: b := by
      intro r hr hro z hzo
      obtain ⟨l, hl', hrl, hzl⟩ := h.one o r z hro hzo
      rwa [← hS.valid.unique l hl' _ hl r hrl hr]
    have hboth : ∀ z z', (S'.cap z).object = some o → (S'.cap z').object = some o →
        z ∈ new → z' ∈ new := by
      intro z z' hz hz' hzn
      by_contra hzn'
      obtain ⟨hzl', hzo'⟩ := hkeep z' hz' hzn'
      rcases (hobject z o hz (Or.inr hzn)).2 with ⟨r, hr, hro⟩ | hfresh
      · exact hzl' (happart r hr hro z' hzo')
      · exact hfresh z' hzo'
    by_cases hsn : s ∈ new
    · refine ⟨new, ?_, hsn, hboth s s' hs hs' hsn⟩
      rw [hchains]
      exact Or.inr ⟨rfl, List.ne_nil_of_mem hsn⟩
    · have hsn' : s' ∉ new := fun hn => hsn (hboth s' s hs' hs hn)
      obtain ⟨hsl, hso⟩ := hkeep s hs hsn
      obtain ⟨-, hso'⟩ := hkeep s' hs' hsn'
      obtain ⟨l, hl', hsl', hsl''⟩ := h.one o s s' hso hso'
      have hne : ∀ z ∈ l, z ∉ a ++ x :: b := by
        intro z hz hzl
        have heq : l = a ++ x :: b := hS.valid.unique l hl' _ hl z hz hzl
        exact hsl (heq ▸ hsl')
      refine ⟨l, ?_, hsl', hsl''⟩
      rw [hchains]
      refine Or.inl ⟨hl', fun hx => hne x hx (by simp), fun z hz hzl => ?_⟩
      rcases hnew z hz with hzL | hnull
      · exact hne z hzl hzL
      · exact hS.not_null hl' hzl hnull

/-- A move that leaves the lists and the objects alone. -/
theorem Together.of_cap (h : Together S) (hchains : S'.chains = S.chains)
    (hcap : ∀ s, (S'.cap s = .zombie ↔ S.cap s = .zombie) ∧
      (S'.cap s).object = (S.cap s).object) : Together S' := by
  constructor
  · intro l hl
    rw [hchains] at hl
    have hsame : leads S'.cap l = leads S.cap l := leadsFrom_congr fun s _ => hcap s
    rw [hsame]
    exact h.grouped l hl
  · intro o s s' hs hs'
    rw [(hcap s).2] at hs
    rw [(hcap s').2] at hs'
    rw [hchains]
    exact h.one o s s' hs hs'

/-! ### The moves -/

/-- The slot `y` comes in behind `x`. What `x` leads to stays, and `y` leads to the same, or to
an object of its own behind a capability without one. -/
theorem Together.derive (h : Together S) (hS : StoreOk S) (hy : S.cap y = .null)
    (hl : a ++ x :: b ∈ S.chains) (hx : S.cap x ≠ .zombie) (hc : c ≠ .zombie)
    (hcaps : S'.cap = upd (upd S.cap y c) x c')
    (hchains : S'.chains = Chains.rewrite S.chains x (a ++ x :: y :: b))
    (hlead : c' = .zombie ∧ c.object = (S.cap x).object ∨
      c' ≠ .zombie ∧ c'.object = (S.cap x).object)
    (hobject : c.object = (S.cap x).object ∨ (S.cap x).object = none ∧
      ∀ o, c.object = some o → ∀ r, (S.cap r).object ≠ some o) : Together S' := by
  obtain ⟨hxa, hxb, -⟩ := hS.nodup hl
  have hyl : y ∉ a ++ x :: b := hS.fresh hy _ hl
  simp only [List.mem_append, List.mem_cons, not_or] at hyl
  obtain ⟨hya, hyx, hyb⟩ := hyl
  have hcap : ∀ z, z ≠ x → z ≠ y → S'.cap z = S.cap z := by
    intro z hzx hzy
    rw [hcaps, upd_ne _ _ hzx, upd_ne _ _ hzy]
  have hcapx : S'.cap x = c' := by rw [hcaps, upd_same]
  have hcapy : S'.cap y = c := by rw [hcaps, upd_ne _ _ hyx, upd_same]
  -- The list is cut at `x`: what is behind it leads to the same objects as before.
  have hb : leads S'.cap b = leads S.cap b := by
    refine leadsFrom_congr fun s hs => ?_
    rw [hcap s (fun heq => hxb (heq ▸ hs)) fun heq => hyb (heq ▸ hs)]
    exact ⟨Iff.rfl, rfl⟩
  have hold : leads S.cap (x :: b) = (S.cap x).object :: leads S.cap b := leads_cons hx
  have htail : leads S'.cap (y :: b) = c.object :: leads S.cap b := by
    rw [leads_cons (hcapy ▸ hc), hcapy]
    exact congrArg _ hb
  have hnewx : leads S'.cap (x :: y :: b) = (S.cap x).object :: c.object :: leads S.cap b := by
    rcases hlead with ⟨hz, ho⟩ | ⟨hnz, ho⟩
    · rw [leads_zombie (hcapx.trans hz), htail, ← ho]
      rfl
    · rw [leads_cons (hcapx ▸ hnz), htail, hcapx, ho]
  -- In front of `x` the zombies may lead on to it, and it leads to what it led to.
  obtain ⟨p, hp, hp'⟩ := leads_splice (b := x :: b) (l := x :: y :: b)
    (fun s hs => hcap s (fun heq => hxa (heq ▸ hs)) fun heq => hya (heq ▸ hs))
    (Or.inl (by rw [hnewx, hold]; rfl))
  have hgrouped := h.grouped _ hl
  rw [hp, hold] at hgrouped
  refine h.rewrite hS hl hchains (fun z hz => ?_) (fun z hz hzn => ?_) ?_ fun z o hz hin => ?_
  · rcases mem_behind.mp hz with rfl | hz
    · exact Or.inr hy
    · exact Or.inl hz
  · simp only [List.mem_append, List.mem_cons, not_or] at hz hzn
    exact hcap z hz.2.1 hzn.2.2.1
  · rw [hp', hnewx]
    -- The object of `x` comes twice in a row, or a new object comes in behind a slot without one.
    rcases hobject with hobj | ⟨hnone, hfresh⟩
    · rw [hobj]
      exact hgrouped.double
    · rw [hnone] at hgrouped ⊢
      refine hgrouped.insert fun o hco ho => ?_
      have hin : some o ∈ leads S.cap (a ++ x :: b) := by
        rw [hp, hold, hnone]
        rcases List.mem_append.mp ho with ho | ho
        · exact List.mem_append_left _ ho
        · exact List.mem_append_right _ (List.mem_cons_of_mem _ ho)
      obtain ⟨r, -, hr⟩ := mem_leads hin
      exact hfresh o hco r hr
  · have hnew : z ∈ a ++ x :: y :: b := hin.elim (fun hin => mem_behind.mpr (Or.inr hin)) id
    refine ⟨hnew, ?_⟩
    by_cases hzx : z = x
    · rw [hzx, hcapx] at hz
      rcases hlead with ⟨hzombie, -⟩ | ⟨-, ho⟩
      · rw [hzombie] at hz
        exact absurd hz (by simp [Capability.object])
      · exact Or.inl ⟨x, by simp, ho ▸ hz⟩
    · by_cases hzy : z = y
      · rw [hzy, hcapy] at hz
        rcases hobject with hobj | ⟨-, hfresh⟩
        · exact Or.inl ⟨x, by simp, hobj ▸ hz⟩
        · exact Or.inr (hfresh o hz)
      · rw [hcap z hzx hzy] at hz
        exact Or.inl ⟨z, (mem_behind.mp hnew).resolve_left hzy, hz⟩

/-- The capability in `x` goes over to `y`. -/
theorem Together.move (h : Together S) (hS : StoreOk S) (hy : S.cap y = .null)
    (hl : a ++ x :: b ∈ S.chains) (hx : S.cap x ≠ .zombie)
    (hcap : S'.cap = upd (upd S.cap y (S.cap x)) x .null)
    (hchains : S'.chains = Chains.rewrite S.chains x (a ++ y :: b)) : Together S' := by
  obtain ⟨hxa, hxb, -⟩ := hS.nodup hl
  have hyl : y ∉ a ++ x :: b := hS.fresh hy _ hl
  simp only [List.mem_append, List.mem_cons, not_or] at hyl
  obtain ⟨hya, hyx, hyb⟩ := hyl
  have hcapz : ∀ z, z ≠ x → z ≠ y → S'.cap z = S.cap z := by
    intro z hzx hzy
    rw [hcap, upd_ne _ _ hzx, upd_ne _ _ hzy]
  have hcapy : S'.cap y = S.cap x := by
    rw [hcap, upd_ne _ _ hyx, upd_same]
  -- With the capability in `y`, the rest of the list leads where it led from `x`.
  have hback : leads S'.cap (y :: b) = leads S.cap (x :: b) := by
    have hb : leads S'.cap b = leads S.cap b := by
      refine leadsFrom_congr fun s hs => ?_
      rw [hcapz s (fun heq => hxb (heq ▸ hs)) fun heq => hyb (heq ▸ hs)]
      exact ⟨Iff.rfl, rfl⟩
    rw [leads_cons hx, ← hcapy, leads_cons (hcapy ▸ hx)]
    exact congrArg _ hb
  obtain ⟨p, hp, hp'⟩ := leads_splice (b := x :: b) (l := y :: b)
    (fun s hs => hcapz s (fun heq => hxa (heq ▸ hs)) fun heq => hya (heq ▸ hs))
    (Or.inl (by rw [hback]))
  refine h.rewrite hS hl hchains (fun z hz => ?_) (fun z hz hzn => ?_) ?_ fun z o hz hin => ?_
  · simp only [List.mem_append, List.mem_cons] at hz ⊢
    by_cases hzy : z = y
    · exact Or.inr (hzy ▸ hy)
    · tauto
  · simp only [List.mem_append, List.mem_cons, not_or] at hz hzn
    exact hcapz z hz.2.1 hzn.2.1
  · rw [hp', hback, ← hp]
    exact h.grouped _ hl
  · have hzx : z ≠ x := by
      rintro rfl
      rw [hcap, upd_same] at hz
      exact absurd hz (by simp [Capability.object])
    simp only [List.mem_append, List.mem_cons] at hin ⊢
    refine ⟨by tauto, Or.inl ?_⟩
    by_cases hzy : z = y
    · refine ⟨x, by simp, ?_⟩
      rwa [hzy, hcapy] at hz
    · refine ⟨z, by tauto, ?_⟩
      rwa [hcapz z hzx hzy] at hz

/-- A slot is emptied and leaves its list. The slot in front of it is no zombie. -/
theorem Together.clear (h : Together S) (hS : StoreOk S) (hl : a ++ s :: b ∈ S.chains)
    (hs : S.cap s ≠ .zombie) (hp : ∀ p, a.getLast? = some p → S.cap p ≠ .zombie)
    (hcap : S'.cap = upd S.cap s .null)
    (hchains : S'.chains = Chains.rewrite S.chains s (a ++ b)) : Together S' := by
  obtain ⟨hsa, hsb, -⟩ := hS.nodup hl
  have hcapz : ∀ z, z ≠ s → S'.cap z = S.cap z := by
    intro z hzs
    rw [hcap, upd_ne _ _ hzs]
  have hb : leads S'.cap b = leads S.cap b := by
    refine leadsFrom_congr fun z hz => ?_
    rw [hcapz z fun heq => hsb (heq ▸ hz)]
    exact ⟨Iff.rfl, rfl⟩
  obtain ⟨p, hold, hnew⟩ := leads_splice (b := s :: b) (l := b)
    (fun z hz => hcapz z fun heq => hsa (heq ▸ hz)) (Or.inr hp)
  refine h.rewrite hS hl hchains (fun z hz => Or.inl ?_) (fun z hz _ => ?_) ?_ fun z o hz hin => ?_
  · simp only [List.mem_append, List.mem_cons] at hz ⊢
    tauto
  · simp only [List.mem_append, List.mem_cons, not_or] at hz
    exact hcapz z hz.2.1
  · have hgrouped := h.grouped _ hl
    rw [hold, leads_cons hs] at hgrouped
    rw [hnew, hb]
    exact hgrouped.remove
  · have hzs : z ≠ s := by
      rintro rfl
      rw [hcap, upd_same] at hz
      exact absurd hz (by simp [Capability.object])
    rw [hcapz z hzs] at hz
    simp only [List.mem_append, List.mem_cons] at hin ⊢
    exact ⟨by tauto, Or.inl ⟨z, by tauto, hz⟩⟩

/-- A zombie gets the capability back that it leads to. -/
theorem Together.undelegate (h : Together S) (hS : StoreOk S) (hz : S.cap z = .zombie)
    (hm : ∀ s ∈ m, S.cap s = .zombie) (he : (S.cap e).Names)
    (hl : a ++ z :: (m ++ e :: b) ∈ S.chains)
    (hcap : S'.cap = fun s => if s = z then S.cap e else if s ∈ m ∨ s = e then .null else S.cap s)
    (hchains : S'.chains = Chains.rewrite S.chains z (a ++ z :: b)) : Together S' := by
  have hnd := hS.valid.nodup _ hl
  obtain ⟨hza, hzb, -⟩ := hS.nodup hl
  simp only [List.mem_append, List.mem_cons, not_or] at hzb
  have hl' : (a ++ z :: m) ++ e :: b ∈ S.chains := by simpa using hl
  obtain ⟨hea, heb, hnd'⟩ := hS.nodup hl'
  simp only [List.mem_append, List.mem_cons, not_or] at hea
  -- The slots in front of the zombie and behind its holder are none of those emptied.
  have hm_apart : ∀ w ∈ m, w ∉ a ∧ w ∉ b := by
    intro w hw
    rw [List.nodup_append] at hnd'
    refine ⟨fun hwa => ?_, fun hwb => hnd'.2.2 w (by simp [hw]) w hwb rfl⟩
    have hfront := hnd'.1
    rw [List.nodup_append] at hfront
    exact hfront.2.2 w hwa w (by simp [hw]) rfl
  have hcapw : ∀ w, w ≠ z → w ∉ m → w ≠ e → S'.cap w = S.cap w := by
    intro w hwz hwm hwe
    rw [hcap]
    show (if w = z then _ else _) = _
    rw [if_neg hwz, if_neg (not_or.mpr ⟨hwm, hwe⟩)]
  have hcapz : S'.cap z = S.cap e := by
    rw [hcap]
    exact if_pos rfl
  have hb : leads S'.cap b = leads S.cap b := by
    refine leadsFrom_congr fun w hw => ?_
    rw [hcapw w (fun heq => hzb.2.2 (heq ▸ hw)) (fun hwm => (hm_apart w hwm).2 hw)
      fun heq => heb (heq ▸ hw)]
    exact ⟨Iff.rfl, rfl⟩
  have hrest : leads S.cap (m ++ e :: b)
      = List.replicate m.length (S.cap e).object ++ (S.cap e).object :: leads S.cap b := by
    rw [leads_append, leads_cons he.2]
    exact congrArg (· ++ _) (leadsFrom_zombies hm)
  have hhead : (leads S.cap (m ++ e :: b)).headD none = (S.cap e).object := by
    rw [hrest]
    cases m <;> rfl
  have hold : leads S.cap (z :: (m ++ e :: b)) = ((S.cap e).object ::
      List.replicate m.length (S.cap e).object) ++ (S.cap e).object :: leads S.cap b := by
    rw [leads_zombie hz, hhead, hrest]
    rfl
  have hnew : leads S'.cap (z :: b) = (S.cap e).object :: leads S.cap b := by
    rw [leads_cons (hcapz ▸ he.2), hcapz, hb]
  obtain ⟨p, hp, hp'⟩ := leads_splice (b := z :: (m ++ e :: b)) (l := z :: b)
    (fun w hw => hcapw w (fun heq => hza (heq ▸ hw)) (fun hwm => (hm_apart w hwm).1 hw)
      fun heq => hea.1 (heq ▸ hw))
    (Or.inl (by rw [hnew, hold]; rfl))
  refine h.rewrite hS hl hchains (fun w hw => Or.inl ?_) (fun w hw _ => ?_) ?_ fun w o hw hin => ?_
  · simp only [List.mem_append, List.mem_cons] at hw ⊢
    tauto
  · simp only [List.mem_append, List.mem_cons, not_or] at hw
    exact hcapw w hw.2.1 hw.2.2.1 hw.2.2.2.1
  · have hgrouped := h.grouped _ hl
    rw [hp, hold, ← List.append_assoc] at hgrouped
    rw [hp', hnew]
    exact hgrouped.collapse
  · by_cases hwz : w = z
    · refine ⟨by simp [hwz], Or.inl ⟨e, by simp, ?_⟩⟩
      rwa [hwz, hcapz] at hw
    · have hwme : ¬ (w ∈ m ∨ w = e) := by
        intro hwme
        rw [hcap] at hw
        change (if w = z then _ else _ : Capability).object = _ at hw
        rw [if_neg hwz, if_pos hwme] at hw
        exact absurd hw (by simp [Capability.object])
      rw [hcapw w hwz (fun hwm => hwme (Or.inl hwm)) fun hwe => hwme (Or.inr hwe)] at hw
      simp only [List.mem_append, List.mem_cons] at hin ⊢
      exact ⟨by tauto, Or.inl ⟨w, by tauto, hw⟩⟩

/-- An identifier is a list of its own. -/
theorem Together.newRoot (h : Together S) (hS : StoreOk S) {i : IdCap} (hy : S.cap y = .null)
    (hcap : S'.cap = upd S.cap y (.id i))
    (hchains : S'.chains = Chains.rewrite S.chains y [y]) : Together S' := by
  have hcapz : ∀ z, z ≠ y → S'.cap z = S.cap z := by
    intro z hzy
    rw [hcap, upd_ne _ _ hzy]
  have hfresh := hS.fresh hy
  have hobject : ∀ z o, (S'.cap z).object = some o → (S.cap z).object = some o := by
    intro z o hz
    by_cases hzy : z = y
    · rw [hzy, hcap, upd_same] at hz
      exact absurd hz (by simp [Capability.object])
    · rwa [hcapz z hzy] at hz
  constructor
  · intro l hl
    rw [hchains] at hl
    rcases hl with ⟨hl, hyl, -⟩ | ⟨rfl, -⟩
    · have hsame : leads S'.cap l = leads S.cap l := by
        refine leadsFrom_congr fun z hz => ?_
        rw [hcapz z fun heq => hyl (heq ▸ hz)]
        exact ⟨Iff.rfl, rfl⟩
      rw [hsame]
      exact h.grouped l hl
    · have hsingle : leads S'.cap [y] = [none] := by
        rw [leads_cons (by rw [hcap, upd_same]; simp), hcap, upd_same]
        rfl
      rw [hsingle]
      exact ⟨fun o ho => absurd ho (by simp), trivial⟩
  · intro o s s' hs hs'
    obtain ⟨l, hl, hsl, hsl'⟩ := h.one o s s' (hobject s o hs) (hobject s' o hs')
    refine ⟨l, ?_, hsl, hsl'⟩
    rw [hchains]
    exact Or.inl ⟨hl, hfresh l hl, by simpa using hfresh l hl⟩

/-! ### Where an object lies -/

theorem covers_addr (h : c.object = some o) : c.Covers o.addr := by
  cases c with
  | task cap =>
    obtain rfl := Option.some.inj h
    exact ⟨Nat.le_refl _, Nat.lt_add_of_pos_right (by decide)⟩
  | endpoint cap =>
    obtain rfl := Option.some.inj h
    exact ⟨Nat.le_refl _, Nat.lt_add_of_pos_right (by decide)⟩
  | _ => exact absurd h (by simp [Capability.object])

theorem NewObject.addr {device : Bool} {base size alignment : Nat}
    (h : NewObject device base size alignment c) (ho : c.object = some o) : o.addr = base := by
  cases h with
  | task => exact (Option.some.inj ho) ▸ rfl
  | endpoint => exact (Option.some.inj ho) ▸ rfl
  | _ => exact absurd ho (by simp [Capability.object, makeCapSpaceCap])

/-- An object that a slot denotes has no byte left in a memory capability. -/
theorem MemInv.object_not_free (h : MemInv S) (hs : (S.cap s).object = some o) :
    ¬ S.Free o.addr := by
  rintro ⟨r, m, hr, hcovers⟩
  have hne : r ≠ s := by
    rintro rfl
    rw [hr] at hs
    exact absurd hs (by simp [Capability.object])
  have hsame := h.disjoint r s hne o.addr hcovers (covers_addr hs)
  rw [hr, sameObject_memory] at hsame
  exact absurd hsame (by simp)

/-- A new object lies where memory was left. -/
theorem Carve.free {mem : MemoryCap} {size alignment base : Nat}
    (h : Carve mem size alignment base) (hx : S.cap x = .memory mem) : S.Free base := by
  refine ⟨x, mem, hx, ?_⟩
  rw [hx]
  exact ⟨h.low, Nat.lt_of_lt_of_le (Nat.lt_add_of_pos_right h.pos) h.high⟩

theorem Adopts.object (h : Adopts c c') : c'.object = c.object := by
  rcases h with rfl | ⟨p, level, va, rfl, rfl⟩
  · rfl
  · rfl

/-- All moves keep the slots of an object together. -/
theorem Together.trans (h : Together S) (hI : CapInv S) (ht : Trans S act S') : Together S' := by
  -- Most moves keep the lists and the object of every slot.
  have hset : ∀ {s d} {S' : CapStore}, S'.chains = S.chains → S'.cap = upd S.cap s d →
      S.cap s ≠ .zombie → d ≠ .zombie → d.object = (S.cap s).object → Together S' := by
    intro s d S' hchains hcap hs hd hobject
    refine h.of_cap hchains fun r => ?_
    rw [hcap, upd_apply]
    split
    · rename_i heq
      rw [heq]
      exact ⟨iff_of_false hd hs, hobject⟩
    · exact ⟨Iff.rfl, rfl⟩
  have hS := hI.ok
  cases ht with
  | @create x y a b m size alignment base c hx hy hl hcarve hobject =>
    have hc : c ≠ .zombie := by
      cases hobject <;> simp [makeTaskCap, makeEndpointCap, makeCapSpaceCap]
    -- The object is made of free memory, so no slot denotes it yet.
    refine h.derive hS hy hl (by simp [hx]) hc rfl rfl (Or.inr ⟨by simp, by rw [hx]; rfl⟩)
      (Or.inr ⟨by rw [hx]; rfl, fun o ho r hr => ?_⟩)
    exact hI.mem.object_not_free hr (hobject.addr ho ▸ hcarve.free hx)
  | @adopt y capSpace root slot0 slot1 task p r t0 t1 tables =>
    exact h.of_cap rfl fun s => ⟨adopts_adoptCaps.iff (by simp), adopts_adoptCaps.object⟩
  | @copy x y a b hx hy hl =>
    have hnz : S.cap x ≠ .zombie := fun heq => by simp [heq, Capability.Linked] at hx
    exact h.derive hS hy hl hnz hnz rfl rfl (Or.inr ⟨hnz, rfl⟩) (Or.inl rfl)
  | @delegate x y a b hx hy hl =>
    exact h.derive hS hy hl hx.2 hx.2 rfl rfl (Or.inl ⟨rfl, rfl⟩) (Or.inl rfl)
  | @move x y a b hx hy hl => exact h.move hS hy hl hx.2 rfl rfl
  | @newRoot y i hy => exact h.newRoot hS hy rfl rfl
  | @undelegate z e a m b hz hm he hl => exact h.undelegate hS hz hm he hl rfl rfl
  | @destroy s a b hs hl hp => exact h.clear hS hl hs.2 hp rfl rfl
  | @drop s a b hs hl hp => exact h.clear hS hl hs.2 hp rfl rfl
  | selfDestroy => exact h.of_cap rfl fun _ => ⟨Iff.rfl, rfl⟩
  | mapTable _ hy => exact hset rfl rfl (by simp [hy]) (by simp) (by rw [hy]; rfl)
  | unmapTable _ hy => exact hset rfl rfl (by simp [hy]) (by simp) (by rw [hy]; rfl)
  | mapPage _ hy => exact hset rfl rfl (by simp [hy]) (by simp) (by rw [hy]; rfl)
  | unmapPage _ hy => exact hset rfl rfl (by simp [hy]) (by simp) (by rw [hy]; rfl)
  | remapPage _ _ hy => exact hset rfl rfl (by simp [hy]) (by simp) (by rw [hy]; rfl)
  | attach _ hy => exact hset rfl rfl (by simp [hy]) (by simp) (by rw [hy]; rfl)
  | extend _ hy => exact hset rfl rfl (by simp [hy]) (by simp) (by rw [hy]; rfl)

/-! ### When an object is destroyed -/

/-- Some slot denotes the object. -/
def CapStore.Denoted (S : CapStore) (o : Object) : Prop := ∃ s, (S.cap s).object = some o

/-- How often the destructor of the object has run. -/
def destroys (trace : List Event) (o : Object) : Nat := trace.count o.destroyed

theorem destroyEvents_eq : c.destroyEvents = (c.object.map Object.destroyed).toList := by
  cases c <;> rfl

theorem destroyed_injective {o o' : Object} (h : o.destroyed = o'.destroyed) : o = o' := by
  cases o <;> cases o' <;> simp_all [Object.destroyed]

theorem destroys_append {trace trace' : List Event} :
    destroys (trace ++ trace') o = destroys trace o + destroys trace' o := List.count_append

theorem destroys_events : destroys c.destroyEvents o = if c.object = some o then 1 else 0 := by
  rw [destroyEvents_eq]
  unfold destroys
  cases c.object with
  | none => rfl
  | some o' =>
    show List.count o.destroyed [o'.destroyed] = _
    rw [List.count_singleton]
    by_cases heq : o' = o
    · simp [heq]
    · have hne : ¬ o'.destroyed = o.destroyed := fun h => heq (destroyed_injective h)
      simp [heq, hne]

/-- A capability beside the slot is of the same object if, and only if, another slot denotes
its object. -/
theorem Together.sameNeighbor_iff (h : Together S) (hS : StoreOk S) (hl : a ++ s :: b ∈ S.chains)
    (hp : ∀ p, a.getLast? = some p → S.cap p ≠ .zombie) (hs : (S.cap s).object = some o) :
    SameNeighbor S.cap a b (S.cap s) ↔ ∃ r, r ≠ s ∧ (S.cap r).object = some o := by
  have hlinked := linked_of_object hs
  obtain ⟨hsa, hsb, -⟩ := hS.nodup hl
  have hgrouped := h.grouped _ hl
  constructor
  · rintro (⟨p, hpa, hsame⟩ | ⟨n, hn, hsame⟩)
    · rw [sameObject_iff hlinked, hs] at hsame
      exact ⟨p, fun heq => hsa (heq ▸ List.mem_of_getLast? hpa), hsame⟩
    · rw [sameObject_iff hlinked, hs] at hsame
      exact ⟨n, fun heq => hsb (heq ▸ List.mem_of_find?_eq_some hn), hsame⟩
  · rintro ⟨r, hrs, hr⟩
    obtain ⟨l, hl', hsl, hrl⟩ := h.one o s r hs hr
    obtain rfl : l = a ++ s :: b := hS.valid.unique l hl' _ hl s hsl (by simp)
    simp only [List.mem_append, List.mem_cons, hrs, false_or] at hrl
    -- Seen from `s`, the slots of the object are one run of the list, and `s` is in it.
    have hsplit : leads S.cap (a ++ s :: b)
        = leadsFrom S.cap (some o) a ++ some o :: leads S.cap b := by
      rw [leads_append, leads_cons (object_zombie hs), hs]
      rfl
    rw [hsplit] at hgrouped
    rcases hrl with hra | hrb
    · left
      -- The run reaches from `r` up to the slot in front of `s`, which is not a zombie.
      obtain ⟨a', p, rfl⟩ := (List.eq_nil_or_concat' a).resolve_left (List.ne_nil_of_mem hra)
      have hpz : S.cap p ≠ .zombie := hp p (by simp)
      have hmem : some o ∈ leadsFrom S.cap (some o) (a' ++ [p]) :=
        mem_leadsFrom_of hra hr
      have hlast := hgrouped.last_eq hmem
      rw [leadsFrom_append, leadsFrom, if_neg hpz] at hlast
      have hpo : (S.cap p).object = some o := by simpa [leadsFrom] using hlast
      refine ⟨p, by simp, ?_⟩
      rw [sameObject_iff hlinked, hs, hpo]
    · right
      obtain ⟨n, hn⟩ : ∃ n, b.find? (fun s => S.cap s ≠ .zombie) = some n := by
        rw [← Option.isSome_iff_exists, List.find?_isSome]
        exact ⟨r, hrb, by simpa using object_zombie hr⟩
      -- The run reaches from `s` down to `r`, so the next slot that is no zombie is in it.
      have hnext := hgrouped.right.1 o rfl (mem_leads_of hrb hr)
      have hno : (S.cap n).object = some o := by
        obtain ⟨hnz, m, b', rfl, hm⟩ := List.find?_eq_some_iff_append.mp hn
        rw [leads_append, leads_cons (by simpa using hnz),
          leadsFrom_zombies fun w hw => by simpa using hm w hw] at hnext
        cases m with
        | nil => exact Option.some.inj hnext
        | cons => exact Option.some.inj hnext
      refine ⟨n, hn, ?_⟩
      rw [sameObject_iff hlinked, hs, hno]

/-- No move gives memory back. -/
theorem Trans.free (ht : Trans S act S') {addr : Nat} (h : S'.Free addr) : S.Free addr := by
  obtain ⟨r, mem, hr, hcovers⟩ := h
  -- A memory capability that the move leaves alone was there before.
  have hold : ∀ {q}, S'.cap r = S.cap q → S.Free addr := fun {q} heq =>
    ⟨q, mem, heq ▸ hr, heq ▸ hcovers⟩
  have hset : ∀ {s d}, S'.cap = upd S.cap s d → (∀ mem, d ≠ .memory mem) → S.Free addr := by
    intro s d hcap hd
    by_cases hrs : r = s
    · rw [hcap, hrs, upd_same] at hr
      exact absurd hr (hd mem)
    · exact hold (hcap ▸ upd_ne _ _ hrs)
  cases ht with
  | @create x y a b m size alignment base c hx hy hl hcarve hobject =>
    change upd (upd S.cap y c) x _ r = _ at hr
    change (upd (upd S.cap y c) x _ r).Covers addr at hcovers
    -- The memory is what is left of `x`, or the new capability that was cut from it.
    by_cases hrx : r = x
    · rw [hrx, upd_same] at hcovers
      exact ⟨x, m, hx, hx ▸ (hcarve.covers_carve hcovers).2⟩
    · by_cases hry : r = y
      · rw [upd_ne _ _ hrx, hry, upd_same] at hcovers
        obtain ⟨hlow, hhigh⟩ := hobject.covers hcovers
        exact ⟨x, m, hx, hx ▸ hcarve.covers_object hlow hhigh⟩
      · have hcap : upd (upd S.cap y c) x (.memory (m.carve base size)) r = S.cap r := by
          rw [upd_ne _ _ hrx, upd_ne _ _ hry]
        exact hold hcap
  | adopt =>
    refine ⟨r, mem, (adopts_adoptCaps.iff (by simp)).mp hr, ?_⟩
    rw [hr] at hcovers
    rw [(adopts_adoptCaps.iff (by simp)).mp hr]
    exact hcovers
  | @copy x y a b hx hy hl =>
    by_cases hrx : r = x
    · subst hrx
      exact hold (q := r) (upd_same _ _ _)
    · by_cases hry : r = y
      · exact hold (q := x) (hry ▸ (upd_ne _ _ (hry ▸ hrx)).trans (upd_same _ _ _))
      · exact hold (q := r) ((upd_ne _ _ hrx).trans (upd_ne _ _ hry))
  | @delegate x y a b hx hy hl =>
    by_cases hrx : r = x
    · change upd (upd S.cap y (S.cap x)) x .zombie r = _ at hr
      rw [hrx, upd_same] at hr
      exact absurd hr (by simp)
    · by_cases hry : r = y
      · exact hold (q := x) (hry ▸ (upd_ne _ _ (hry ▸ hrx)).trans (upd_same _ _ _))
      · exact hold (q := r) ((upd_ne _ _ hrx).trans (upd_ne _ _ hry))
  | @move x y a b hx hy hl =>
    by_cases hrx : r = x
    · change upd (upd S.cap y (S.cap x)) x .null r = _ at hr
      rw [hrx, upd_same] at hr
      exact absurd hr (by simp)
    · by_cases hry : r = y
      · exact hold (q := x) (hry ▸ (upd_ne _ _ (hry ▸ hrx)).trans (upd_same _ _ _))
      · exact hold (q := r) ((upd_ne _ _ hrx).trans (upd_ne _ _ hry))
  | newRoot => exact hset rfl (by simp)
  | @undelegate z e a m b hz hm he hl =>
    by_cases hrz : r = z
    · exact hold (q := e) (if_pos hrz)
    · by_cases hrm : r ∈ m ∨ r = e
      · change (if r = z then _ else if r ∈ m ∨ r = e then _ else _) = _ at hr
        rw [if_neg hrz, if_pos hrm] at hr
        exact absurd hr (by simp)
      · exact hold (q := r) ((if_neg hrz).trans (if_neg hrm))
  | destroy => exact hset rfl (by simp)
  | drop => exact hset rfl (by simp)
  | selfDestroy => exact ⟨r, mem, hr, hcovers⟩
  | mapTable => exact hset rfl (by simp)
  | unmapTable => exact hset rfl (by simp)
  | mapPage => exact hset rfl (by simp)
  | unmapPage => exact hset rfl (by simp)
  | remapPage => exact hset rfl (by simp)
  | attach => exact hset rfl (by simp)
  | extend => exact hset rfl (by simp)

/-- The last slot of the object was cleared and the object destroyed, or nothing is lost. -/
def Settles (S S' : CapStore) (o : Object) : Prop :=
  (S.Denoted o ∧ ¬ S'.Denoted o ∧ destroys S'.trace o = destroys S.trace o + 1) ∨
    ((S.Denoted o → S'.Denoted o) ∧ destroys S'.trace o = destroys S.trace o)

/-- A move that changes one capability to one of the same object. -/
theorem object_upd {d : Capability} (hd : d.object = (cap s).object) (r : SlotPtr) :
    (upd cap s d r).object = (cap r).object := by
  rw [upd_apply]
  split
  · rename_i heq
    rw [heq, hd]
  · rfl

/-- What a slot denotes after a move was denoted before it, or is new. -/
theorem Trans.denoted (ht : Trans S act S') (h : S'.Denoted o) : S.Denoted o ∨ S.Free o.addr := by
  obtain ⟨r, hr⟩ := h
  have hsame : (S'.cap r).object = (S.cap r).object → S.Denoted o ∨ S.Free o.addr :=
    fun heq => Or.inl ⟨r, heq ▸ hr⟩
  have hfrom : ∀ r', S'.cap r = S.cap r' → S.Denoted o ∨ S.Free o.addr :=
    fun r' heq => Or.inl ⟨r', heq ▸ hr⟩
  -- A slot that is filled from `x` denotes what `x` denoted.
  have hderive : ∀ {x y : SlotPtr} {d : Capability}, S'.cap = upd (upd S.cap y (S.cap x)) x d →
      (d.object = none ∨ d = S.cap x) → S.Denoted o ∨ S.Free o.addr := by
    intro x y d hcap hd
    by_cases hrx : r = x
    · rw [hcap, hrx, upd_same] at hr
      rcases hd with hd | rfl
      · exact absurd (hd.symm.trans hr) (by simp)
      · exact Or.inl ⟨x, hr⟩
    · by_cases hry : r = y
      · rw [hcap, upd_ne _ _ hrx, hry, upd_same] at hr
        exact Or.inl ⟨x, hr⟩
      · exact hfrom r (by rw [hcap, upd_ne _ _ hrx, upd_ne _ _ hry])
  have hclear : ∀ {s : SlotPtr}, S'.cap = upd S.cap s .null → S.Denoted o ∨ S.Free o.addr := by
    intro s hcap
    by_cases hrs : r = s
    · rw [hcap, hrs, upd_same] at hr
      exact absurd hr (by simp [Capability.object])
    · exact hfrom r (by rw [hcap, upd_ne _ _ hrs])
  cases ht with
  | @create x y a b m size alignment base c hx hy hl hcarve hobject =>
    change (upd (upd S.cap y c) x (.memory (m.carve base size)) r).object = some o at hr
    by_cases hrx : r = x
    · rw [hrx, upd_same] at hr
      exact absurd hr (by simp [Capability.object])
    · by_cases hry : r = y
      · rw [upd_ne _ _ hrx, hry, upd_same] at hr
        exact Or.inr (hobject.addr hr ▸ hcarve.free hx)
      · rw [upd_ne _ _ hrx, upd_ne _ _ hry] at hr
        exact Or.inl ⟨r, hr⟩
  | adopt => exact hsame adopts_adoptCaps.object
  | copy => exact hderive rfl (Or.inr rfl)
  | delegate => exact hderive rfl (Or.inl rfl)
  | move => exact hderive rfl (Or.inl rfl)
  | @newRoot y i hy =>
    by_cases hry : r = y
    · change (upd S.cap y (.id i) r).object = some o at hr
      rw [hry, upd_same] at hr
      exact absurd hr (by simp [Capability.object])
    · exact hfrom r (upd_ne _ _ hry)
  | @undelegate z e a m b hz hm he hl =>
    by_cases hrz : r = z
    · exact hfrom e (if_pos hrz)
    · by_cases hrm : r ∈ m ∨ r = e
      · change (if r = z then _ else if r ∈ m ∨ r = e then _ else _ : Capability).object = _ at hr
        rw [if_neg hrz, if_pos hrm] at hr
        exact absurd hr (by simp [Capability.object])
      · exact hfrom r ((if_neg hrz).trans (if_neg hrm))
  | destroy => exact hclear rfl
  | drop => exact hclear rfl
  | selfDestroy => exact Or.inl ⟨r, hr⟩
  | mapTable _ hy => exact hsame (object_upd (by rw [hy]; rfl) r)
  | unmapTable _ hy => exact hsame (object_upd (by rw [hy]; rfl) r)
  | mapPage _ hy => exact hsame (object_upd (by rw [hy]; rfl) r)
  | unmapPage _ hy => exact hsame (object_upd (by rw [hy]; rfl) r)
  | remapPage _ _ hy => exact hsame (object_upd (by rw [hy]; rfl) r)
  | attach _ hy => exact hsame (object_upd (by rw [hy]; rfl) r)
  | extend _ hy => exact hsame (object_upd (by rw [hy]; rfl) r)

/-- A move destroys an object if, and only if, it clears the last slot of it. -/
theorem Trans.settles (ht : Trans S act S') (hact : act ≠ .selfDestroy) (h : Together S)
    (hS : StoreOk S) (o : Object) : Settles S S' o := by
  -- It is enough that nothing is destroyed and that every denoted object stays denoted.
  have hkeep : destroys S'.trace o = destroys S.trace o →
      (∀ r, (S.cap r).object = some o → ∃ r', (S'.cap r').object = some o) → Settles S S' o :=
    fun htrace h => Or.inr ⟨fun ⟨r, hr⟩ => h r hr, htrace⟩
  have hsame : destroys S'.trace o = destroys S.trace o →
      (∀ r, (S'.cap r).object = (S.cap r).object) → Settles S S' o :=
    fun htrace h => hkeep htrace fun r hr => ⟨r, (h r).trans hr⟩
  have hattach : ∀ {t n p}, destroys (S.trace ++ [.attach t n p]) o = destroys S.trace o := by
    intro t n p
    rw [destroys_append]
    cases o <;> rfl
  -- A slot that is cleared and denotes another object does not matter.
  have hother : ∀ {s}, S'.cap = upd S.cap s .null → (S.cap s).object ≠ some o →
      ∀ r, (S.cap r).object = some o → ∃ r', (S'.cap r').object = some o := by
    intro s hcap hs r hr
    have hrs : r ≠ s := by
      rintro rfl
      exact hs hr
    exact ⟨r, by rw [hcap, upd_ne _ _ hrs, hr]⟩
  cases ht with
  | @create x y a b m size alignment base c hx hy hl hcarve hobject =>
    refine hkeep rfl fun r hr => ⟨r, ?_⟩
    have hrx : r ≠ x := by
      rintro rfl
      rw [hx] at hr
      exact absurd hr (by simp [Capability.object])
    have hry : r ≠ y := fun heq => object_null hr (heq ▸ hy)
    show (upd (upd S.cap y c) x _ r).object = some o
    rw [upd_ne _ _ hrx, upd_ne _ _ hry, hr]
  | adopt => exact hsame hattach fun _ => adopts_adoptCaps.object
  | @copy x y a b hx hy hl =>
    refine hkeep rfl fun r hr => ⟨r, ?_⟩
    have hry : r ≠ y := fun heq => object_null hr (heq ▸ hy)
    show (upd (upd S.cap y (S.cap x)) x (S.cap x) r).object = some o
    rw [object_upd (by rw [upd_ne _ _ fun heq => hS.not_null hl (by simp) (heq ▸ hy)]),
      upd_ne _ _ hry, hr]
  | @delegate x y a b hx hy hl =>
    refine hkeep rfl fun r hr => ?_
    have hry : r ≠ y := fun heq => object_null hr (heq ▸ hy)
    have hyx : y ≠ x := fun heq => hx.1 (heq ▸ hy)
    by_cases hrx : r = x
    · refine ⟨y, ?_⟩
      show (upd (upd S.cap y (S.cap x)) x .zombie y).object = some o
      rw [upd_ne _ _ hyx, upd_same, ← hrx, hr]
    · refine ⟨r, ?_⟩
      show (upd (upd S.cap y (S.cap x)) x .zombie r).object = some o
      rw [upd_ne _ _ hrx, upd_ne _ _ hry, hr]
  | @move x y a b hx hy hl =>
    refine hkeep rfl fun r hr => ?_
    have hry : r ≠ y := fun heq => object_null hr (heq ▸ hy)
    have hyx : y ≠ x := fun heq => hx.1 (heq ▸ hy)
    by_cases hrx : r = x
    · refine ⟨y, ?_⟩
      show (upd (upd S.cap y (S.cap x)) x .null y).object = some o
      rw [upd_ne _ _ hyx, upd_same, ← hrx, hr]
    · refine ⟨r, ?_⟩
      show (upd (upd S.cap y (S.cap x)) x .null r).object = some o
      rw [upd_ne _ _ hrx, upd_ne _ _ hry, hr]
  | @newRoot y i hy =>
    refine hkeep rfl fun r hr => ⟨r, ?_⟩
    have hry : r ≠ y := fun heq => object_null hr (heq ▸ hy)
    show (upd S.cap y (.id i) r).object = some o
    rw [upd_ne _ _ hry, hr]
  | @undelegate z e a m b hz hm he hl =>
    refine hkeep rfl fun r hr => ?_
    by_cases hre : r = e
    · exact ⟨z, (congrArg Capability.object (if_pos rfl)).trans (hre ▸ hr)⟩
    · have hrz : r ≠ z := fun heq => object_zombie hr (heq ▸ hz)
      have hrm : r ∉ m := fun hrm => object_zombie hr (hm r hrm)
      refine ⟨r, ?_⟩
      show (if r = z then _ else if r ∈ m ∨ r = e then _ else S.cap r : Capability).object = some o
      rw [if_neg hrz, if_neg (not_or.mpr ⟨hrm, hre⟩), hr]
  | @destroy s a b hs hl hp last =>
    have htrace : destroys (S.trace ++ (S.cap s).destroyEvents) o
        = destroys S.trace o + if (S.cap s).object = some o then 1 else 0 := by
      rw [destroys_append, destroys_events]
    -- The last slot of `o` is cleared: no other slot denotes it, as no neighbour does.
    by_cases ho : (S.cap s).object = some o
    · refine Or.inl ⟨⟨s, ho⟩, ?_, by simpa [ho] using htrace⟩
      rintro ⟨r, hr⟩
      change (upd S.cap s .null r).object = some o at hr
      have hrs : r ≠ s := by
        rintro rfl
        rw [upd_same] at hr
        exact absurd hr (by simp [Capability.object])
      rw [upd_ne _ _ hrs] at hr
      exact last ((h.sameNeighbor_iff hS hl hp ho).mpr ⟨r, hrs, hr⟩)
    · exact hkeep (by simpa [ho] using htrace) (hother rfl ho)
  | @drop s a b hs hl hp same =>
    by_cases ho : (S.cap s).object = some o
    -- A neighbour is of the same object, so the object is still denoted.
    · obtain ⟨r, hrs, hr⟩ := (h.sameNeighbor_iff hS hl hp ho).mp same
      refine hkeep rfl fun _ _ => ⟨r, ?_⟩
      show (upd S.cap s .null r).object = some o
      rw [upd_ne _ _ hrs, hr]
    · exact hkeep rfl (hother rfl ho)
  | selfDestroy => exact absurd rfl hact
  | mapTable _ hy => exact hsame rfl (object_upd (by rw [hy]; rfl))
  | unmapTable _ hy => exact hsame rfl (object_upd (by rw [hy]; rfl))
  | mapPage _ hy => exact hsame rfl (object_upd (by rw [hy]; rfl))
  | unmapPage _ hy => exact hsame rfl (object_upd (by rw [hy]; rfl))
  | remapPage _ _ hy => exact hsame rfl (object_upd (by rw [hy]; rfl))
  | attach _ hy => exact hsame hattach (object_upd (by rw [hy]; rfl))
  | extend _ hy => exact hsame rfl (object_upd (by rw [hy]; rfl))

/-- The invariant of the objects: their slots are together, and what was destroyed is gone for
good, and was destroyed once. -/
structure ObjectInv (S : CapStore) : Prop where
  together : Together S
  spent : ∀ o, destroys S.trace o ≠ 0 → ¬ S.Denoted o ∧ ¬ S.Free o.addr
  once : ∀ o, destroys S.trace o ≤ 1

theorem ObjectInv.trans (h : ObjectInv S) (hI : CapInv S) (ht : Trans S act S')
    (hact : act ≠ .selfDestroy) : ObjectInv S' where
  together := h.together.trans hI ht
  spent o ho := by
    rcases ht.settles hact h.together hI.ok o with ⟨⟨s, hs⟩, hgone, -⟩ | ⟨-, htrace⟩
    · exact ⟨hgone, fun hfree => hI.mem.object_not_free hs (ht.free hfree)⟩
    · obtain ⟨hdenoted, hfree⟩ := h.spent o (htrace ▸ ho)
      exact ⟨fun hd => (ht.denoted hd).elim hdenoted hfree, fun hf => hfree (ht.free hf)⟩
  once o := by
    rcases ht.settles hact h.together hI.ok o with ⟨hdenoted, -, htrace⟩ | ⟨-, htrace⟩
    · have hzero : destroys S.trace o = 0 := by
        by_contra hne
        exact (h.spent o hne).1 hdenoted
      omega
    · rw [htrace]
      exact h.once o

end Caprese
