import Caprese.Kernel.Skip
import Caprese.Store.Revoke

/-!
# `Caprese.Store.Skip`: the loops without a null check have an end

In a state in order every slot in use leads over zombies to a slot that holds a capability
(`exists_walk`). `skips_skipFrom`: the loop of the kernel comes to this slot.

`revoke_cap` and `destroy_cap` start these loops at such slots only, in their middle too, and
`destroy_object` at slots that hold a capability. So they do not depend on what the loops do
elsewhere, nor on the default of `destroy_object` (`revokeCapWith_eq`, `destroyCapWith_eq`).
-/

set_option autoImplicit false

namespace Caprese

open Lib Prog Chains

variable {cfg : Config} {k k' k₁ : Kernel} {x y z s e : SlotPtr} {a b l m : List SlotPtr}
  {skip : Option SlotPtr → K SlotPtr} {other : SlotPtr → K Unit}

/-! ### Walks over zombies -/

/-- From `s` the links lead over the zombies `m` to the slot `e`, which holds a capability. -/
inductive Walk (k : Kernel) : SlotPtr → List SlotPtr → SlotPtr → Prop
  | holder {s : SlotPtr} (holds : (k.cap s).Names) : Walk k s [] s
  | zombie {s n e : SlotPtr} {m : List SlotPtr} (zombie : k.cap s = .zombie)
      (next : (k.slots s).next = some n) (rest : Walk k n m e) : Walk k s (s :: m) e

theorem Walk.names (h : Walk k s m e) : (k.cap e).Names := by
  induction h with
  | holder hs => exact hs
  | zombie _ _ _ ih => exact ih

/-- A list gives the walk over the zombies at its front. -/
theorem walk_of_list (hm : ∀ z ∈ m, k.cap z = .zombie) (he : (k.cap e).Names) :
    ∀ a x, a ++ (m ++ e :: b) ∈ k.chains → (m ++ [e]).head? = some x → Walk k x m e := by
  induction m with
  | nil =>
    intro a x _ hx
    obtain rfl : e = x := by simpa using hx
    exact .holder he
  | cons z m ih =>
    intro a x hl hx
    obtain rfl : z = x := by simpa using hx
    obtain ⟨n, hn⟩ : ∃ n, (m ++ [e]).head? = some n := by cases m <;> simp
    have hl' : a ++ z :: (m ++ e :: b) ∈ k.chains := hl
    have hnext : (k.slots z).next = some n := by
      rw [next_eq hl', ← hn]
      cases m <;> rfl
    refine .zombie (hm z (by simp)) hnext ?_
    exact ih (fun z hz => hm z (by simp [hz])) (a ++ [z]) n (by simpa using hl') hn

theorem exists_walk (hT : TailInv k.store) (hl : a ++ x :: b ∈ k.chains) :
    ∃ m e b', x :: b = m ++ e :: b' ∧ Walk k x m e := by
  obtain ⟨z, hz⟩ : ∃ z, (a ++ x :: b).getLast? = some z := by
    rw [List.getLast?_append, List.getLast?_cons, Option.some_or]
    exact ⟨_, rfl⟩
  have hlast : k.cap z ≠ .zombie := hT _ hl z hz
  have hmem : z ∈ x :: b := by
    rcases getLast?_split.mp hz with ⟨-, rfl⟩ | hz
    · simp
    · simp [List.mem_of_getLast? hz]
  -- The last slot is no zombie, so there is a first one that is none.
  obtain ⟨u, hu⟩ : ∃ u, firstHolder k.cap (x :: b) = some u :=
    Option.isSome_iff_exists.mp (List.find?_isSome.mpr ⟨z, hmem, by simpa using hlast⟩)
  obtain ⟨m, b', hsplit, hm, hne⟩ := firstHolder_split hu
  rw [hsplit] at hl
  refine ⟨m, u, b', hsplit, walk_of_list hm ⟨hl.2.2 u (by simp), hne⟩ a x hl ?_⟩
  have hhead : (x :: b).head? = (m ++ u :: b').head? := by rw [hsplit]
  rw [List.head?_cons] at hhead
  rw [hhead]
  cases m <;> rfl

/-! ### The loop -/

/-- What skips zombies where there is a way over them, within the bound on the turns of a loop.
It may do anything elsewhere, and with a null slot. -/
def Skips (cfg : Config) (skip : Option SlotPtr → K SlotPtr) : Prop :=
  ∀ k s m e, Walk k s m e → m.length < cfg.loopBound → skip (some s) (.debug cfg) k = .ok e k

theorem skipZombies_walk (h : Walk k s m e) (hbound : m.length < cfg.loopBound) :
    skipZombies s (.debug cfg) k = .ok e k := by
  have hwp : wp (skipZombies s) (.debug cfg) (fun u k' => u = e ∧ k' = k) (fun _ _ => False) k := by
    unfold skipZombies kloop
    rw [wp_bind, wp_ask]
    -- Each turn takes one zombie of the walk.
    refine wp_loop_list (fun m s k' => k' = k ∧ Walk k s m e) ?_ ?_ m _ s k ⟨rfl, h⟩ hbound
    · rintro z rest s k' ⟨rfl, hwalk⟩
      cases hwalk with
      | zombie hz hnext hrest =>
        rw [wp_bind, wp_get, wp_ite, if_pos (by rw [hz]; rfl), wp_bind, wp_get, wp_bind, wp_deref, hnext]
        exact ⟨rfl, hrest⟩
    · rintro s k' ⟨rfl, hwalk⟩
      cases hwalk with
      | holder hs =>
        have htype : getCapType (k'.cap e) ≠ .zombie := fun heq => hs.2 (by
          cases hc : k'.cap e <;> simp_all [getCapType])
        rw [wp_bind, wp_get, wp_ite, if_neg htype]
        exact ⟨rfl, rfl⟩
  obtain ⟨u, k', hrun, rfl, rfl⟩ := wp_returns hwp
  exact hrun

theorem skips_skipFrom : Skips cfg skipFrom := fun _ _ _ _ h hbound => skipZombies_walk h hbound

/-! ### The code agrees -/

/-- A state in order, in which a loop may turn once for each slot of a list. -/
structure Walkable (cfg : Config) (k : Kernel) : Prop where
  inv : StoreInv k ∅
  tail : TailInv k.store
  fits : ∀ l ∈ k.chains, l.length ≤ cfg.loopBound

/-- The removals of `revoke_cap` leave nothing that is longer. -/
theorem Revoking.walkable (hk : Walkable cfg k) (hl : a ++ x :: b ∈ k.chains)
    (h : Revoking k a x b m k₁) : Walkable cfg k₁ where
  inv := h.inv
  tail := by
    obtain ⟨acts, -, hmoves⟩ := h.moves
    exact hk.tail.moves hk.inv.storeOk hmoves
  fits l hl₁ := by
    rcases (h.chains l).mp hl₁ with ⟨hl₁, -⟩ | rfl
    · exact hk.fits l hl₁
    · have hfits := hk.fits _ hl
      have hleft := h.left.length_le
      simp only [List.length_append, List.length_cons] at hfits ⊢
      omega

/-- What is removed leaves parts of the lists. -/
theorem Trans.sublist {S S' : CapStore} {act : Act} (ht : Trans S act S') (hact : act.IsRemoval) :
    ∀ l ∈ S'.chains, ∃ l' ∈ S.chains, l.Sublist l' := by
  have hrewrite : ∀ {x new l l'}, l' ∈ S.chains → new.Sublist l' →
      l ∈ Chains.rewrite S.chains x new → ∃ l' ∈ S.chains, l.Sublist l' := by
    rintro x new l l' hl' hnew (⟨hl, -, -⟩ | ⟨rfl, -⟩)
    · exact ⟨l, hl, List.Sublist.refl l⟩
    · exact ⟨l', hl', hnew⟩
  cases ht with
  | undelegate hz hm he hl =>
    refine fun l hin => hrewrite hl ?_ hin
    refine List.Sublist.append_left (List.Sublist.cons_cons _ ?_) _
    exact (List.sublist_cons_self _ _).trans (List.sublist_append_right _ _)
  | destroy hs hl =>
    exact fun l hin => hrewrite hl (List.Sublist.append_left (List.sublist_cons_self _ _) _) hin
  | drop hs hl =>
    exact fun l hin => hrewrite hl (List.Sublist.append_left (List.sublist_cons_self _ _) _) hin
  | _ => exact absurd hact id

theorem Removes.walkable (hk : Walkable cfg k) (h : Removes k k₁) : Walkable cfg k₁ := by
  obtain ⟨acts, hacts, hdoes⟩ := h
  refine ⟨hdoes.inv, hk.tail.moves hk.inv.storeOk hdoes.moves, fun l hl => ?_⟩
  have hsublist : ∀ l ∈ k₁.chains, ∃ l' ∈ k.chains, l.Sublist l' :=
    hdoes.moves.invariant_of (P := Act.IsRemoval)
      (I := fun S => ∀ l ∈ S.chains, ∃ l' ∈ k.chains, l.Sublist l')
      (fun S act S' hact hS ht l hl => by
        obtain ⟨l', hl', hsub⟩ := ht.sublist hact l hl
        obtain ⟨l₀, hl₀, hsub₀⟩ := hS l' hl'
        exact ⟨l₀, hl₀, hsub.trans hsub₀⟩) hacts fun l hl => ⟨l, hl, List.Sublist.refl l⟩
  obtain ⟨l', hl', hsub⟩ := hsublist l hl
  exact hsub.length_le.trans (hk.fits l' hl')

section Agree

variable (hskip : Skips cfg skip)

include hskip

theorem skip_eq (h : Walkable cfg k) (hs : k.cap s ≠ .null) :
    ∃ e, skip (some s) (.debug cfg) k = .ok e k ∧ skipZombies s (.debug cfg) k = .ok e k := by
  obtain ⟨a, b, hl⟩ := h.inv.exists_chain hs
  obtain ⟨m, e, b', hsplit, hwalk⟩ := exists_walk h.tail hl
  have hfits := h.fits _ hl
  rw [hsplit, List.length_append, List.length_append, List.length_cons] at hfits
  have hbound : m.length < cfg.loopBound := by omega
  exact ⟨e, hskip k s m e hwalk hbound, skipZombies_walk hwalk hbound⟩

theorem isSameObjectWith_eq (h : Walkable cfg k) (hx : k.cap x ≠ .null) (hy : k.cap y ≠ .null) :
    ∃ same, isSameObjectWith skip x y (.debug cfg) k = .ok same k ∧
      isSameObject x y (.debug cfg) k = .ok same k := by
  obtain ⟨u, hu, hu'⟩ := skip_eq hskip h hx
  obtain ⟨v, hv, hv'⟩ := skip_eq hskip h hy
  unfold isSameObjectWith isSameObject
  rw [bind_of_ok hu, bind_of_ok hu', bind_of_ok hv, bind_of_ok hv']
  by_cases huv : u = v
  · rw [if_pos huv]
    exact ⟨_, rfl, rfl⟩
  · rw [if_neg huv]
    exact ⟨_, rfl, rfl⟩

theorem checkLastWith_eq (h : Walkable cfg k) (hl : a ++ s :: b ∈ k.chains) :
    checkLastWith skip s (.debug cfg) k = checkLast s (.debug cfg) k := by
  refine bind_agree rfl ?_
  rw [wp_get, next_eq hl]
  cases b with
  | nil => rfl
  | cons n b =>
    obtain ⟨same, hsame, hsame'⟩ :=
      isSameObjectWith_eq hskip h (hl.2.2 s (by simp)) (hl.2.2 n (by simp))
    show (isSameObjectWith skip s n >>= _) _ _ = (isSameObject s n >>= _) _ _
    rw [bind_of_ok hsame, bind_of_ok hsame']

theorem destroyObjectWith_eq (h : Walkable cfg k) (hn : (k.cap s).Names) :
    destroyObjectWith skip other s (.debug cfg) k = destroyObject s (.debug cfg) k := by
  obtain ⟨a, b, hl⟩ := h.inv.exists_chain hn.1
  have hlast := checkLastWith_eq hskip h hl
  refine bind_agree rfl ?_
  rw [wp_get]
  cases hc : k.cap s with
  | null => exact absurd hc hn.1
  | zombie => exact absurd hc hn.2
  | memory => rfl
  | task | endpoint | pageTable | virtPage | capSpace | id =>
    exact bind_agree hlast (wp_any (fun _ _ => rfl) fun _ _ => trivial)

theorem destroyCapSlotWith_eq (h : Walkable cfg k) (hl : a ++ [s] ∈ k.chains) :
    destroyCapSlotWith skip other s (.debug cfg) k = destroyCapSlot s (.debug cfg) k := by
  have hn : (k.cap s).Names := ⟨hl.2.2 s (by simp), h.tail _ hl s (by simp)⟩
  have hdestroy : destroyObjectWith skip other s (.debug cfg) k = destroyObject s (.debug cfg) k :=
    destroyObjectWith_eq hskip h hn
  obtain ⟨t, ht⟩ := h.inv.owner_of_cap hn.1
  have hrest : ∀ {m m' : K Unit} {f : Unit → K Unit}, m (.debug cfg) k = m' (.debug cfg) k →
      (m >>= f) (.debug cfg) k = (m' >>= f) (.debug cfg) k := fun hsame =>
    bind_agree hsame (wp_any (fun _ _ => rfl) fun _ _ => trivial)
  refine bind_agree rfl ?_
  rw [wp_get]
  refine bind_agree rfl ?_
  rw [wp_kassert]
  split
  · refine bind_agree rfl ?_
    rw [wp_checkSlotTask, Kernel.owner_slotTask ht]
    simp only [if_neg (h.inv.inUse_of_owner ht)]
    refine bind_agree rfl ?_
    rw [wp_get, prev_eq hl]
    cases ha : a.getLast? with
    | none => exact hrest hdestroy
    | some p =>
      obtain ⟨a', rfl⟩ := List.getLast?_eq_some_iff.mp ha
      refine bind_agree rfl ?_
      rw [wp_get]
      split
      · rfl
      · obtain ⟨same, hsame, hsame'⟩ := isSameObjectWith_eq hskip h (hl.2.2 p (by simp)) hn.1
        rw [bind_of_ok hsame, bind_of_ok hsame']
        split
        · exact hrest hdestroy
        · rfl
  · trivial

/-- The loop of `revoke_cap` over the slots behind a memory capability. -/
theorem backToWith_eq (h : Walkable cfg k) (hl : a ++ x :: b ∈ k.chains) (hx : k.cap x ≠ .zombie)
    (hz : (x :: b).getLast? = some z) :
    backTo x (destroyCapSlotWith skip other) z (.debug cfg) k
      = backTo x destroyCapSlot z (.debug cfg) k := by
  have hxb : x ∉ b := (h.inv.storeOk.nodup hl).2.1
  symm
  refine kloop_agree (fun s k₁ => ∃ m, Revoking k a x b m k₁ ∧ (x :: m).getLast? = some s)
    ⟨b, .start h.inv hl, hz⟩ ?_
  rintro s k₁ ⟨m, hk₁, hs⟩
  refine ⟨?_, wp_mono (wp_revokeTurn h.inv h.tail hl hx hxb hk₁ hs) (fun c k₂ hc => ?_)
    fun _ _ _ => trivial⟩
  · by_cases hsx : s = x
    · rw [if_pos hsx, if_pos hsx]
    · rw [if_neg hsx, if_neg hsx]
      obtain ⟨m', rfl⟩ : ∃ m', m = m' ++ [s] := by
        rcases (getLast?_split (a := [])).mp hs with ⟨-, heq⟩ | hm
        · exact absurd heq.symm hsx
        · exact List.getLast?_eq_some_iff.mp hm
      have hlist : (a ++ x :: m') ++ [s] ∈ k₁.chains := by
        rw [hk₁.chains]
        exact Or.inr (by simp)
      have hsame : destroyCapSlotWith skip other s (.debug cfg) k₁
          = destroyCapSlot s (.debug cfg) k₁ :=
        destroyCapSlotWith_eq hskip (hk₁.walkable h hl) hlist
      refine bind_agree rfl ?_
      rw [wp_get]
      exact bind_agree hsame.symm (wp_any (fun _ _ => rfl) fun _ _ => trivial)
  · cases c with
    | inl s' => exact hc
    | inr _ => trivial

theorem revokeCapWith_eq (h : Walkable cfg k) :
    revokeCapWith skip other x (.debug cfg) k = revokeCap x (.debug cfg) k := by
  refine bind_agree rfl ?_
  rw [wp_get]
  split
  · rfl
  · rename_i htype
    have hnull : k.cap x ≠ .null := by
      intro heq
      simp [heq, getCapType] at htype
    obtain ⟨t, ht⟩ := h.inv.owner_of_cap hnull
    obtain ⟨a, b, hl⟩ := h.inv.exists_chain hnull
    refine bind_agree rfl ?_
    rw [wp_checkSlotTask, Kernel.owner_slotTask ht]
    simp only [if_neg (h.inv.inUse_of_owner ht)]
    split
    · rename_i hmem
      have hx : k.cap x ≠ .zombie := by
        intro heq
        simp [heq, getCapType] at hmem
      refine bind_agree rfl (wp_lastSlot (fun _ _ _ => trivial) hl fun z hz => ?_)
      exact bind_agree (backToWith_eq hskip h hl hx hz) (wp_any (fun _ _ => rfl) fun _ _ => trivial)
    · rename_i hmem
      have hz : k.cap x = .zombie := by
        cases hc : k.cap x <;> simp_all [getCapType]
      -- A zombie is not the last slot of its list.
      obtain ⟨n, b', rfl⟩ : ∃ n b', b = n :: b' := by
        cases b with
        | nil => exact absurd hz (h.tail _ hl x (by simp))
        | cons n b' => exact ⟨n, b', rfl⟩
      refine bind_agree rfl ?_
      rw [wp_get, next_eq hl, List.head?_cons]
      obtain ⟨e, he, he'⟩ := skip_eq hskip h (hl.2.2 n (by simp))
      have hderef : deref (some n) (.debug cfg) k = .ok n k := rfl
      rw [bind_of_ok he, bind_of_ok hderef, bind_of_ok he']

theorem hasSameNeighborWith_eq (h : Walkable cfg k) (hl : a ++ x :: b ∈ k.chains) :
    ∃ same, hasSameNeighborWith skip x (.debug cfg) k = .ok same k ∧
      hasSameNeighbor x (.debug cfg) k = .ok same k := by
  have hx : k.cap x ≠ .null := hl.2.2 x (by simp)
  have hneighbor : ∀ neighbor, (∀ n, neighbor = some n → k.cap n ≠ .null) →
      ∃ same, isSameNeighborWith skip neighbor x (.debug cfg) k = .ok same k ∧
        isSameNeighbor neighbor x (.debug cfg) k = .ok same k := by
    intro neighbor hn
    cases neighbor with
    | none => exact ⟨false, rfl, rfl⟩
    | some n => exact isSameObjectWith_eq hskip h (hn n rfl) hx
  obtain ⟨prev, hprev, hprev'⟩ := hneighbor (k.slots x).prev fun p hp => by
    rw [prev_eq hl] at hp
    exact hl.2.2 p (by simp [List.mem_of_getLast? hp])
  obtain ⟨next, hnext, hnext'⟩ := hneighbor (k.slots x).next fun n hn => by
    rw [next_eq hl] at hn
    exact hl.2.2 n (by simp [List.mem_of_head? hn])
  have hget : (get : K Kernel) (.debug cfg) k = .ok k k := rfl
  unfold hasSameNeighborWith hasSameNeighbor
  rw [bind_of_ok hget, bind_of_ok hget, bind_of_ok hprev, bind_of_ok hprev']
  cases prev with
  | true => exact ⟨true, rfl, rfl⟩
  | false => exact ⟨next, hnext, hnext'⟩

theorem destroyRevokedWith_eq (h : Walkable cfg k) (hn : (k.cap x).Names) :
    destroyRevokedWith skip other x (.debug cfg) k = destroyRevoked x (.debug cfg) k := by
  obtain ⟨a, b, hl⟩ := h.inv.exists_chain hn.1
  obtain ⟨same, hsame, hsame'⟩ := hasSameNeighborWith_eq hskip h hl
  unfold destroyRevokedWith destroyRevoked
  rw [bind_of_ok hsame, bind_of_ok hsame']
  split
  · exact bind_agree (destroyObjectWith_eq hskip h hn) (wp_any (fun _ _ => rfl) fun _ _ => trivial)
  · refine bind_agree rfl ?_
    rw [wp_get, prev_eq hl]
    cases ha : a.getLast? with
    | none => rfl
    | some p =>
      refine bind_agree rfl ?_
      rw [wp_get]
      split
      · have hp : k.cap p ≠ .null := hl.2.2 p (by simp [List.mem_of_getLast? ha])
        obtain ⟨same, hsame, hsame'⟩ := isSameObjectWith_eq hskip h hp hn.1
        rw [bind_of_ok hsame, bind_of_ok hsame']
        refine bind_agree rfl ?_
        rw [wp_kassert]
        split
        · exact revokeCapWith_eq hskip h
        · trivial
      · rfl

theorem destroyCapWith_eq (h : Walkable cfg k) :
    destroyCapWith skip other x (.debug cfg) k = destroyCap x (.debug cfg) k := by
  refine bind_agree rfl ?_
  rw [wp_get]
  split
  · rfl
  · rename_i hnull
    split
    · refine bind_agree (revokeCapWith_eq hskip h) (wp_run (fun r k₁ hrun => ?_) fun _ _ _ => trivial)
      have hrevokes : Revokes k x r k₁ :=
        wp_ok (wp_revokeCap h.inv h.tail) ((revokeCapWith_eq hskip h).symm.trans hrun)
      cases r with
      | false => rfl
      | true => exact destroyRevokedWith_eq hskip (hrevokes.removes.walkable h) hrevokes.names
    · rename_i htype
      refine destroyRevokedWith_eq hskip h ⟨fun heq => hnull ?_, fun heq => htype ?_⟩
      · rw [heq]
        rfl
      · rw [heq]
        exact Or.inr rfl

end Agree

end Caprese
