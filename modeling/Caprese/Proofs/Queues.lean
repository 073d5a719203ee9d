import Caprese.Kernel.Boot
import Caprese.Proofs.Rendezvous

/-!
# `Caprese.Proofs.Queues`: first come, first served

The ready queue and the waiting queues are lists of distinct tasks, at whose end a task joins
and whose first task `pop_ready_task` takes. `Stands k A` says that the links and the ends
that the state `k` stores stand for the lists `A`. Every sequence of pushes of tasks that are in no
queue and of removals of tasks that are in one keeps it, wherever in its queue a task stands
that is removed, and whatever else happens in between (`queues_in_order`).
-/

set_option autoImplicit false

namespace Caprese

open Lib Prog
open scoped List

/-- The queues of tasks: the ready queue, and two for each endpoint. -/
inductive Line where
  | ready
  | waiting (endpoint : EndpointPtr) (side : QueueSide)
deriving DecidableEq, Repr

namespace Line

/-- The link fields that a queue runs over. The waiting queues share theirs. -/
def links (k : Kernel) : Line → Links TaskPtr
  | .ready => k.readyLinks
  | .waiting _ _ => k.waitingLinks

/-- Head and tail. -/
def ends (k : Kernel) : Line → TaskQueue
  | .ready => k.readyQueue
  | .waiting endpoint side => (k.endpoints endpoint).queue side

/-- The state that a task in the queue has to be in. -/
def state : Line → TaskState
  | .ready => .ready
  | .waiting _ _ => .waiting

/-- Two queues over the same link fields. -/
def Shares (q q' : Line) : Prop := q.state = q'.state

instance (q q' : Line) : Decidable (q.Shares q') := inferInstanceAs (Decidable (_ = _))

def push (task : TaskPtr) : Line → K Unit
  | .ready => pushReadyQueue task
  | .waiting endpoint side => pushWaitingQueue endpoint side task

def remove (task : TaskPtr) : Line → K Unit
  | .ready => removeReadyQueue task
  | .waiting endpoint side => removeWaitingQueue endpoint side task

end Line

/-- Who stands in which queue, and in which order. -/
abbrev Lines := Line → List TaskPtr

/-- A task that is in no queue over these link fields. -/
def Lines.Unqueued (A : Lines) (q : Line) (task : TaskPtr) : Prop :=
  ∀ q', q.Shares q' → task ∉ A q'

/-- The operations on queues. -/
inductive QueueOp where
  | push (line : Line) (task : TaskPtr)
  | remove (line : Line) (task : TaskPtr)
  | pop
deriving DecidableEq, Repr

namespace QueueOp

/-- The function behind an operation. Only `pop_ready_task` answers with a task. -/
def serve : QueueOp → K (Option TaskPtr)
  | .push line task => do line.push task; return none
  | .remove line task => do line.remove task; return none
  | .pop => popReadyTask

/-- What an operation asks for: a task that is pushed is unqueued, one that is removed is in the
queue, and the task has the state that the functions assert. -/
def Allowed (k : Kernel) (A : Lines) : QueueOp → Prop
  | .push line task => (k.tasks task).state = line.state ∧ A.Unqueued line task
  | .remove line task => (k.tasks task).state = line.state ∧ task ∈ A line
  | .pop => ∀ task, (A .ready).head? = some task → (k.tasks task).state = .ready

/-- The lists after an operation. -/
def after (A : Lines) : QueueOp → Lines
  | .push line task => upd A line (A line ++ [task])
  | .remove line task => upd A line ((A line).erase task)
  | .pop => upd A .ready (A .ready).tail

/-- The answer of an operation. -/
def answer (A : Lines) : QueueOp → Option TaskPtr
  | .pop => (A .ready).head?
  | _ => none

end QueueOp

/-- The links and the ends of the queues stand for the lists `A`. -/
structure Stands (k : Kernel) (A : Lines) : Prop where
  rep : ∀ q, Queue.Rep (q.links k) (q.ends k) (A q)
  one : ∀ q q' t, q.Shares q' → t ∈ A q → t ∈ A q' → q = q'
  alone : ∀ q t, A.Unqueued q t → (q.links k).IsList [t]

/-! ### One operation -/

variable {k k' : Kernel} {A A' : Lines} {env : Env} {t u : TaskPtr} {q : Line} {op : QueueOp}

/-- The tasks of a state, with the lists for its queues. -/
def Lines.desk (A : Lines) (k : Kernel) : Desk where
  tasks task := (k.tasks task).view
  ready := A .ready
  waiting endpoint side := A (.waiting endpoint side)
  current := k.currentTask
  idle := k.idleTask
  deliveries := k.deliveries

theorem Lines.unqueued_ready : A.Unqueued .ready t ↔ t ∉ A .ready := by
  constructor
  · exact fun h => h .ready rfl
  · intro h q' hq'
    cases q' with
    | ready => exact h
    | waiting => exact nomatch hq'

theorem Lines.unqueued_waiting {e : EndpointPtr} {s : QueueSide} :
    A.Unqueued (.waiting e s) t ↔ ¬ (A.desk k).Queued t := by
  constructor
  · rintro h ⟨e', s', ht⟩
    exact h (.waiting e' s') rfl ht
  · intro h q' hq' ht
    cases q' with
    | ready => exact nomatch hq'
    | waiting e' s' => exact h ⟨e', s', ht⟩

theorem stands_iff : Stands k A ↔ Shows k (A.desk k) := by
  constructor
  · intro h
    refine ⟨fun _ => rfl, rfl, rfl, rfl, fun e s => h.rep (.waiting e s),
      fun e s e' s' t ht ht' => ?_, fun t ht => ?_, h.rep .ready, fun t ht => ?_⟩
    · have heq := h.one (.waiting e s) (.waiting e' s') t rfl ht ht'
      obtain ⟨rfl, rfl⟩ := Line.waiting.inj heq
      exact ⟨rfl, rfl⟩
    · exact h.alone (.waiting 0 .sender) t (Lines.unqueued_waiting.mpr ht)
    · exact h.alone .ready t (Lines.unqueued_ready.mpr ht)
  · intro h
    refine ⟨fun q => ?_, fun q q' t hq ht ht' => ?_, fun q t ht => ?_⟩
    · cases q with
      | ready => exact h.ready
      | waiting e s => exact h.waiting e s
    · cases q with
      | ready =>
        cases q' with
        | ready => rfl
        | waiting => exact nomatch hq
      | waiting e s =>
        cases q' with
        | ready => exact nomatch hq
        | waiting e' s' =>
          obtain ⟨rfl, rfl⟩ := h.one e s e' s' t ht ht'
          rfl
    · cases q with
      | ready => exact h.readyAlone t (Lines.unqueued_ready.mp ht)
      | waiting e s => exact h.alone t (Lines.unqueued_waiting.mp ht)

/-- What an operation did: its answer, the lists, and no other change of a task. -/
structure Served (k : Kernel) (A : Lines) (op : QueueOp) (answer : Option TaskPtr) (k' : Kernel) :
    Prop where
  answer : answer = op.answer A
  stands : Stands k' (op.after A)
  tasks : ∀ t, (k'.tasks t).view = (k.tasks t).view

theorem served_of_shows {D : Desk} (h : Shows k' D) (htasks : ∀ t, D.tasks t = (k.tasks t).view)
    (hready : D.ready = op.after A .ready)
    (hwaiting : ∀ e s, D.waiting e s = op.after A (.waiting e s)) :
    Served k A op (op.answer A) k' := by
  refine ⟨rfl, stands_iff.mpr ?_, fun t => (h.tasks t).trans (htasks t)⟩
  have hdesk : (op.after A).desk k' = D := by
    unfold Lines.desk
    obtain ⟨tasks, ready, waiting, current, idle, deliveries⟩ := D
    simp only [Desk.mk.injEq]
    exact ⟨funext h.tasks, hready.symm, funext fun e => funext fun s => (hwaiting e s).symm,
      h.current, h.idle, h.deliveries⟩
  rwa [hdesk]

/-- The ready queue is `l` now. -/
theorem served_ready {l : List TaskPtr} (hafter : op.after A = upd A .ready l)
    (h : Shows k' { A.desk k with ready := l }) : Served k A op (op.answer A) k' := by
  refine served_of_shows h (fun _ => rfl) ?_ fun e s => ?_
  · rw [hafter, upd_same]
  · rw [hafter, upd_ne _ _ (by simp)]
    rfl

/-- One of the waiting queues is `l` now. -/
theorem served_waiting {e : EndpointPtr} {s : QueueSide} {l : List TaskPtr}
    (hafter : op.after A = upd A (.waiting e s) l) (h : Shows k' ((A.desk k).setWaiting e s l)) :
    Served k A op (op.answer A) k' := by
  refine served_of_shows h (fun _ => rfl) ?_ fun e' s' => ?_
  · rw [hafter, upd_ne _ _ (by simp)]
    rfl
  · rw [hafter, Desk.setWaiting_waiting, upd_apply]
    simp only [Line.waiting.injEq]
    rfl

theorem wp_pushLine {Q : Option TaskPtr → Kernel → Prop} {E : Stop → Kernel → Prop}
    (h : Stands k A) (hallowed : (QueueOp.push q t).Allowed k A)
    (hQ : ∀ k', Served k A (.push q t) none k' → Q none k') :
    wp (QueueOp.serve (.push q t)) env Q E k := by
  obtain ⟨hstate, hunqueued⟩ := hallowed
  have hshows : Shows k (A.desk k) := stands_iff.mp h
  show wp (q.push t >>= fun _ => pure none) env Q E k
  rw [wp_bind]
  cases q with
  | ready =>
    refine hshows.wp_pushReadyQueue (Lines.unqueued_ready.mp hunqueued)
      (fun _ hs => absurd hstate hs) fun k' hk' => hQ k' ?_
    exact served_ready rfl hk'
  | waiting e s =>
    refine hshows.wp_pushWaitingQueue (Lines.unqueued_waiting.mp hunqueued)
      (fun _ hs => absurd hstate hs) fun k' hk' => hQ k' ?_
    exact served_waiting rfl hk'

theorem wp_removeLine {Q : Option TaskPtr → Kernel → Prop} {E : Stop → Kernel → Prop}
    (h : Stands k A) (hallowed : (QueueOp.remove q t).Allowed k A)
    (hQ : ∀ k', Served k A (.remove q t) none k' → Q none k') :
    wp (QueueOp.serve (.remove q t)) env Q E k := by
  obtain ⟨hstate, hmem⟩ := hallowed
  have hshows : Shows k (A.desk k) := stands_iff.mp h
  show wp (q.remove t >>= fun _ => pure none) env Q E k
  rw [wp_bind]
  cases q with
  | ready =>
    refine hshows.wp_removeReadyQueue hmem hstate fun k' hk' => hQ k' ?_
    exact served_ready rfl hk'
  | waiting e s =>
    refine hshows.wp_removeWaitingQueue hmem (fun _ hs => absurd hstate hs) fun k' hk' => hQ k' ?_
    exact served_waiting rfl hk'

theorem wp_popLine {Q : Option TaskPtr → Kernel → Prop} {E : Stop → Kernel → Prop}
    (h : Stands k A) (hallowed : QueueOp.pop.Allowed k A)
    (hQ : ∀ k', Served k A .pop (A .ready).head? k' → Q (A .ready).head? k') :
    wp (QueueOp.serve .pop) env Q E k := by
  have hshows : Shows k (A.desk k) := stands_iff.mp h
  have hhead : k.readyQueue.head = (A .ready).head? := (h.rep .ready).head
  have hserved : ∀ {k' l}, (A .ready).tail = l → Shows k' { A.desk k with ready := l } →
      Served k A .pop (QueueOp.pop.answer A) k' := by
    intro k' l hl hk'
    refine served_ready ?_ hk'
    show upd A .ready (A .ready).tail = _
    rw [hl]
  unfold QueueOp.answer at hserved
  show wp popReadyTask env Q E k
  unfold popReadyTask
  rw [wp_bind, wp_get, hhead]
  cases hready : A .ready with
  | nil =>
    rw [hready] at hQ hserved
    refine hQ k (hserved rfl ?_)
    show Shows k { A.desk k with ready := [] }
    rw [← hready]
    exact hshows
  | cons t l =>
    have hmem : t ∈ A .ready := by simp [hready]
    have hstate : (k.tasks t).state = .ready := hallowed t (by rw [hready]; rfl)
    show wp (removeReadyQueue t >>= fun _ => pure (some t)) env Q E k
    rw [wp_bind]
    refine hshows.wp_removeReadyQueue hmem hstate fun k' hk' => ?_
    have herase : (A.desk k).ready.erase t = l := by
      show (A .ready).erase t = l
      rw [hready, List.erase_cons_head]
    unfold Desk.dropReady at hk'
    rw [herase] at hk'
    rw [hready] at hQ hserved
    exact hQ k' (hserved rfl hk')

/-- An operation that is allowed returns: no assertion fails, and no null link is followed. -/
theorem Stands.serve (h : Stands k A) (env : Env) (hallowed : op.Allowed k A) :
    ∃ k', op.serve env k = .ok (op.answer A) k' ∧ Served k A op (op.answer A) k' := by
  have hwp : wp op.serve env (fun answer k' => answer = op.answer A ∧ Served k A op answer k')
      (fun _ _ => False) k := by
    cases op with
    | push q t => exact wp_pushLine h hallowed fun k' hk' => ⟨rfl, hk'⟩
    | remove q t => exact wp_removeLine h hallowed fun k' hk' => ⟨rfl, hk'⟩
    | pop => exact wp_popLine h hallowed fun k' hk' => ⟨rfl, hk'⟩
  obtain ⟨answer, k', hrun, rfl, hserved⟩ := wp_returns hwp
  exact ⟨k', hrun, hserved⟩

/-! ### Sequences of operations -/

/-- Everything but the queues may change between two operations, the states of tasks included. -/
def SameQueues (k k' : Kernel) : Prop := ∀ q : Line, q.links k' = q.links k ∧ q.ends k' = q.ends k

/-- An operation, or something else that the kernel does. -/
inductive QueueStep (env : Env) : Kernel × Lines → Option QueueOp → Kernel × Lines → Prop
  | serve {k k' : Kernel} {A : Lines} {op : QueueOp} {answer : Option TaskPtr}
      (allowed : op.Allowed k A) (run : op.serve env k = .ok answer k') :
      QueueStep env (k, A) (some op) (k', op.after A)
  | other {k k' : Kernel} {A : Lines} (same : SameQueues k k') :
      QueueStep env (k, A) none (k', A)

/-- All queues are empty. -/
structure Kernel.NoQueues (k : Kernel) : Prop where
  ends : ∀ q : Line, q.ends k = ⟨none, none⟩
  links : ∀ (q : Line) t, (q.links k).prev t = none ∧ (q.links k).next t = none

theorem Kernel.NoQueues.stands (h : k.NoQueues) : Stands k fun _ => [] where
  rep q := by
    rw [h.ends q]
    exact .empty
  one _ _ _ _ ht := absurd ht List.not_mem_nil
  alone q t _ := Links.isList_singleton.mpr (h.links q t)

theorem Stands.same (h : Stands k A) (hsame : SameQueues k k') : Stands k' A where
  rep q := by
    rw [(hsame q).1, (hsame q).2]
    exact h.rep q
  one := h.one
  alone q t ht := by
    rw [(hsame q).1]
    exact h.alone q t ht

theorem QueueStep.stands {c c' : Kernel × Lines} {act : Option QueueOp}
    (hstep : QueueStep env c act c') (h : Stands c.1 c.2) : Stands c'.1 c'.2 := by
  cases hstep with
  | serve hallowed hrun =>
    obtain ⟨k₁, hrun₁, hserved⟩ := h.serve env hallowed
    obtain ⟨-, rfl⟩ := Outcome.ok.inj (hrun.symm.trans hrun₁)
    exact hserved.stands
  | other hsame => exact h.same hsame

/-! ### What the lists say -/

/-- The queues are lists of distinct tasks: head and tail are the ends, the links lead from a task
to its neighbours and are inverse to each other, and a task in no queue has null links. -/
structure LinedUp (k : Kernel) (A : Lines) : Prop where
  distinct : ∀ q, (A q).Nodup
  head : ∀ q : Line, (q.ends k).head = (A q).head?
  tail : ∀ q : Line, (q.ends k).tail = (A q).getLast?
  neighbours : ∀ (q : Line) a t b, A q = a ++ t :: b →
    (q.links k).prev t = a.getLast? ∧ (q.links k).next t = b.head?
  inverse : ∀ (q : Line) t u, (q.links k).next t = some u ↔ (q.links k).prev u = some t
  unqueued : ∀ (q : Line) t, A.Unqueued q t →
    (q.links k).prev t = none ∧ (q.links k).next t = none

theorem Line.Shares.links {q q' : Line} (h : q.Shares q') (k : Kernel) : q'.links k = q.links k := by
  cases q with
  | ready =>
    cases q' with
    | ready => rfl
    | waiting => exact nomatch h
  | waiting =>
    cases q' with
    | ready => exact nomatch h
    | waiting => rfl

theorem Stands.exists_line (h : Stands k A)
    (ht : ¬ ((q.links k).prev t = none ∧ (q.links k).next t = none)) :
    ∃ q', q'.links k = q.links k ∧ t ∈ A q' := by
  by_contra hno
  refine ht (Links.isList_singleton.mp (h.alone q t fun q' hq' ht' => hno ⟨q', ?_, ht'⟩))
  exact hq'.links k

theorem Stands.linedUp (h : Stands k A) : LinedUp k A where
  distinct q := (h.rep q).list.nodup
  head q := (h.rep q).head
  tail q := (h.rep q).tail
  neighbours q a t b hq := by
    have hlist := (h.rep q).list
    rw [hq] at hlist
    exact ⟨hlist.prev_eq, hlist.next_eq⟩
  inverse q t u := by
    constructor
    · intro hn
      obtain ⟨q', hlinks, ht⟩ := h.exists_line (q := q) (t := t) (by simp [hn])
      have hlist := (h.rep q').list
      rw [hlinks] at hlist
      exact (hlist.next_iff_prev ht (hlist.next_mem ht hn)).mp hn
    · intro hp
      obtain ⟨q', hlinks, hu⟩ := h.exists_line (q := q) (t := u) (by simp [hp])
      have hlist := (h.rep q').list
      rw [hlinks] at hlist
      exact (hlist.next_iff_prev (hlist.prev_mem hu hp) hu).mpr hp
  unqueued q t ht := Links.isList_singleton.mp (h.alone q t ht)

/-- Who stood in front of another task still does, and who came stands behind all others. -/
structure InTurn (A : Lines) (op : QueueOp) : Prop where
  ahead : ∀ q t u, [t, u] <+ A q → t ∈ op.after A q → u ∈ op.after A q → [t, u] <+ op.after A q
  last : ∀ q t u, op = .push q u → t ∈ A q → [t, u] <+ op.after A q

theorem pair_erase {l : List TaskPtr} {x : TaskPtr} (hnd : l.Nodup) (h : [t, u] <+ l)
    (ht : t ∈ l.erase x) (hu : u ∈ l.erase x) : [t, u] <+ l.erase x := by
  have htx : t ≠ x := (hnd.mem_erase_iff.mp ht).1
  have hux : u ≠ x := (hnd.mem_erase_iff.mp hu).1
  have hpair : [t, u].erase x = [t, u] := List.erase_of_not_mem (by simp [htx.symm, hux.symm])
  rw [← hpair]
  exact h.erase x

theorem inTurn (hnd : ∀ q, (A q).Nodup) (op : QueueOp) : InTurn A op where
  ahead q t u h ht hu := by
    cases op with
    | push q' x =>
      by_cases hq : q = q'
      · subst hq
        show [t, u] <+ upd A q _ q
        rw [upd_same]
        -- A task that is pushed comes behind both.
        exact h.trans (List.sublist_append_left _ _)
      · have hafter : (QueueOp.push q' x).after A q = A q := upd_ne _ _ hq
        rwa [hafter]
    | remove q' x =>
      by_cases hq : q = q'
      · subst hq
        have hafter : (QueueOp.remove q x).after A q = (A q).erase x := upd_same _ _ _
        rw [hafter] at ht hu ⊢
        exact pair_erase (hnd q) h ht hu
      · have hafter : (QueueOp.remove q' x).after A q = A q := upd_ne _ _ hq
        rwa [hafter]
    | pop =>
      by_cases hq : q = .ready
      · subst hq
        have hafter : QueueOp.pop.after A .ready = (A .ready).tail := upd_same _ _ _
        rw [hafter] at ht hu ⊢
        cases hready : A .ready with
        | nil => rw [hready] at ht; exact absurd ht List.not_mem_nil
        | cons x l =>
          have hnd' := hnd .ready
          rw [hready] at ht hu h hnd'
          -- To take the first task is to remove that task.
          have herase : (x :: l).erase x = l := List.erase_cons_head x l
          have herase' := pair_erase (x := x) hnd' h
          rw [herase] at herase'
          exact herase' ht hu
      · have hafter : QueueOp.pop.after A q = A q := upd_ne _ _ hq
        rwa [hafter]
  last q t u hop ht := by
    subst hop
    show [t, u] <+ upd A q _ q
    rw [upd_same]
    have hpair : [t] ++ [u] <+ A q ++ [u] :=
      (List.singleton_sublist.mpr ht).append_right [u]
    exact hpair

/-- Tasks are served first come, first served: after every sequence of operations and of anything
else between them the queues are lined up, and each operation that is allowed returns, with the
first task for a pop, changes the lists alone, and keeps the order of the tasks. -/
theorem queues_in_order {k₀ : Kernel} {acts : List (Option QueueOp)} (h₀ : k₀.NoQueues)
    (hrun : Steps (QueueStep env) (k₀, fun _ => []) acts (k, A)) :
    LinedUp k A ∧ ∀ op : QueueOp, op.Allowed k A →
      ∃ k', op.serve env k = .ok (op.answer A) k' ∧ LinedUp k' (op.after A) ∧
        (∀ t, (k'.tasks t).view = (k.tasks t).view) ∧ InTurn A op := by
  have hstands : Stands k A :=
    hrun.invariant (I := fun c => Stands c.1 c.2) (fun _ _ _ h hstep => hstep.stands h) h₀.stands
  refine ⟨hstands.linedUp, fun op hallowed => ?_⟩
  obtain ⟨k', hop, hserved⟩ := hstands.serve env hallowed
  exact ⟨k', hop, hserved.stands.linedUp, hserved.tasks, inTurn hstands.linedUp.distinct op⟩

theorem Served.state {answer : Option TaskPtr} (h : Served k A op answer k') (t : TaskPtr) :
    (k'.tasks t).state = (k.tasks t).state := by
  have hstate := congrArg Task.state (h.tasks t)
  exact hstate

/-- Two tasks are pushed, the second one is taken out again, and the first one is next. -/
theorem queues_in_order_two : ∃ (k k' : Kernel) (A : Lines), A .ready = [0x1000] ∧ LinedUp k A ∧
    popReadyTask (.debug smallConfig) k = .ok (some 0x1000) k' := by
  have h₀ : Kernel.NoQueues
      { Kernel.powerOn with tasks := fun _ => { Task.zero with state := .ready } } := by
    constructor
    · intro q
      cases q with
      | ready => rfl
      | waiting e s => cases s <;> rfl
    · intro q t
      cases q <;> exact ⟨rfl, rfl⟩
  have hfirst : (QueueOp.push .ready 0x1000).Allowed
      { Kernel.powerOn with tasks := fun _ => { Task.zero with state := .ready } } fun _ => [] :=
    ⟨rfl, fun _ _ => List.not_mem_nil⟩
  obtain ⟨k₁, hrun₁, hk₁⟩ := h₀.stands.serve (.debug smallConfig) hfirst
  have hsecond : (QueueOp.push .ready 0x2000).Allowed k₁
      ((QueueOp.push .ready 0x1000).after fun _ => []) := by
    refine ⟨hk₁.state 0x2000, Lines.unqueued_ready.mpr ?_⟩
    decide
  obtain ⟨k₂, hrun₂, hk₂⟩ := hk₁.stands.serve (.debug smallConfig) hsecond
  have hthird : (QueueOp.remove .ready 0x2000).Allowed k₂ ((QueueOp.push .ready 0x2000).after
      ((QueueOp.push .ready 0x1000).after fun _ => [])) := by
    refine ⟨(hk₂.state 0x2000).trans (hk₁.state 0x2000), ?_⟩
    decide
  obtain ⟨k₃, hrun₃, hk₃⟩ := hk₂.stands.serve (.debug smallConfig) hthird
  have hlined := queues_in_order h₀ (.snoc (.snoc (.single (.serve hfirst hrun₁))
    (.serve hsecond hrun₂)) (.serve hthird hrun₃))
  obtain ⟨k₄, hrun₄, -⟩ := hlined.2 .pop fun t ht => by
    rw [hk₃.state, hk₂.state, hk₁.state]
  exact ⟨k₃, k₄, _, by decide, hlined.1, hrun₄⟩

end Caprese
