import RobotDialog.Pool.Control
import RobotDialog.Lib.Linked

/-!
# The thread pool: the task queue in memory

The nodes reached from `queue_head` are a list `l`; a node that a thread has allocated or taken out
belongs to that thread alone and is not in the list.

* `QueueInv s l`        the linked list, `queue_tail`, the history and the owners of the nodes;
* `QueueInv.same`       a move that touches neither keeps it;
* `QueueInv.*_step`     every move keeps it, with the list that the move leaves behind;
* `ReachableBy.queue`   every reachable state has such a list.
-/

set_option linter.unusedSimpArgs false

namespace Pool
open State Lts Heap

variable {fl : ℚ → ℚ} {s s' : State} {w c : Nat} {l : List (Ptr × Job)}

/-! ## the nodes of the other threads -/

theorem WorkerPc.Pushed.task {p q : WorkerPc} (h : p.Pushed q) : q.task = p.task :=
  h.view WorkerPc.task rfl rfl

theorem WorkerPc.Pushed.fixTail {p q : WorkerPc} {a : Ptr} (h : p.Pushed q) (hp : p = .fixTail a) :
    q = .fixTail a := by
  cases h with
  | same => exact hp
  | wake h => rw [h] at hp; cases hp
  | start h => rw [h] at hp; cases hp

/-- Only thread `t` takes or gives up a node. -/
def TaskFrame (s : State) (t : Thread) (s' : State) : Prop :=
  ∀ u, u ≠ t → s'.task u = s.task u

theorem WorkerMove.taskFrame (hm : WorkerMove s w s') : TaskFrame s (.worker w) s' := by
  intro u hu
  cases u with
  | worker v => exact (hm.pushed fun e => hu (e ▸ rfl)).task
  | caller c => cases hm <;> rfl
  | main => rfl

theorem CallerMove.taskFrame (hC : CreatedInv s) (hm : CallerMove fl s c s') :
    TaskFrame s (.caller c) s' := by
  intro u hu
  cases u with
  | worker v => exact (hm.pushed hC v).task
  | caller d =>
    have hd : d ≠ c := fun e => hu (e ▸ rfl)
    cases hm <;> simp [State.task, hd]
  | main => rfl

theorem MainMove.taskFrame (hC : CreatedInv s) (hm : MainMove s s') : TaskFrame s .main s' := by
  intro u hu
  cases u with
  | worker v => exact (hm.pushed hC v).task
  | caller d => cases hm <;> rfl
  | main => rfl

/-! ## the invariant -/

/-- a worker has taken the last node out and not yet cleared `queue_tail` -/
def State.dangling (s : State) : Prop := ∃ v a, (s.workers v).pc = .fixTail a

structure QueueInv (s : State) (l : List (Ptr × Job)) : Prop where
  linked : Linked Task.job Task.next s.heap s.pool.queueHead l
  nodup : (addrs l).Nodup
  tailLast : l ≠ [] → s.pool.queueTail = (addrs l).getLast?
  tailNull : l = [] → s.main.draining = false → s.pool.queueTail = none ∨ s.dangling
  fifo : s.accepted = s.dequeued ++ s.drained ++ l.map Prod.snd
  kept : s.main.draining = false → s.drained = []
  owned : ∀ t a, s.task t = some a → s.heap a ≠ none ∧ a ∉ addrs l
  excl : ∀ t u a, s.task t = some a → s.task u = some a → t = u
  fresh : ∀ d a n, (s.callers d).pc.task = some a → s.heap a = some n → n.next = none

theorem QueueInv.start (minThreads maxThreads initial : Nat) (now : Int) :
    QueueInv (startState minThreads maxThreads initial now) [] where
  linked := rfl
  nodup := List.nodup_nil
  tailLast h := absurd rfl h
  tailNull _ _ := .inl rfl
  fifo := rfl
  kept _ := rfl
  owned t a h := by cases t <;> simp [startState, State.task, WorkerPc.task, CallerPc.task] at h
  excl t u a h := by cases t <;> simp [startState, State.task, WorkerPc.task, CallerPc.task] at h
  fresh d a n h := by simp [startState, CallerPc.task] at h

/-- the part of the state that the queue lives in is unchanged -/
structure SameQueue (s s' : State) : Prop where
  heap : s'.heap = s.heap
  head : s'.pool.queueHead = s.pool.queueHead
  tail : s'.pool.queueTail = s.pool.queueTail
  accepted : s'.accepted = s.accepted
  dequeued : s'.dequeued = s.dequeued
  drained : s'.drained = s.drained

/-- **A move that leaves the queue and the owners of the nodes alone.** -/
theorem QueueInv.same (h : QueueInv s l) (hq : SameQueue s s')
    (htask : ∀ t, s'.task t = s.task t)
    (hdrain : s'.main.draining = false → s.main.draining = false)
    (hdang : s.dangling → s'.dangling) : QueueInv s' l where
  linked := by rw [hq.heap, hq.head]; exact h.linked
  nodup := h.nodup
  tailLast hl := by rw [hq.tail]; exact h.tailLast hl
  tailNull hl hd := by rw [hq.tail]; exact (h.tailNull hl (hdrain hd)).imp id hdang
  fifo := by rw [hq.accepted, hq.dequeued, hq.drained]; exact h.fifo
  kept hd := by rw [hq.drained]; exact h.kept (hdrain hd)
  owned t a ha := by rw [hq.heap]; exact h.owned t a (by rw [← htask]; exact ha)
  excl t u a ht hu := h.excl t u a (by rw [← htask]; exact ht) (by rw [← htask]; exact hu)
  fresh d a n hd hn :=
    h.fresh d a n ((htask (.caller d)).symm.trans hd) (by rw [← hq.heap]; exact hn)

theorem QueueInv.free (h : QueueInv s l) {t : Thread} {a : Ptr} (ht : s.task t = some a)
    (hheap : s'.heap = Function.update s.heap a none) (hpool : s'.pool = s.pool)
    (hhist : s'.accepted = s.accepted ∧ s'.dequeued = s.dequeued ∧ s'.drained = s.drained)
    (hf : TaskFrame s t s') (hnone : s'.task t = none) (hmain : s'.main = s.main)
    (hdang : s.dangling → s'.dangling) : QueueInv s' l := by
  have hal := (h.owned t a ht).2
  have htask : ∀ u b, s'.task u = some b → s.task u = some b ∧ b ≠ a := by
    intro u b hu
    have hut : u ≠ t := fun e => by rw [e, hnone] at hu; cases hu
    rw [hf u hut] at hu
    exact ⟨hu, fun e => hut (h.excl u t a (e ▸ hu) ht)⟩
  refine ⟨?_, h.nodup, ?_, ?_, ?_, ?_, ?_, ?_, ?_⟩
  · rw [hheap, hpool]; exact h.linked.frame hal none
  · rw [hpool]; exact h.tailLast
  · rw [hpool, hmain]; exact fun hl hd => (h.tailNull hl hd).imp id hdang
  · rw [hhist.1, hhist.2.1, hhist.2.2]; exact h.fifo
  · rw [hhist.2.2, hmain]; exact h.kept
  · intro u b hu
    obtain ⟨hb, hne⟩ := htask u b hu
    rw [hheap, Function.update_of_ne hne]
    exact h.owned u b hb
  · intro u v b hu hv
    exact h.excl u v b (htask u b hu).1 (htask v b hv).1
  · intro d b n hd hn
    obtain ⟨hb, hne⟩ := htask (.caller d) b hd
    rw [hheap, Function.update_of_ne hne] at hn
    exact h.fresh d b n hb hn

/-! ## the worker -/

theorem WorkerMove.dangling (hm : WorkerMove s w s') (hw : ∀ a, (s.workers w).pc ≠ .fixTail a) :
    s.dangling → s'.dangling := by
  rintro ⟨v, a, hv⟩
  have hvw : v ≠ w := fun e => hw a (e ▸ hv)
  exact ⟨v, a, (hm.pushed hvw).fixTail hv⟩

theorem WorkerMove.task_eq (hm : WorkerMove s w s')
    (hw : (s'.workers w).pc.task = (s.workers w).pc.task) (t : Thread) : s'.task t = s.task t := by
  by_cases e : t = .worker w
  · subst e; exact hw
  · exact hm.taskFrame t e

theorem QueueInv.unlinkHead (h : QueueInv s l) (hcon : ControlInv s) {a : Ptr} {n : Task}
    (hpc : (s.workers w).pc = .unlinkHead) (hq : s.pool.queueHead = some a)
    (hn : s.heap a = some n)
    (hs : s' = { s.setPool { s.pool with queueHead := n.next } with
      dequeued := s.dequeued ++ [n.job] }.goto w (.fixTail a)) :
    ∃ l', QueueInv s' l' := by
  have hm : WorkerMove s w s' := hs ▸ .unlinkHead a n hpc hq hn
  have hlink := h.linked
  rw [hq] at hlink
  obtain ⟨m, l', hm', rfl, hl'⟩ := hlink.uncons
  rw [hn, Option.some.injEq] at hm'
  subst hm'
  have hnd := List.nodup_cons.mp h.nodup
  have hdrain := hcon.not_draining hpc
  have hown : s'.task (.worker w) = some a := by subst hs; simp [State.task, WorkerPc.task]
  have hwas : s.task (.worker w) = none := by simp [State.task, hpc, WorkerPc.task]
  have htask : ∀ u b, s'.task u = some b →
      (u = .worker w ∧ b = a) ∨ (s.task u = some b ∧ b ≠ a) := by
    intro u b hu
    by_cases e : u = .worker w
    · subst e
      rw [hown, Option.some.injEq] at hu
      exact .inl ⟨rfl, hu.symm⟩
    · rw [hm.taskFrame u e] at hu
      refine .inr ⟨hu, fun e' => (h.owned u b hu).2 ?_⟩
      simp [e']
  refine ⟨l', ?_, hnd.2, ?_, ?_, ?_, ?_, ?_, ?_, ?_⟩
  · subst hs; exact hl'
  · intro hne
    have hlast := h.tailLast (List.cons_ne_nil _ _)
    subst hs
    cases l' with
    | nil => exact absurd rfl hne
    | cons x l'' =>
      obtain ⟨b, j⟩ := x
      rw [addrs_cons, addrs_cons, List.getLast?_cons_cons] at hlast
      exact hlast
  · exact fun _ _ => .inr ⟨w, a, by subst hs; simp⟩
  · have hf := h.fifo
    rw [h.kept hdrain] at hf
    subst hs
    simp [hf, h.kept hdrain]
  · intro _
    subst hs
    exact h.kept hdrain
  · intro u b hu
    have hheap : s'.heap = s.heap := by subst hs; rfl
    rw [hheap]
    rcases htask u b hu with ⟨_, rfl⟩ | ⟨hb, _⟩
    · exact ⟨by simp [hn], hnd.1⟩
    · obtain ⟨h1, h2⟩ := h.owned u b hb
      exact ⟨h1, fun hm' => h2 (by simp [hm'])⟩
  · intro u v b hu hv
    rcases htask u b hu with ⟨rfl, rfl⟩ | ⟨hb, hne⟩ <;>
      rcases htask v b hv with ⟨rfl, e⟩ | ⟨hb', hne'⟩
    · rfl
    · exact absurd rfl hne'
    · exact absurd e hne
    · exact h.excl u v b hb hb'
  · subst hs; exact h.fresh

theorem QueueInv.worker_step (h : QueueInv s l) (hcon : ControlInv s) (hm : WorkerMove s w s') :
    ∃ l', QueueInv s' l' := by
  have hm' := hm
  have heq := hm.task_eq
  have hdang := hm.dangling
  have hframe := hm.taskFrame
  cases hm with
  | unlinkHead a n hpc hq hn => exact h.unlinkHead hcon hpc hq hn rfl
  | tailNull a hpc hq =>
    have hl : l = [] := h.linked.null_iff.mp hq
    have htask := heq (by simp [hpc, WorkerPc.task])
    refine ⟨l, h.linked, h.nodup, fun hne => absurd hl hne, fun _ _ => .inl rfl, h.fifo, h.kept,
      fun t b hb => h.owned t b (by rw [← htask]; exact hb),
      fun t u b ht hu => h.excl t u b (by rw [← htask]; exact ht) (by rw [← htask]; exact hu),
      h.fresh⟩
  | tailKept a hpc hq =>
    have hl : l ≠ [] := fun e => hq (h.linked.null_iff.mpr e)
    have htask := heq (by simp [hpc, WorkerPc.task])
    refine ⟨l, h.linked, h.nodup, h.tailLast, fun e => absurd e hl, h.fifo, h.kept,
      fun t b hb => h.owned t b (by rw [← htask]; exact hb),
      fun t u b ht hu => h.excl t u b (by rw [← htask]; exact ht) (by rw [← htask]; exact hu),
      h.fresh⟩
  | freeTask a hpc =>
    refine ⟨l, h.free (t := .worker w) (a := a) (by simp [State.task, hpc, WorkerPc.task]) rfl rfl
      ⟨rfl, rfl, rfl⟩ hframe (by simp [State.task, WorkerPc.task]) rfl (hdang (by simp [hpc]))⟩
  | setcancelFails hpc =>
    refine ⟨l, h.same ⟨rfl, rfl, rfl, rfl, rfl, rfl⟩ (heq ?_) id (hdang ?_)⟩
    · rcases hpc with hpc | hpc <;> simp [hpc, WorkerPc.task]
    · rcases hpc with hpc | hpc <;> simp [hpc]
  | cancelPass x hpc hd hx hb =>
    refine ⟨l, h.same ⟨rfl, rfl, rfl, rfl, rfl, rfl⟩ (heq ?_) id (hdang (by simp [hpc]))⟩
    simp [hpc, WorkerPc.task, Function.update_of_ne hx.symm]
  | _ =>
    refine ⟨l, h.same ⟨rfl, rfl, rfl, rfl, rfl, rfl⟩ (heq ?_) id (hdang ?_)⟩
    · simp [WorkerPc.task, *]
    · simp [*]

/-! ## the callers -/

theorem CallerMove.dangling (hC : CreatedInv s) (hm : CallerMove fl s c s') :
    s.dangling → s'.dangling := by
  rintro ⟨v, a, hv⟩
  exact ⟨v, a, (hm.pushed hC v).fixTail hv⟩

theorem CallerMove.task_eq (hC : CreatedInv s) (hm : CallerMove fl s c s')
    (hc : (s'.callers c).pc.task = (s.callers c).pc.task) (t : Thread) : s'.task t = s.task t := by
  by_cases e : t = .caller c
  · subst e; exact hc
  · exact hm.taskFrame hC t e

theorem QueueInv.malloc (h : QueueInv s l) (hC : CreatedInv s) {job : Job} {p : Ptr}
    (hpc : (s.callers c).pc = .mallocTask job) (hp : s.heap p = none)
    (hs : s' = (s.setHeap p (some ⟨job, none⟩)).callerGoto c (.lockAdd p)) : QueueInv s' l := by
  have hm : CallerMove id s c s' := hs ▸ .malloc job p hpc hp
  have hpl : p ∉ addrs l := fun hmem => h.linked.allocated p hmem hp
  have htask : ∀ u b, s'.task u = some b →
      (u = .caller c ∧ b = p) ∨ (s.task u = some b ∧ b ≠ p) := by
    intro u b hu
    by_cases e : u = .caller c
    · subst e
      subst hs
      simp [State.task, CallerPc.task] at hu
      exact .inl ⟨rfl, hu.symm⟩
    · rw [hm.taskFrame hC u e] at hu
      exact .inr ⟨hu, fun e' => (h.owned u b hu).1 (e' ▸ hp)⟩
  have hheap : s'.heap = Function.update s.heap p (some ⟨job, none⟩) := by subst hs; rfl
  have hdang := hm.dangling hC
  refine ⟨?_, h.nodup, ?_, ?_, ?_, ?_, ?_, ?_, ?_⟩
  · rw [hheap]
    subst hs
    exact h.linked.frame hpl _
  · subst hs; exact h.tailLast
  · intro hl hd
    subst hs
    exact (h.tailNull hl hd).imp id hdang
  · subst hs; exact h.fifo
  · subst hs; exact h.kept
  · intro u b hu
    rw [hheap]
    rcases htask u b hu with ⟨_, rfl⟩ | ⟨hb, hne⟩
    · exact ⟨by simp, hpl⟩
    · rw [Function.update_of_ne hne]
      exact h.owned u b hb
  · intro u v b hu hv
    rcases htask u b hu with ⟨rfl, rfl⟩ | ⟨hb, hne⟩ <;>
      rcases htask v b hv with ⟨rfl, e⟩ | ⟨hb', hne'⟩
    · rfl
    · exact absurd rfl hne'
    · exact absurd e hne
    · exact h.excl u v b hb hb'
  · intro d b n hd hn
    rw [hheap] at hn
    rcases htask (.caller d) b hd with ⟨_, rfl⟩ | ⟨hb, hne⟩
    · rw [Function.update_self, Option.some.injEq] at hn
      rw [← hn]
    · rw [Function.update_of_ne hne] at hn
      exact h.fresh d b n hb hn

theorem QueueInv.append (h : QueueInv s l) {task : Ptr} {t : Task}
    (hown : s.task (.caller c) = some task)
    (hlink : Linked Task.job Task.next s'.heap s'.pool.queueHead (l ++ [(task, t.job)]))
    (htail : s'.pool.queueTail = some task)
    (hheap : ∀ a, a ∉ addrs l → s'.heap a = s.heap a)
    (hhist : s'.accepted = s.accepted ++ [t.job] ∧ s'.dequeued = s.dequeued ∧
      s'.drained = s.drained)
    (hf : TaskFrame s (.caller c) s') (hnone : s'.task (.caller c) = none)
    (hmain : s'.main = s.main) : QueueInv s' (l ++ [(task, t.job)]) := by
  have hal := (h.owned _ _ hown).2
  have htask : ∀ u b, s'.task u = some b → s.task u = some b ∧ b ≠ task := by
    intro u b hu
    have hut : u ≠ .caller c := fun e => by rw [e, hnone] at hu; cases hu
    rw [hf u hut] at hu
    exact ⟨hu, fun e => hut (h.excl u _ task (e ▸ hu) hown)⟩
  refine ⟨hlink, ?_, ?_, ?_, ?_, ?_, ?_, ?_, ?_⟩
  · rw [addrs_append, List.nodup_append]
    refine ⟨h.nodup, by simp, ?_⟩
    intro a ha b hb hab
    simp only [addrs_cons, addrs_nil, List.mem_singleton] at hb
    exact hal (hb ▸ hab ▸ ha)
  · intro _
    rw [htail, addrs_append, addrs_cons, addrs_nil, List.getLast?_concat]
  · intro hl
    simp at hl
  · rw [hhist.1, hhist.2.1, hhist.2.2, h.fifo]
    simp
  · rw [hhist.2.2, hmain]
    exact h.kept
  · intro u b hu
    obtain ⟨hb, hne⟩ := htask u b hu
    obtain ⟨h1, h2⟩ := h.owned u b hb
    rw [hheap b h2]
    refine ⟨h1, ?_⟩
    simp [h2, hne]
  · intro u v b hu hv
    exact h.excl u v b (htask u b hu).1 (htask v b hv).1
  · intro d b n hd hn
    obtain ⟨hb, _⟩ := htask (.caller d) b hd
    rw [hheap b (h.owned _ b hb).2] at hn
    exact h.fresh d b n hb hn

theorem QueueInv.linkLast (h : QueueInv s l) {task tail : Ptr} {t n : Task}
    (hown : s.task (.caller c) = some task) (ht : s.heap task = some t)
    (hpc : (s.callers c).pc.task = some task) (hq : s.pool.queueHead ≠ none)
    (htail : s.pool.queueTail = some tail) (hn : s.heap tail = some n) :
    tail ∈ addrs l ∧ Linked Task.job Task.next
      (Function.update s.heap tail (some { n with next := some task })) s.pool.queueHead
      (l ++ [(task, t.job)]) := by
  have hne : l ≠ [] := fun e => hq (h.linked.null_iff.mpr e)
  obtain ⟨l₀, x, rfl⟩ : ∃ l₀ x, l = l₀ ++ [x] := ⟨_, _, (List.dropLast_append_getLast hne).symm⟩
  obtain ⟨a, b⟩ := x
  have hlast := h.tailLast hne
  rw [htail, addrs_append, addrs_cons, addrs_nil, List.getLast?_concat, Option.some.injEq] at hlast
  subst hlast
  obtain ⟨m, hm, hb, _⟩ := h.linked.last
  rw [hn, Option.some.injEq] at hm
  subst hm
  refine ⟨by simp, ?_⟩
  exact h.linked.link_last h.nodup (h.owned _ _ hown).2 ht (h.fresh c task t hpc ht) hb rfl

theorem QueueInv.caller_step (h : QueueInv s l) (hC : CreatedInv s) (hm : CallerMove fl s c s') :
    ∃ l', QueueInv s' l' := by
  have heq := hm.task_eq hC
  have hdang := hm.dangling hC
  have hframe := hm.taskFrame hC
  cases hm with
  | malloc job p hpc hp => exact ⟨l, h.malloc hC hpc hp rfl⟩
  | freeReject task hpc =>
    refine ⟨l, h.free (t := .caller c) (a := task) (by simp [State.task, hpc, CallerPc.task]) rfl rfl
      ⟨rfl, rfl, rfl⟩ hframe (by simp [State.task, CallerPc.task]) rfl hdang⟩
  | linkFirst task t hpc ht hq =>
    have hl : l = [] := h.linked.null_iff.mp hq
    have hown : (s.callers c).pc.task = some task := by simp [hpc, CallerPc.task]
    subst hl
    refine ⟨_, h.append hown ⟨rfl, t, ht, rfl, ?_⟩ rfl (fun _ _ => rfl) ⟨rfl, rfl, rfl⟩ hframe
      (by simp [State.task, CallerPc.task]) rfl⟩
    exact h.fresh c task t hown ht
  | linkLast task tail t n hpc ht hq htail hn =>
    have hown : (s.callers c).pc.task = some task := by simp [hpc, CallerPc.task]
    obtain ⟨hmem, hlink⟩ := h.linkLast hown ht hown hq htail hn
    refine ⟨_, h.append hown hlink rfl (fun a ha => ?_) ⟨rfl, rfl, rfl⟩ hframe
      (by simp [State.task, CallerPc.task]) rfl⟩
    have hne : a ≠ tail := fun e => ha (e ▸ hmem)
    exact Function.update_of_ne hne ..
  | scaleTest now hpc =>
    refine ⟨l, h.same ⟨rfl, rfl, rfl, rfl, rfl, rfl⟩ (heq ?_) id hdang⟩
    rw [hpc]
    simp only [callerGoto, Function.update_self]
    unfold scaleBranch
    split
    · rfl
    · split <;> rfl
  | _ =>
    refine ⟨l, h.same ⟨rfl, rfl, rfl, rfl, rfl, rfl⟩ (heq ?_) id hdang⟩
    simp [CallerPc.task, *]

/-! ## the main thread -/

theorem MainMove.dangling (hC : CreatedInv s) (hm : MainMove s s') : s.dangling → s'.dangling := by
  rintro ⟨v, a, hv⟩
  exact ⟨v, a, (hm.pushed hC v).fixTail hv⟩

theorem MainMove.task_eq (hC : CreatedInv s) (hm : MainMove s s') (t : Thread) :
    s'.task t = s.task t := by
  by_cases e : t = .main
  · subst e; rfl
  · exact hm.taskFrame hC t e

theorem QueueInv.drain (h : QueueInv s l) {task : Ptr} {t : Task}
    (hpc : s.main = .destroyDrain) (hq : s.pool.queueHead = some task)
    (ht : s.heap task = some t)
    (hs : s' = { (s.setHeap task none).setPool { s.pool with queueHead := t.next } with
      drained := s.drained ++ [t.job] }) : ∃ l', QueueInv s' l' := by
  have hlink := h.linked
  rw [hq] at hlink
  obtain ⟨m, l', hm', rfl, hl'⟩ := hlink.uncons
  rw [ht, Option.some.injEq] at hm'
  subst hm'
  have hnd := List.nodup_cons.mp h.nodup
  have hne : ∀ u b, s.task u = some b → b ≠ task := by
    intro u b hu e
    exact (h.owned u b hu).2 (by simp [e])
  subst hs
  refine ⟨l', hl'.frame hnd.1 none, hnd.2, ?_, ?_, ?_, ?_, ?_, h.excl, ?_⟩
  · intro hl
    have hlast := h.tailLast (List.cons_ne_nil _ _)
    cases l' with
    | nil => exact absurd rfl hl
    | cons x l'' =>
      obtain ⟨b, j⟩ := x
      rw [addrs_cons, addrs_cons, List.getLast?_cons_cons] at hlast
      exact hlast
  · intro _ hd
    have hd' : s.main.draining = false := hd
    rw [hpc] at hd'
    cases hd'
  · show s.accepted = _
    rw [h.fifo]
    simp
  · intro hd
    have hd' : s.main.draining = false := hd
    rw [hpc] at hd'
    cases hd'
  · intro u b hu
    obtain ⟨h1, h2⟩ := h.owned u b hu
    refine ⟨?_, fun hmem => h2 (by simp [hmem])⟩
    show Function.update s.heap task none b ≠ none
    rw [Function.update_of_ne (hne u b hu)]
    exact h1
  · intro d b n hd hn
    have hn' : Function.update s.heap task none b = some n := hn
    rw [Function.update_of_ne (hne (.caller d) b hd)] at hn'
    exact h.fresh d b n hd hn'

theorem QueueInv.main_step (h : QueueInv s l) (hC : CreatedInv s) (hm : MainMove s s') :
    ∃ l', QueueInv s' l' := by
  have heq := hm.task_eq hC
  have hdang := hm.dangling hC
  cases hm with
  | drain task t hpc hq ht => exact h.drain hpc hq ht rfl
  | _ =>
    refine ⟨l, h.same ⟨rfl, rfl, rfl, rfl, rfl, rfl⟩ heq ?_ hdang⟩
    simp [MainPc.draining, *]

theorem QueueInv.step (h : QueueInv s l) (hC : CreatedInv s) (hcon : ControlInv s) (lb : Label)
    (hs : step fl lb s = some s') : ∃ l', QueueInv s' l' := by
  cases lb with
  | worker w a => exact h.worker_step hcon (.of_step hs)
  | caller c a => exact h.caller_step hC (CallerMove.of_step hs)
  | main a => exact h.main_step hC (.of_step hs)

theorem ReachableBy.queue {G : State → Label → Prop} {minThreads maxThreads initial : Nat}
    (h : ReachableBy fl G minThreads maxThreads initial s) : ∃ l, QueueInv s l :=
  h.inv (fun s => ∃ l, QueueInv s l) (fun now _ _ => ⟨[], QueueInv.start _ _ _ now⟩)
    fun _ lb _ hr ⟨_, hk⟩ _ hs => hk.step hr.created hr.control lb hs

end Pool
