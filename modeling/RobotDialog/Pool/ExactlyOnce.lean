import RobotDialog.Pool.Counters
import RobotDialog.Lib.Fifo

/-!
# The thread pool serves every accepted task exactly once

The pool refines the abstract queue `Fifo.Queue`: linking a node accepts its job, unlinking the head
dequeues it, the return of `task->function` completes it, and every other statement is invisible.

* `State.runs`, `State.running`   the job that a worker is executing, and all of them;
* `State.fifo`                    the abstract queue of a state;
* `fifo_step`                     a step of the pool is a step of the abstract queue or none;
* `ReachableBy.fifo`              what the abstract queue guarantees holds of every reachable state;
* `ExactlyOnceFifo`               what a thread sees that finds the mutex free;
* `taskQueue_exactlyOnceFifo`     it holds in every reachable state before the leftover tasks are
                                  thrown away.
-/

set_option linter.unusedSimpArgs false

namespace Pool
open State Lts Heap

variable {fl : ℚ → ℚ} {s s' : State} {w c : Nat} {l l' : List (Ptr × Job)}

/-! ## the jobs being executed -/

/-- the job that worker `v` has taken and not finished -/
def State.runs (s : State) (v : Nat) : Option Job :=
  (s.workers v).pc.executing.bind fun a => (s.heap a).map Task.job

/-- the jobs being executed -/
def State.running (s : State) : Multiset Job := Family.jobs s.created s.runs

theorem WorkerPc.task_of_executing {p : WorkerPc} {a : Ptr} (h : p.executing = some a) :
    p.task = some a := by
  cases p <;> first | exact h | cases h

theorem WorkerPc.live_of_executing {p : WorkerPc} {a : Ptr} (h : p.executing = some a) :
    p.live = true := by
  cases p <;> first | rfl | cases h

theorem WorkerPc.Pushed.executing {p q : WorkerPc} (h : p.Pushed q) :
    q.executing = p.executing :=
  h.view WorkerPc.executing rfl rfl

theorem runs_live {v : Nat} {j : Job} (h : s.runs v = some j) : (s.workers v).pc.live = true := by
  unfold State.runs at h
  rw [Option.bind_eq_some_iff] at h
  obtain ⟨a, ha, _⟩ := h
  exact WorkerPc.live_of_executing ha

theorem runs_pushed {t : Thread} {v : Nat} (hv : Thread.worker v ≠ t)
    (hp : (s.workers v).pc.Pushed (s'.workers v).pc) (hf : HeapFrame s t s') :
    s'.runs v = s.runs v := by
  unfold State.runs
  rw [hp.executing]
  cases e : (s.workers v).pc.executing with
  | none => rfl
  | some a =>
    show (s'.heap a).map Task.job = (s.heap a).map Task.job
    rw [hf (.worker v) a hv (WorkerPc.task_of_executing e)]

theorem runs_notCreated (hC : CreatedInv s) {v : Nat} (hv : s.created ≤ v) : s.runs v = none := by
  unfold State.runs
  rw [(hC v).mpr hv]
  rfl

/-- **The running jobs after a move of worker `w`.** -/
theorem WorkerMove.running (hC : CreatedInv s) (hq : QueueInv s l) (hm : WorkerMove s w s') :
    s'.running + Family.item (s.runs w) = s.running + Family.item (s'.runs w) := by
  unfold State.running Family.jobs
  rw [hm.created_eq]
  refine Family.total_move (f := fun v => Family.item (s.runs v)) (hm.exists hC) fun v hv => ?_
  show Family.item (s'.runs v) = Family.item (s.runs v)
  rw [runs_pushed (fun e => hv (Thread.worker.inj e)) (hm.pushed hv) (hm.heapFrame hq)]

theorem running_pushed (hC : CreatedInv s) {t : Thread} (ht : ∀ v, Thread.worker v ≠ t)
    (hcr : s.created ≤ s'.created) (hpush : ∀ v, (s.workers v).pc.Pushed (s'.workers v).pc)
    (hf : HeapFrame s t s') : s'.running = s.running := by
  unfold State.running Family.jobs
  refine Family.total_grow hcr (fun v => ?_) fun v hv => ?_
  · rw [runs_pushed (ht v) (hpush v) hf]
  · rw [runs_notCreated hC hv]
    rfl

theorem CallerMove.running (hC : CreatedInv s) (hq : QueueInv s l) (hm : CallerMove fl s c s') :
    s'.running = s.running :=
  running_pushed hC (t := .caller c) (by simp) hm.created_le (hm.pushed hC) (hm.heapFrame hq)

theorem MainMove.running (hC : CreatedInv s) (hq : QueueInv s l) (hm : MainMove s s') :
    s'.running = s.running :=
  running_pushed hC (t := .main) (by simp) hm.created_le (hm.pushed hC) (hm.heapFrame hq)

/-! ## the refinement -/

/-- the abstract queue of a state whose list of nodes is `l` -/
def State.fifo (s : State) (l : List (Ptr × Job)) : Fifo.Queue Job where
  accepted := s.accepted
  waiting := l.map Prod.snd
  dequeued := s.dequeued
  dropped := s.drained
  running := s.running
  completed := s.completed

theorem QueueInv.waiting_eq (h' : QueueInv s' l') {k : List Job}
    (he : s'.accepted = s'.dequeued ++ s'.drained ++ k) : l'.map Prod.snd = k :=
  List.append_cancel_left (h'.fifo.symm.trans he)

theorem fifo_same (h : QueueInv s l) (h' : QueueInv s' l')
    (hhist : s'.accepted = s.accepted ∧ s'.dequeued = s.dequeued ∧ s'.drained = s.drained)
    (hcomp : s'.completed = s.completed) (hrun : s'.running = s.running) :
    s'.fifo l' = s.fifo l := by
  obtain ⟨h1, h2, h3⟩ := hhist
  have hl : l'.map Prod.snd = l.map Prod.snd := by
    refine h'.waiting_eq ?_
    rw [h1, h2, h3, h.fifo]
  unfold State.fifo
  rw [h1, h2, h3, hcomp, hrun, hl]

theorem fifo_dequeue (h : QueueInv s l) (h' : QueueInv s' l') {j : Job} (hd : s.drained = [])
    (hhist : s'.accepted = s.accepted ∧ s'.dequeued = s.dequeued ++ [j] ∧ s'.drained = s.drained)
    (hcomp : s'.completed = s.completed) (hrun : s'.running = s.running + {j}) :
    Fifo.step .dequeue (s.fifo l) = some (s'.fifo l') := by
  obtain ⟨h1, h2, h3⟩ := hhist
  have hl : l.map Prod.snd = j :: l'.map Prod.snd := by
    refine h.waiting_eq ?_
    rw [← h1, h'.fifo, h2, h3, hd]
    simp
  simp only [Fifo.step, State.fifo, hl, hd, if_true, h1, h2, h3, hcomp, hrun]

theorem fifo_complete (h : QueueInv s l) (h' : QueueInv s' l') {j : Job}
    (hhist : s'.accepted = s.accepted ∧ s'.dequeued = s.dequeued ∧ s'.drained = s.drained)
    (hcomp : s'.completed = s.completed ++ [j]) (hrun : s'.running + {j} = s.running) :
    Fifo.step (.complete j) (s.fifo l) = some (s'.fifo l') := by
  obtain ⟨h1, h2, h3⟩ := hhist
  have hl : l'.map Prod.snd = l.map Prod.snd := by
    refine h'.waiting_eq ?_
    rw [h1, h2, h3, h.fifo]
  have hmem : j ∈ s.running := by
    rw [← hrun]
    simp
  have herase : s.running.erase j = s'.running := by
    rw [← hrun, Multiset.add_comm, Multiset.singleton_add, Multiset.erase_cons_head]
  simp only [Fifo.step, State.fifo, hmem, if_true, herase, hl, h1, h2, h3, hcomp]

theorem QueueInv.not_drained (h : QueueInv s l) (hcon : ControlInv s)
    (hpc : (s.workers w).pc = .unlinkHead) : s.drained = [] :=
  h.kept (hcon.not_draining hpc)

theorem fifo_worker_step (hC : CreatedInv s) (hcon : ControlInv s) (h : QueueInv s l)
    (h' : QueueInv s' l') (hm : WorkerMove s w s') :
    s'.fifo l' = s.fifo l ∨ ∃ op, Fifo.step op (s.fifo l) = some (s'.fifo l') := by
  have hrun := hm.running hC h
  cases hm with
  | unlinkHead a n hpc hq hn =>
    refine .inr ⟨_, fifo_dequeue h h' (h.not_drained hcon hpc) ⟨rfl, rfl, rfl⟩ rfl ?_⟩
    simpa [State.runs, hpc, WorkerPc.executing, hn] using hrun
  | functionReturns a start t n hpc hn =>
    refine .inr ⟨_, fifo_complete h h' ⟨rfl, rfl, rfl⟩ rfl ?_⟩
    simpa [State.runs, hpc, WorkerPc.executing, hn] using hrun
  | setcancelFails hpc =>
    refine .inl (fifo_same h h' ⟨rfl, rfl, rfl⟩ rfl ?_)
    rcases hpc with hpc | hpc <;> simpa [State.runs, hpc, WorkerPc.executing] using hrun
  | cancelPass v hpc hd hv hb =>
    refine .inl (fifo_same h h' ⟨rfl, rfl, rfl⟩ rfl ?_)
    simpa [State.runs, hpc, WorkerPc.executing, Function.update_of_ne hv.symm] using hrun
  | _ =>
    refine .inl (fifo_same h h' ⟨rfl, rfl, rfl⟩ rfl ?_)
    simpa [State.runs, WorkerPc.executing, *] using hrun

theorem CallsInv.new_job (h : CallsInv s) {a : Ptr} {t : Task} (hpc : (s.callers c).pc = .link a)
    (ht : s.heap a = some t) : t.job ∉ s.accepted := by
  intro hm
  have hcall := h.node c a t (by rw [hpc]; rfl) ht
  exact h.undecided c _ (by rw [hpc]; rfl) hcall (List.mem_map_of_mem hm)

theorem fifo_accept (h : QueueInv s l) (h' : QueueInv s' l') {j : Job} (hj : j ∉ s.accepted)
    (hhist : s'.accepted = s.accepted ++ [j] ∧ s'.dequeued = s.dequeued ∧ s'.drained = s.drained)
    (hcomp : s'.completed = s.completed) (hrun : s'.running = s.running) :
    Fifo.step (.accept j) (s.fifo l) = some (s'.fifo l') := by
  obtain ⟨h1, h2, h3⟩ := hhist
  have hl : l'.map Prod.snd = l.map Prod.snd ++ [j] := by
    refine h'.waiting_eq ?_
    rw [h1, h2, h3, h.fifo, List.append_assoc]
  simp only [Fifo.step, State.fifo, hj, if_false, h1, h2, h3, hcomp, hrun, hl]

theorem fifo_caller_step (hC : CreatedInv s) (hcalls : CallsInv s) (h : QueueInv s l)
    (h' : QueueInv s' l') (hm : CallerMove fl s c s') :
    s'.fifo l' = s.fifo l ∨ ∃ op, Fifo.step op (s.fifo l) = some (s'.fifo l') := by
  have hrun := hm.running hC h
  cases hm with
  | linkFirst a t hpc ht hq =>
    exact .inr ⟨_, fifo_accept h h' (hcalls.new_job hpc ht) ⟨rfl, rfl, rfl⟩ rfl hrun⟩
  | linkLast a tail t n hpc ht hq htail hn =>
    exact .inr ⟨_, fifo_accept h h' (hcalls.new_job hpc ht) ⟨rfl, rfl, rfl⟩ rfl hrun⟩
  | _ => exact .inl (fifo_same h h' ⟨rfl, rfl, rfl⟩ rfl hrun)

theorem fifo_main_step (hC : CreatedInv s) (h : QueueInv s l) (h' : QueueInv s' l')
    (hm : MainMove s s') :
    s'.fifo l' = s.fifo l ∨ ∃ op, Fifo.step op (s.fifo l) = some (s'.fifo l') := by
  have hrun := hm.running hC h
  cases hm with
  | drain a t hpc hq ht =>
    refine .inr ⟨.drop, ?_⟩
    have hlink := h.linked
    rw [hq] at hlink
    obtain ⟨n, k, hn, rfl, hk⟩ := hlink.uncons
    rw [ht, Option.some.injEq] at hn
    subst hn
    have hwait : l'.map Prod.snd = k.map Prod.snd := by
      refine h'.waiting_eq ?_
      show s.accepted = s.dequeued ++ (s.drained ++ [t.job]) ++ k.map Prod.snd
      rw [h.fifo]
      simp
    simp only [Fifo.step, State.fifo, List.map_cons, hwait, hrun]
    rfl
  | _ => exact .inl (fifo_same h h' ⟨rfl, rfl, rfl⟩ rfl hrun)

/-- **A step of the pool is a step of the abstract queue, or none.** -/
theorem fifo_step (hC : CreatedInv s) (hcon : ControlInv s) (hcalls : CallsInv s)
    (h : QueueInv s l) (h' : QueueInv s' l') (lb : Label) (hs : step fl lb s = some s') :
    s'.fifo l' = s.fifo l ∨ ∃ op, Fifo.step op (s.fifo l) = some (s'.fifo l') := by
  cases lb with
  | worker w a => exact fifo_worker_step hC hcon h h' (.of_step hs)
  | caller c a => exact fifo_caller_step hC hcalls h h' (CallerMove.of_step hs)
  | main a => exact fifo_main_step hC h h' (.of_step hs)

/-- **The pool refines the abstract queue.** -/
theorem ReachableBy.fifo {G : State → Label → Prop} {minThreads maxThreads initial : Nat}
    (h : ReachableBy fl G minThreads maxThreads initial s) :
    ∃ l, QueueInv s l ∧ Reach Fifo.step Any Fifo.Queue.empty (s.fifo l) := by
  obtain ⟨now, b₁, b₂, b₃, s₀, hc, hr⟩ := h
  have hsim : ∃ q, Reach Fifo.step Any Fifo.Queue.empty q ∧ ∃ l, QueueInv s l ∧ q = s.fifo l := by
    refine hr.simulate (R := fun s q => ∃ l, QueueInv s l ∧ q = s.fifo l) ⟨[], ?_, ?_⟩
      fun s lb s' q hs hR hst => ?_
    · rw [(create_eq hc).2.2]
      exact QueueInv.start _ _ _ now
    · rw [(create_eq hc).2.2]
      rfl
    · have hreach : ReachableBy fl G minThreads maxThreads initial s :=
        ⟨now, b₁, b₂, b₃, s₀, hc, hs⟩
      obtain ⟨l, hq, rfl⟩ := hR
      obtain ⟨l', hq'⟩ := hq.step hreach.created hreach.control lb hst
      rcases fifo_step hreach.created hreach.control hreach.calls hq hq' lb hst with he | ⟨op, hop⟩
      · exact .inl ⟨l', hq', he.symm⟩
      · exact .inr ⟨op, _, trivial, hop, l', hq', rfl⟩
  obtain ⟨q, hreach, l, hq, rfl⟩ := hsim
  exact ⟨l, hq, hreach⟩

/-! ## with the mutex free -/

/-- **What holds of the queue, the three counters and the workers when the mutex is free**; `l` is
the list of (address, job) from `queue_head` -/
structure ExactlyOnceFifo (s : State) (l : List (Ptr × Job)) : Prop where
  linked : Linked Task.job Task.next s.heap s.pool.queueHead l
  fifo : s.accepted = s.dequeued ++ l.map Prod.snd
  distinct : s.accepted.Nodup
  returned : ∀ n rc, (n, rc) ∈ s.returned →
    (rc = 0 ∧ ∃ j ∈ s.accepted, j.call = n) ∨ (rc = -1 ∧ ¬ ∃ j ∈ s.accepted, j.call = n)
  headTail : s.pool.queueHead = none ↔ s.pool.queueTail = none
  tailLast : s.pool.queueHead ≠ none → s.pool.queueTail = (addrs l).getLast?
  once : ∀ j ∈ s.dequeued,
    (s.completed.count j = 1 ∧ ∀ v, s.runs v ≠ some j) ∨
      (s.completed.count j = 0 ∧ ∃ v, s.runs v = some j ∧ (s.workers v).pc.live = true ∧
        ∀ u, s.runs u = some j → u = v)
  onlyDequeued : ∀ j, (j ∈ s.completed ∨ ∃ v, s.runs v = some j) → j ∈ s.dequeued
  queueSize : s.pool.queueSize = l.length
  activeThreads : s.pool.activeThreads = s.count WorkerPc.active
  totalTasksCompleted : s.pool.totalTasksCompleted + s.count WorkerPc.uncounted = s.completed.length

/-- A dangling `queue_tail` is repaired before the mutex is released. -/
theorem not_dangling (hM : MutexInv s) (hfree : s.owner = none) : ¬ s.dangling := by
  rintro ⟨v, a, hv⟩
  have h := hM.free hfree (.worker v)
  simp [holds, hv, WorkerPc.holds] at h

theorem sizeDebt_free (hfree : s.owner = none) : s.sizeDebt = 0 := by
  unfold State.sizeDebt
  rw [hfree]
  rfl

theorem runs_created (hC : CreatedInv s) {v : Nat} {j : Job} (h : s.runs v = some j) :
    v < s.created := by
  by_contra hv
  rw [runs_notCreated hC (by omega)] at h
  cases h

theorem ExactlyOnceFifo.of_inv (hC : CreatedInv s) (hM : MutexInv s) (hcalls : CallsInv s)
    (hcount : CounterInv s) (hq : QueueInv s l) (hfifo : Fifo.Inv (s.fifo l))
    (hfree : s.owner = none) (hdrain : s.main.draining = false) : ExactlyOnceFifo s l := by
  have hempty := hq.linked.null_iff
  have horder : s.accepted = s.dequeued ++ l.map Prod.snd := by
    have h := hq.fifo
    rw [hq.kept hdrain, List.append_nil] at h
    exact h
  have htail : l = [] → s.pool.queueTail = none := by
    intro hl
    rcases hq.tailNull hl hdrain with h | h
    · exact h
    · exact absurd h (not_dangling hM hfree)
  refine ⟨hq.linked, horder, hfifo.nodup, ?_, ?_, ?_, ?_, ?_, ?_, hcount.active, hcount.completed⟩
  · intro n rc hn
    have h := (hcalls.returned n rc hn).2.2
    simpa only [State.acceptedCalls, List.mem_map] using h
  · rw [hempty]
    refine ⟨htail, fun ht => ?_⟩
    by_contra hl
    have hlast := hq.tailLast hl
    rw [ht, eq_comm, List.getLast?_eq_none_iff] at hlast
    exact hl (List.map_eq_nil_iff.mp hlast)
  · exact fun hne => hq.tailLast fun hl => hne (hempty.mpr hl)
  · intro j hj
    rcases hfifo.exactlyOnce hj with ⟨h1, h0⟩ | ⟨h0, h1⟩
    · exact .inl ⟨h1, fun v hv => Family.jobs_none h0 v (runs_created hC hv) hv⟩
    · obtain ⟨v, _, hv, huniq⟩ := Family.jobs_unique h1
      exact .inr ⟨h0, v, hv, runs_live hv, fun u hu => huniq u (runs_created hC hu) hu⟩
  · intro j hj
    have hmem : j ∈ (s.dequeued : Multiset Job) := by
      have hwork : (s.dequeued : Multiset Job) = s.completed + s.running := hfifo.work
      rw [hwork, Multiset.mem_add]
      rcases hj with hj | ⟨v, hv⟩
      · exact .inl hj
      · refine .inr ?_
        rw [← Multiset.count_pos]
        by_contra h0
        exact Family.jobs_none (Nat.eq_zero_of_not_pos h0) v (runs_created hC hv) hv
    exact hmem
  · have h := hcount.size
    rw [sizeDebt_free hfree, horder, List.length_append, List.length_map] at h
    push_cast at h
    omega

/-- **The task queue is an exactly-once FIFO.**  In every run of the pool, whatever the number of
callers and workers and however they interleave, in every state in which `queue_mutex` is free and
`thread_pool_destroy` has not begun to throw leftover tasks away. -/
theorem taskQueue_exactlyOnceFifo (fl : ℚ → ℚ) (minThreads maxThreads initial : Nat) (s : State)
    (h : Reachable fl minThreads maxThreads initial s) (hfree : s.owner = none)
    (hdrain : s.main.draining = false) : ∃ l, ExactlyOnceFifo s l := by
  obtain ⟨l, hq, hreach⟩ := h.fifo
  exact ⟨l, .of_inv h.created h.mutex h.calls h.counters hq (.of_reach hreach) hfree hdrain⟩

/-- two calls of `thread_pool_add_task`; the only worker is executing the first task -/
def busyRun : List Label :=
  [.main (.result true), .main .run,
   .caller 0 (.addTask (some 7) 100), .caller 0 (.malloc (some 1)), .caller 0 .run, .caller 0 .run,
   .caller 0 .run, .caller 0 .run, .caller 0 (.wake none), .caller 0 .run, .caller 0 (.time 1),
   .caller 1 (.addTask (some 7) 200), .caller 1 (.malloc (some 2)), .caller 1 .run, .caller 1 .run,
   .caller 1 .run, .caller 1 .run, .caller 1 (.wake none), .caller 1 .run, .caller 1 (.time 1),
   .worker 0 .run, .worker 0 .run, .worker 0 .run, .worker 0 .run, .worker 0 .run, .worker 0 .run,
   .worker 0 .run, .worker 0 .run, .worker 0 .run, .worker 0 .run, .worker 0 (.clock ⟨0, 0⟩)]

theorem taskQueue_busyRun :
    ∃ s, exec (Pool.step id) (startState 1 1 1 0) busyRun = some s ∧ s.accepted.length = 2 ∧
      s.dequeued.length = 1 ∧ s.completed = [] ∧ ∃ l, ExactlyOnceFifo s l := by
  have hrun : (exec (Pool.step id) (startState 1 1 1 0) busyRun).map
      (fun s => (s.owner, s.main, s.accepted.length, s.dequeued.length, s.completed)) =
        some (none, .ready, 2, 1, []) := by decide +kernel
  obtain ⟨s, hs, hv⟩ := Option.map_eq_some_iff.mp hrun
  simp only [Prod.mk.injEq] at hv
  obtain ⟨hfree, hmain, hacc, hdeq, hcomp⟩ := hv
  refine ⟨s, hs, hacc, hdeq, hcomp,
    taskQueue_exactlyOnceFifo id 1 1 1 s ?_ hfree (by rw [hmain]; rfl)⟩
  exact ⟨0, true, true, true, _, rfl, Reach.of_exec busyRun hs⟩

end Pool
