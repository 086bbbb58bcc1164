import RobotDialog.Pool.ExactlyOnce
import RobotDialog.Pool.Teardown

/-!
# The thread pool: what a move shows to its surroundings

Which jobs a move of a worker, of a caller or of the main thread takes, accepts or drops, for a
program that uses the pool.

* `Taken`, `WorkerMove.taken`       a worker takes a job, ends one, or neither;
* `Verdict`, `CallerMove.verdict`   a call goes on, gets its task accepted, or returns;
* `ReachableBy.emptied`             the queue is empty when `thread_pool_destroy` has thrown the
                                    leftover tasks away.
-/

set_option linter.unusedSimpArgs false

namespace Pool
open State Lts Heap

variable {fl : ℚ → ℚ} {s s' : State} {w c : Nat} {l : List (Ptr × Job)}

/-! ## the threads that do not move -/

theorem WorkerMove.callers_eq (hm : WorkerMove s w s') : s'.callers = s.callers := by
  cases hm <;> rfl

theorem WorkerMove.main_eq (hm : WorkerMove s w s') : s'.main = s.main := by
  cases hm <;> rfl

theorem WorkerMove.accepted_eq (hm : WorkerMove s w s') :
    s'.accepted = s.accepted ∧ s'.drained = s.drained := by
  cases hm <;> exact ⟨rfl, rfl⟩

theorem CallerMove.callers_of_ne (hm : CallerMove fl s c s') {d : Nat} (hd : d ≠ c) :
    s'.callers d = s.callers d := by
  cases hm <;> simp [hd]

theorem CallerMove.main_eq (hm : CallerMove fl s c s') : s'.main = s.main := by
  cases hm <;> rfl

theorem CallerMove.dequeued_eq (hm : CallerMove fl s c s') :
    s'.dequeued = s.dequeued ∧ s'.drained = s.drained := by
  cases hm <;> exact ⟨rfl, rfl⟩

theorem MainMove.callers_eq (hm : MainMove s s') : s'.callers = s.callers := by
  cases hm <;> rfl

theorem MainMove.accepted_eq (hm : MainMove s s') :
    s'.accepted = s.accepted ∧ s'.dequeued = s.dequeued := by
  cases hm <;> exact ⟨rfl, rfl⟩

theorem CallerMove.runs_eq (hC : CreatedInv s) (hq : QueueInv s l) (hm : CallerMove fl s c s')
    (v : Nat) : s'.runs v = s.runs v :=
  runs_pushed (t := .caller c) (by simp) (hm.pushed hC v) (hm.heapFrame hq)

theorem MainMove.runs_eq (hC : CreatedInv s) (hq : QueueInv s l) (hm : MainMove s s') (v : Nat) :
    s'.runs v = s.runs v :=
  runs_pushed (t := .main) (by simp) (hm.pushed hC v) (hm.heapFrame hq)

theorem WorkerMove.runs_of_ne (hq : QueueInv s l) (hm : WorkerMove s w s') {v : Nat} (hv : v ≠ w) :
    s'.runs v = s.runs v :=
  runs_pushed (fun e => hv (Thread.worker.inj e)) (hm.pushed hv) (hm.heapFrame hq)

/-! ## a worker -/

/-- what a move of worker `w` does with jobs -/
inductive Taken (s : State) (w : Nat) (s' : State) : Prop
  | nothing (hd : s'.dequeued = s.dequeued) (hr : s'.runs w = s.runs w)
      (hf : ∀ task start, (s.workers w).pc ≠ .callFunction task start)
  | takes (j : Job) (hd : s'.dequeued = s.dequeued ++ [j]) (hr : s.runs w = none)
      (hr' : s'.runs w = some j) (hf : ∀ task start, (s.workers w).pc ≠ .callFunction task start)
  | ends (task : Ptr) (start : Timespec) (hf : (s.workers w).pc = .callFunction task start)
      (hd : s'.dequeued = s.dequeued) (hr' : s'.runs w = none)

theorem WorkerMove.taken (hm : WorkerMove s w s') : Taken s w s' := by
  cases hm with
  | unlinkHead a n hpc hq hn =>
    refine .takes n.job rfl ?_ ?_ fun task start => ?_
    · simp [State.runs, hpc, WorkerPc.executing]
    · simp [State.runs, WorkerPc.executing, hn]
    · simp [hpc]
  | functionReturns a start t n hpc hn =>
    exact .ends a start hpc rfl (by simp [State.runs, WorkerPc.executing])
  | setcancelFails hpc =>
    rcases hpc with hpc | hpc
    · exact .nothing rfl (by simp [State.runs, hpc, WorkerPc.executing]) fun _ _ => by simp [hpc]
    · exact .nothing rfl (by simp [State.runs, hpc, WorkerPc.executing]) fun _ _ => by simp [hpc]
  | cancelPass v hpc hd hv hb =>
    refine .nothing rfl ?_ fun _ _ => by simp [hpc]
    simp [State.runs, hpc, WorkerPc.executing, Function.update_of_ne hv.symm]
  | _ =>
    refine .nothing rfl ?_ fun _ _ => by simp [*]
    simp [State.runs, WorkerPc.executing, *]

/-! ## a call -/

theorem callerStep_addTask (hi : (s.callers c).pc = .idle) (ho : s.main.opened = true)
    (f argument : Ptr) :
    callerStep fl s c (.addTask (some f) argument) = some { s with
      callers := Function.update s.callers c ⟨.mallocTask ⟨s.calls, f, argument⟩, some s.calls⟩
      calls := s.calls + 1 } := by
  unfold callerStep
  rw [hi]
  show (if s.main.opened then _ else none) = _
  rw [if_pos ho]

/-- what a move of caller `c` does with its call of `thread_pool_add_task` -/
inductive Verdict (s : State) (c : Nat) (s' : State) : Prop
  | continues (ha : s'.accepted = s.accepted) (hb : (s'.callers c).pc ≠ .idle)
      (hu : (s'.callers c).pc.undecided = (s.callers c).pc.undecided)
      (hc : (s'.callers c).call = (s.callers c).call)
  | accepts (a : Ptr) (t : Task) (ha : s'.accepted = s.accepted ++ [t.job])
      (hpc : (s.callers c).pc = .link a) (ht : s.heap a = some t)
      (hpc' : (s'.callers c).pc = .incQueueSize) (hc : (s'.callers c).call = (s.callers c).call)
  | returns (rc : Int) (ha : s'.accepted = s.accepted) (hi : (s'.callers c).pc = .idle)
      (hr : ∀ n, (s.callers c).call = some n → s'.returned = s.returned ++ [(n, rc)])
      (hrc : ((s.callers c).pc.undecided = true ∧ rc = -1) ∨
        ((s.callers c).pc.undecided = false ∧ rc = 0))

theorem CallerMove.verdict (hm : CallerMove fl s c s') (hb : (s.callers c).pc ≠ .idle) :
    Verdict s c s' := by
  cases hm with
  | addNull hpc ho => exact absurd hpc hb
  | addTask f argument hpc ho => exact absurd hpc hb
  | autoScale hpc ho => exact absurd hpc hb
  | mallocFails job hpc =>
    exact .returns (-1) rfl (by simp) (fun n hn => by simp [hn]) (.inl ⟨by rw [hpc]; rfl, rfl⟩)
  | freeReject task hpc =>
    exact .returns (-1) rfl (by simp) (fun n hn => by simp [hn]) (.inl ⟨by rw [hpc]; rfl, rfl⟩)
  | tooEarly now hpc ht =>
    exact .returns 0 rfl (by simp) (fun n hn => by simp [hn]) (.inr ⟨by rw [hpc]; rfl, rfl⟩)
  | scaleUnlock hpc =>
    exact .returns 0 rfl (by simp) (fun n hn => by simp [hn]) (.inr ⟨by rw [hpc]; rfl, rfl⟩)
  | linkFirst a t hpc ht hq => exact .accepts a t rfl hpc ht (by simp) (by simp)
  | linkLast a tail t n hpc ht hq htail hn => exact .accepts a t rfl hpc ht (by simp) (by simp)
  | scaleTest now hpc =>
    obtain ⟨h1, -, h3, -⟩ := scaleBranch_not_early fl s.pool now
    exact .continues rfl (by simpa using h3) (by simp [hpc, h1]; rfl) (by simp)
  | _ =>
    exact .continues rfl (by simp) (by simp [CallerPc.undecided, *]) (by simp)

/-! ## the end -/

/-- the leftover tasks have been thrown away -/
def MainPc.emptied : MainPc → Bool
  | .destroyFree | .destroyed => true
  | _ => false

theorem MainPc.destroying_of_emptied {p : MainPc} (h : p.emptied = true) : p.destroying = true := by
  cases p <;> first | rfl | cases h

theorem WorkerMove.queueHead_none (hm : WorkerMove s w s') (h : s.pool.queueHead = none) :
    s'.pool.queueHead = none := by
  cases hm with
  | unlinkHead task t hpc hq ht =>
    rw [h] at hq
    cases hq
  | _ => exact h

/-- **The queue is empty behind the loop over the leftover tasks.** -/
theorem ReachableBy.emptied {minThreads maxThreads initial : Nat}
    (h : ReachableBy fl NoOverlap minThreads maxThreads initial s) (he : s.main.emptied = true) :
    s.pool.queueHead = none := by
  revert he
  refine h.inv (fun s => s.main.emptied = true → s.pool.queueHead = none)
    (fun now _ _ _ => rfl) fun s l s' hr hI hG hst he => ?_
  cases l with
  | worker w a =>
    have hm := WorkerMove.of_step hst
    rw [hm.main_eq] at he
    exact hm.queueHead_none (hI he)
  | caller c a =>
    have hm := CallerMove.of_step hst
    have hd := hr.joins.not_destroying hG hst
    rw [hm.main_eq] at he
    rw [MainPc.destroying_of_emptied he] at hd
    cases hd
  | main a =>
    have hm := MainMove.of_step hst
    cases hm with
    | drained hpc hq => exact hq
    | destroyFree hpc => exact hI (by rw [hpc]; rfl)
    | drain task t hpc hq ht =>
      rw [show s.main.emptied = true from he] at hI
      exact absurd (hI rfl) (by rw [hq]; simp)
    | _ => simp_all [MainPc.emptied]

end Pool
