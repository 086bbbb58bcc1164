import RobotDialog.Pool.Calls
import RobotDialog.Lib.Family

/-!
# The thread pool: the three counters

* `State.count p`       how many workers are at a program point of the kind `p`;
* `WorkerMove.count`, `CallerMove.count`, `MainMove.count`   how a move changes it;
* `State.sizeDebt`      what `queue_size` is ahead of or behind the list while a thread that has
                        the mutex is between the two updates;
* `CounterInv`          `queue_size`, `active_threads` and `total_tasks_completed` against the history;
* `ReachableBy.counters` it holds of every reachable state.
-/

set_option linter.unusedSimpArgs false

namespace Pool
open State Lts

variable {fl : ℚ → ℚ} {s s' : State} {w c : Nat}

/-! ## counting workers -/

/-- the workers at a program point of the kind `p` -/
def State.count (p : WorkerPc → Bool) (s : State) : Nat :=
  ((Finset.range s.created).filter fun v => p (s.workers v).pc = true).card

/-- a kind of program points that a worker does not enter or leave because another thread moves -/
structure Settled (p : WorkerPc → Bool) : Prop where
  notCreated : p .notCreated = false
  lock : p .lock = false
  wake : p .woken = p .blocked

theorem Settled.pushed {p : WorkerPc → Bool} (hp : Settled p) {x y : WorkerPc} (h : x.Pushed y) :
    p y = p x :=
  h.view p hp.wake (by rw [hp.lock, hp.notCreated])

/-- the contribution of worker `v` -/
def State.tick (p : WorkerPc → Bool) (s : State) (v : Nat) : Nat :=
  if p (s.workers v).pc = true then 1 else 0

theorem count_eq_total (p : WorkerPc → Bool) (s : State) :
    s.count p = Family.total s.created (s.tick p) :=
  Finset.card_filter ..

theorem WorkerMove.created_eq (hm : WorkerMove s w s') : s'.created = s.created := by
  cases hm <;> rfl

theorem WorkerMove.exists (hC : CreatedInv s) (hm : WorkerMove s w s') : w < s.created := by
  by_contra hw
  have hpc := (hC w).mpr (by omega)
  cases hm with
  | setcancelFails h => rcases h with h | h <;> simp [hpc] at h
  | _ => simp_all

/-- **Counting after a move of worker `w`.** -/
theorem WorkerMove.count {p : WorkerPc → Bool} (hp : Settled p) (hC : CreatedInv s)
    (hm : WorkerMove s w s') : s'.count p + s.tick p w = s.count p + s'.tick p w := by
  rw [count_eq_total, count_eq_total, hm.created_eq]
  refine Family.total_move (hm.exists hC) fun v hv => ?_
  unfold State.tick
  rw [hp.pushed (hm.pushed hv)]

theorem count_pushed {p : WorkerPc → Bool} (hp : Settled p) (hC : CreatedInv s)
    (hcr : s.created ≤ s'.created)
    (hpush : ∀ v, (s.workers v).pc.Pushed (s'.workers v).pc) : s'.count p = s.count p := by
  rw [count_eq_total, count_eq_total]
  refine Family.total_grow hcr (fun v => ?_) fun v hv => ?_
  · unfold State.tick
    rw [hp.pushed (hpush v)]
  · unfold State.tick
    rw [(hC v).mpr hv, hp.notCreated]
    rfl

theorem CallerMove.created_le (hm : CallerMove fl s c s') : s.created ≤ s'.created := by
  cases hm <;> first | exact Nat.le_succ _ | exact le_rfl

theorem MainMove.created_le (hm : MainMove s s') : s.created ≤ s'.created := by
  cases hm <;> first | exact Nat.le_succ _ | exact le_rfl

theorem CallerMove.count {p : WorkerPc → Bool} (hp : Settled p) (hC : CreatedInv s)
    (hm : CallerMove fl s c s') : s'.count p = s.count p :=
  count_pushed hp hC hm.created_le (hm.pushed hC)

theorem MainMove.count {p : WorkerPc → Bool} (hp : Settled p) (hC : CreatedInv s)
    (hm : MainMove s s') : s'.count p = s.count p :=
  count_pushed hp hC hm.created_le (hm.pushed hC)

/-! ## `queue_size` between the two updates -/

/-- the worker has unlinked a node and not yet counted it -/
def WorkerPc.sizeDebt : WorkerPc → Int
  | .fixTail _ | .decQueueSize _ => 1
  | _ => 0

/-- the caller has linked a node and not yet counted it -/
def CallerPc.sizeDebt : CallerPc → Int
  | .incQueueSize => -1
  | _ => 0

def State.debtOf (s : State) : Thread → Int
  | .worker w => (s.workers w).pc.sizeDebt
  | .caller c => (s.callers c).pc.sizeDebt
  | .main => 0

def State.sizeDebt (s : State) : Int := s.owner.elim 0 s.debtOf

theorem debtOf_of_not_holds {t : Thread} (h : s.holds t = false) : s.debtOf t = 0 := by
  cases t with
  | worker w =>
    have h' : (s.workers w).pc.holds = false := h
    show (s.workers w).pc.sizeDebt = 0
    cases e : (s.workers w).pc <;> first | rfl | (rw [e] at h'; cases h')
  | caller c =>
    have h' : (s.callers c).pc.holds = false := h
    show (s.callers c).pc.sizeDebt = 0
    cases e : (s.callers c).pc <;> first | rfl | (rw [e] at h'; cases h')
  | main => rfl

/-- **The debt after a move of thread `t`.** -/
theorem sizeDebt_move (hM : MutexInv s) {t : Thread} (he : LockEffect s t s')
    (hf : ∀ u, u ≠ t → s'.debtOf u = s.debtOf u) :
    s'.sizeDebt + s.debtOf t = s.sizeDebt + s'.debtOf t := by
  unfold State.sizeDebt
  cases he with
  | acquire hfree ho ht =>
    rw [ho, hfree, debtOf_of_not_holds (hM.free hfree t)]
    simp
  | release hs ho ht =>
    rw [ho, (hM t).mp hs, debtOf_of_not_holds ht]
    simp
  | keep ho ht =>
    rw [ho]
    cases hown : s.owner with
    | none =>
      have h := hM.free hown t
      rw [debtOf_of_not_holds h, debtOf_of_not_holds (ht.trans h)]
      rfl
    | some u =>
      by_cases e : u = t
      · subst e
        simp [add_comm]
      · have h : s.holds t = false := by
          by_contra hc
          have hc' := (hM t).mp (by simpa using hc)
          rw [hown] at hc'
          exact e (Option.some.inj hc')
        rw [debtOf_of_not_holds h, debtOf_of_not_holds (ht.trans h)]
        simp [hf u e]

theorem WorkerPc.Pushed.sizeDebt {p q : WorkerPc} (h : p.Pushed q) : q.sizeDebt = p.sizeDebt :=
  h.view WorkerPc.sizeDebt rfl rfl

theorem WorkerMove.debtFrame (hm : WorkerMove s w s') (u : Thread) (hu : u ≠ .worker w) :
    s'.debtOf u = s.debtOf u := by
  cases u with
  | worker v => exact (hm.pushed fun e => hu (e ▸ rfl)).sizeDebt
  | caller c => cases hm <;> rfl
  | main => rfl

theorem CallerMove.debtFrame (hC : CreatedInv s) (hm : CallerMove fl s c s') (u : Thread)
    (hu : u ≠ .caller c) : s'.debtOf u = s.debtOf u := by
  cases u with
  | worker v => exact (hm.pushed hC v).sizeDebt
  | caller d =>
    have hd : d ≠ c := fun e => hu (e ▸ rfl)
    cases hm <;> simp [State.debtOf, hd]
  | main => rfl

theorem MainMove.debtFrame (hC : CreatedInv s) (hm : MainMove s s') (u : Thread) :
    s'.debtOf u = s.debtOf u := by
  cases u with
  | worker v => exact (hm.pushed hC v).sizeDebt
  | caller d => cases hm <;> rfl
  | main => rfl

/-! ## the counters -/

/-- between `active_threads + 1` and `active_threads - 1` -/
def WorkerPc.active : WorkerPc → Bool
  | .unlockTask _ | .startClock _ | .callFunction _ _ | .lockStats _ _ | .addCompleted _ _
  | .updateMin _ _ | .updateMax _ _ | .decActive _ => true
  | _ => false

/-- the function of the task has returned, `total_tasks_completed` does not show it yet -/
def WorkerPc.uncounted : WorkerPc → Bool
  | .lockStats _ _ | .addCompleted _ _ => true
  | _ => false

theorem settled_active : Settled WorkerPc.active := ⟨rfl, rfl, rfl⟩

theorem settled_uncounted : Settled WorkerPc.uncounted := ⟨rfl, rfl, rfl⟩

structure CounterInv (s : State) : Prop where
  size : s.pool.queueSize + s.dequeued.length = s.accepted.length + s.sizeDebt
  active : s.pool.activeThreads = s.count WorkerPc.active
  completed : s.pool.totalTasksCompleted + s.count WorkerPc.uncounted = s.completed.length

theorem CounterInv.start (minThreads maxThreads initial : Nat) (now : Int) :
    CounterInv (startState minThreads maxThreads initial now) :=
  ⟨rfl, rfl, rfl⟩

theorem WorkerMove.size (hm : WorkerMove s w s') :
    s'.pool.queueSize + s'.dequeued.length + s.debtOf (.worker w) =
      s.pool.queueSize + s.dequeued.length + s'.debtOf (.worker w) ∧
        s'.accepted = s.accepted := by
  cases hm with
  | setcancelFails hpc => rcases hpc with hpc | hpc <;> simp [State.debtOf, hpc, WorkerPc.sizeDebt]
  | cancelPass v hpc hd hv hb =>
    simp [State.debtOf, hpc, WorkerPc.sizeDebt, Function.update_of_ne hv.symm]
  | _ => simp [State.debtOf, WorkerPc.sizeDebt, *] <;> omega

theorem WorkerMove.active (hm : WorkerMove s w s') :
    s'.pool.activeThreads + s.tick WorkerPc.active w =
      s.pool.activeThreads + s'.tick WorkerPc.active w := by
  cases hm with
  | setcancelFails hpc => rcases hpc with hpc | hpc <;> simp [State.tick, hpc, WorkerPc.active]
  | cancelPass v hpc hd hv hb =>
    simp [State.tick, hpc, WorkerPc.active, Function.update_of_ne hv.symm]
  | _ => simp [State.tick, WorkerPc.active, *]

theorem WorkerMove.completed (hm : WorkerMove s w s') :
    s'.pool.totalTasksCompleted + s'.tick WorkerPc.uncounted w + s.completed.length =
      s.pool.totalTasksCompleted + s.tick WorkerPc.uncounted w + s'.completed.length := by
  cases hm with
  | setcancelFails hpc => rcases hpc with hpc | hpc <;> simp [State.tick, hpc, WorkerPc.uncounted]
  | cancelPass v hpc hd hv hb =>
    simp [State.tick, hpc, WorkerPc.uncounted, Function.update_of_ne hv.symm]
  | _ => simp [State.tick, WorkerPc.uncounted, *] <;> omega

theorem scaleBranch_sizeDebt (fl : ℚ → ℚ) (p : ThreadPool) (now : Int) :
    (scaleBranch fl p now).sizeDebt = 0 := by
  unfold scaleBranch
  split
  · rfl
  · split <;> rfl

theorem CallerMove.size (hm : CallerMove fl s c s') :
    s'.pool.queueSize + s.accepted.length + s.debtOf (.caller c) =
      s.pool.queueSize + s'.accepted.length + s'.debtOf (.caller c) ∧
        s'.dequeued = s.dequeued := by
  cases hm with
  | scaleTest now hpc =>
    have h := scaleBranch_sizeDebt fl s.pool now
    have h0 : (s.callers c).pc.sizeDebt = 0 := by rw [hpc]; rfl
    simp [State.debtOf, h, h0]
  | _ => simp [State.debtOf, CallerPc.sizeDebt, *] <;> omega

theorem CounterInv.worker_step (hC : CreatedInv s) (hM : MutexInv s) (h : CounterInv s)
    (hm : WorkerMove s w s') : CounterInv s' := by
  obtain ⟨hsize, hacc⟩ := hm.size
  have hdebt := sizeDebt_move hM hm.lockEffect hm.debtFrame
  have hactive := hm.active
  have hcount := hm.count settled_active hC
  have hcompleted := hm.completed
  have hcount' := hm.count settled_uncounted hC
  obtain ⟨h1, h2, h3⟩ := h
  refine ⟨?_, ?_, ?_⟩
  · rw [hacc]
    omega
  · omega
  · omega

theorem CounterInv.caller_step (hC : CreatedInv s) (hM : MutexInv s) (h : CounterInv s)
    (hm : CallerMove fl s c s') : CounterInv s' := by
  obtain ⟨hsize, hdeq⟩ := hm.size
  have hdebt := sizeDebt_move hM hm.lockEffect (hm.debtFrame hC)
  obtain ⟨h1, h2, h3⟩ := h
  refine ⟨?_, ?_, ?_⟩
  · rw [hdeq]
    omega
  · rw [hm.count settled_active hC, ← h2]
    cases hm <;> rfl
  · rw [hm.count settled_uncounted hC]
    cases hm <;> exact h3

theorem CounterInv.main_step (hC : CreatedInv s) (hM : MutexInv s) (h : CounterInv s)
    (hm : MainMove s s') : CounterInv s' := by
  have hdebt := sizeDebt_move hM hm.lockEffect fun u _ => hm.debtFrame hC u
  have hzero : s'.sizeDebt = s.sizeDebt := by
    simpa [State.debtOf] using hdebt
  obtain ⟨h1, h2, h3⟩ := h
  refine ⟨?_, ?_, ?_⟩
  · rw [hzero]
    cases hm <;> exact h1
  · rw [hm.count settled_active hC, ← h2]
    cases hm <;> rfl
  · rw [hm.count settled_uncounted hC]
    cases hm <;> exact h3

theorem CounterInv.step (hC : CreatedInv s) (hM : MutexInv s) (h : CounterInv s) (l : Label)
    (hs : step fl l s = some s') : CounterInv s' := by
  cases l with
  | worker w a => exact h.worker_step hC hM (.of_step hs)
  | caller c a => exact h.caller_step hC hM (.of_step hs)
  | main a => exact h.main_step hC hM (.of_step hs)

theorem ReachableBy.counters {G : State → Label → Prop} {minThreads maxThreads initial : Nat}
    (h : ReachableBy fl G minThreads maxThreads initial s) : CounterInv s :=
  h.inv CounterInv (fun now _ _ => CounterInv.start _ _ _ now)
    fun _ l _ hr hI _ hs => hI.step hr.created hr.mutex l hs

end Pool
