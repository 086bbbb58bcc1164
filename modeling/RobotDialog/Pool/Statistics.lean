import RobotDialog.Pool.Load
import RobotDialog.Lib.Extremum

/-!
# The thread pool: the task times

A worker measures how long its task took and enters the time into four counters, in its second
locked region.  `min_task_time_ms` is 0 as long as there is no time, and 0 is a time too: a task of
less than a millisecond.

* `Timed`, `timedStep`   the pool with the times measured and the times entered so far;
* `State.due`            the time that the owner of the mutex has still to enter into a counter;
* `StatsInv`             the four counters against the history;
* `TimedBy.nonNegative`  no time is negative if the clock does not go back while a task runs;
* `taskTimes_exact`      the counters when the mutex is free;
* `minTaskTime_forgets`  two tasks, of 0 and 5 milliseconds: the minimum rises to 5;
* `printStats_between`   what `thread_pool_print_stats` prints then.
-/

set_option linter.unusedSimpArgs false

namespace Pool
open State Lts Running

variable {fl : ℚ → ℚ} {s s' : State} {w c : Nat}

/-! ## the history of the times -/

/-- the time that a worker measures when its task's function returns at `stop` -/
def WorkerPc.measures (stop : Timespec) : WorkerPc → List Int
  | .callFunction _ start => [taskTimeMs start stop]
  | _ => []

/-- the time that a worker adds to the total with its next statement -/
def WorkerPc.records : WorkerPc → List Int
  | .addCompleted _ ms => [ms]
  | _ => []

def measuredBy (s : State) : Label → List Int
  | .worker w (.clock stop) => (s.workers w).pc.measures stop
  | _ => []

def recordedBy (s : State) : Label → List Int
  | .worker w _ => (s.workers w).pc.records
  | _ => []

/-- a state with the times measured and the times entered so far -/
structure Timed where
  state : State
  measured : List Int
  recorded : List Int

/-- the step of the pool, with the history of the times -/
def timedStep (fl : ℚ → ℚ) (l : Label) (t : Timed) : Option Timed :=
  (step fl l t.state).map fun s' =>
    ⟨s', t.measured ++ measuredBy t.state l, t.recorded ++ recordedBy t.state l⟩

/-- the states with history of the runs of a pool whose steps satisfy `G` -/
def TimedBy (fl : ℚ → ℚ) (G : Timed → Label → Prop) (minThreads maxThreads initial : Nat)
    (t : Timed) : Prop :=
  ∃ now mallocOk mutexOk condOk s₀,
    threadPoolCreateWithLimits minThreads maxThreads initial now mallocOk mutexOk condOk = some s₀ ∧
      Reach (timedStep fl) G ⟨s₀, [], []⟩ t

section
variable {G : Timed → Label → Prop} {minThreads maxThreads initial : Nat} {t : Timed}

theorem TimedBy.reachable (h : TimedBy fl G minThreads maxThreads initial t) :
    Reachable fl minThreads maxThreads initial t.state := by
  obtain ⟨now, b₁, b₂, b₃, s₀, hc, hr⟩ := h
  have hsim : ∃ s, Reach (step fl) Any s₀ s ∧ s = t.state :=
    hr.simulate (R := fun (t : Timed) (s : State) => s = t.state) rfl fun t l t' s _ hR hst => by
      obtain ⟨s', hs', rfl⟩ := Option.map_eq_some_iff.mp hst
      exact .inr ⟨l, s', trivial, hR ▸ hs', rfl⟩
  obtain ⟨s, hs, rfl⟩ := hsim
  exact ⟨now, b₁, b₂, b₃, s₀, hc, hs⟩

/-- **The invariant rule for runs with history.** -/
theorem TimedBy.inv (I : Timed → Prop)
    (h0 : ∀ now, I ⟨startState minThreads maxThreads initial now, [], []⟩)
    (hstep : ∀ (t : Timed) l s', Reachable fl minThreads maxThreads initial t.state → I t → G t l →
      step fl l t.state = some s' →
        I ⟨s', t.measured ++ measuredBy t.state l, t.recorded ++ recordedBy t.state l⟩)
    (h : TimedBy fl G minThreads maxThreads initial t) : I t := by
  obtain ⟨now, b₁, b₂, b₃, s₀, hc, hr⟩ := h
  obtain ⟨_, _, rfl⟩ := create_eq hc
  refine hr.inv I (h0 now) fun t l t' ht hI hG hst => ?_
  obtain ⟨s', hs', rfl⟩ := Option.map_eq_some_iff.mp hst
  exact hstep t l s' (TimedBy.reachable ⟨now, b₁, b₂, b₃, _, hc, ht⟩) hI hG hs'

theorem TimedBy.trans {t' : Timed} (h : TimedBy fl G minThreads maxThreads initial t)
    (hr : Reach (timedStep fl) G t t') : TimedBy fl G minThreads maxThreads initial t' := by
  induction hr with
  | start => exact h
  | next l _ hG hst ih =>
    obtain ⟨now, b₁, b₂, b₃, s₀, hc, hs⟩ := ih
    exact ⟨now, b₁, b₂, b₃, s₀, hc, hs.next l hG hst⟩

theorem TimedBy.mono {G' : Timed → Label → Prop} (hG : ∀ t l, G t l → G' t l)
    (h : TimedBy fl G minThreads maxThreads initial t) :
    TimedBy fl G' minThreads maxThreads initial t := by
  obtain ⟨now, b₁, b₂, b₃, s₀, hc, hs⟩ := h
  exact ⟨now, b₁, b₂, b₃, s₀, hc, hs.mono hG⟩

end

theorem recorded_grows {G : Timed → Label → Prop} {t t' : Timed}
    (h : Reach (timedStep fl) G t t') : ∃ k, t'.recorded = t.recorded ++ k := by
  refine h.inv (fun u => ∃ k, u.recorded = t.recorded ++ k) ⟨[], by simp⟩
    fun u l u' _ hI _ hst => ?_
  obtain ⟨k, hk⟩ := hI
  obtain ⟨s', _, rfl⟩ := Option.map_eq_some_iff.mp hst
  exact ⟨k ++ recordedBy u.state l, by rw [← List.append_assoc, ← hk]⟩

/-! ## what the owner of the mutex has still to enter -/

/-- the time that `min_task_time_ms` does not show yet -/
def WorkerPc.minDue : WorkerPc → List Int
  | .updateMin _ ms => [ms]
  | _ => []

/-- the time that `max_task_time_ms` does not show yet -/
def WorkerPc.maxDue : WorkerPc → List Int
  | .updateMin _ ms | .updateMax _ ms => [ms]
  | _ => []

/-- only a worker that has the mutex is behind with its entries -/
def Locked (due : WorkerPc → List Int) : Prop := ∀ p : WorkerPc, p.holds = false → due p = []

theorem locked_minDue : Locked WorkerPc.minDue := by
  intro p h
  cases p <;> first | rfl | cases h

theorem locked_maxDue : Locked WorkerPc.maxDue := by
  intro p h
  cases p <;> first | rfl | cases h

def State.dueOf (due : WorkerPc → List Int) (s : State) : Thread → List Int
  | .worker w => due (s.workers w).pc
  | _ => []

/-- what the owner of the mutex has still to enter -/
def State.due (due : WorkerPc → List Int) (s : State) : List Int := s.owner.elim [] (s.dueOf due)

section
variable {due : WorkerPc → List Int} {t : Thread}

theorem due_free (hfree : s.owner = none) : s.due due = [] := by
  unfold State.due
  rw [hfree]
  rfl

theorem due_of_holds (hM : MutexInv s) (h : s.holds t = true) : s.due due = s.dueOf due t := by
  unfold State.due
  rw [(hM t).mp h]
  rfl

theorem Locked.pushed (hd : Locked due) {p q : WorkerPc} (h : p.Pushed q) : due q = due p :=
  h.view due (by rw [hd .woken rfl, hd .blocked rfl]) (by rw [hd .lock rfl, hd .notCreated rfl])

/-- A move of a thread that is not behind, neither before nor after it. -/
theorem due_quiet (hM : MutexInv s) (he : LockEffect s t s') (h : s.dueOf due t = [])
    (h' : s'.dueOf due t = []) (hf : ∀ u, u ≠ t → s'.dueOf due u = s.dueOf due u) :
    s'.due due = s.due due := by
  unfold State.due
  cases he with
  | acquire hfree ho _ =>
    rw [ho, hfree]
    exact h'
  | release hs ho _ =>
    rw [ho, (hM t).mp hs]
    exact h.symm
  | keep ho _ =>
    rw [ho]
    cases s.owner with
    | none => rfl
    | some u =>
      show s'.dueOf due u = s.dueOf due u
      by_cases e : u = t
      · rw [e, h, h']
      · exact hf u e

theorem WorkerMove.dueFrame (hd : Locked due) (hm : WorkerMove s w s') (u : Thread)
    (hu : u ≠ .worker w) : s'.dueOf due u = s.dueOf due u := by
  cases u with
  | worker v => exact hd.pushed (hm.pushed fun e => hu (e ▸ rfl))
  | caller c => rfl
  | main => rfl

theorem dueFrame_pushed (hd : Locked due) (h : ∀ v, (s.workers v).pc.Pushed (s'.workers v).pc)
    (u : Thread) : s'.dueOf due u = s.dueOf due u := by
  cases u with
  | worker v => exact hd.pushed (h v)
  | caller c => rfl
  | main => rfl

end

theorem dueOf_minDue {t : Thread} (h : s.dueOf WorkerPc.maxDue t = []) :
    s.dueOf WorkerPc.minDue t = [] := by
  cases t with
  | worker v =>
    show (s.workers v).pc.minDue = []
    have h' : (s.workers v).pc.maxDue = [] := h
    cases e : (s.workers v).pc <;> first | rfl | (rw [e] at h'; cases h')
  | caller c => rfl
  | main => rfl

/-- the value `v` is the result of `f` on all entered times but the last ones, that are due -/
def Lags (f : List Int → Int) (v : Int) (due recorded : List Int) : Prop :=
  ∃ l, recorded = l ++ due ∧ v = f l

theorem Lags.enter {f : List Int → Int} {v ms : Int} {recorded : List Int}
    (h : Lags f v [] recorded) : Lags f v [ms] (recorded ++ [ms]) := by
  obtain ⟨l, hl, hv⟩ := h
  exact ⟨l, by rw [hl, List.append_nil], hv⟩

theorem Lags.pay {f : List Int → Int} {g : Int → Int → Int} {v ms : Int} {recorded : List Int}
    (hf : ∀ l ms, f (l ++ [ms]) = g (f l) ms) (h : Lags f v [ms] recorded) :
    Lags f (g v ms) [] recorded := by
  obtain ⟨l, hl, rfl⟩ := h
  exact ⟨l ++ [ms], by rw [hl, List.append_nil], (hf l ms).symm⟩

theorem Lags.done {f : List Int → Int} {v : Int} {recorded : List Int}
    (h : Lags f v [] recorded) : v = f recorded := by
  obtain ⟨l, hl, hv⟩ := h
  rw [hv, hl, List.append_nil]

/-! ## measured and not entered -/

/-- the time that the worker has measured and not added to the total -/
def WorkerPc.pending : WorkerPc → Option Int
  | .lockStats _ ms | .addCompleted _ ms => some ms
  | _ => none

/-- the times that are measured and not entered -/
def State.pending (s : State) : Multiset Int :=
  Family.jobs s.created fun v => (s.workers v).pc.pending

theorem WorkerPc.Pushed.pending {p q : WorkerPc} (h : p.Pushed q) : q.pending = p.pending :=
  h.view WorkerPc.pending rfl rfl

theorem pending_pushed (hC : CreatedInv s) (hcr : s.created ≤ s'.created)
    (hpush : ∀ v, (s.workers v).pc.Pushed (s'.workers v).pc) : s'.pending = s.pending := by
  unfold State.pending Family.jobs
  refine Family.total_grow hcr (fun v => ?_) fun v hv => ?_
  · show Family.item (s'.workers v).pc.pending = Family.item (s.workers v).pc.pending
    rw [(hpush v).pending]
  · show Family.item (s.workers v).pc.pending = 0
    rw [(hC v).mpr hv]
    rfl

theorem callFunction_label {a : WorkerAct} {task : Ptr} {start : Timespec}
    (hpc : (s.workers w).pc = .callFunction task start) (hst : workerStep s w a = some s') :
    ∃ stop, a = .clock stop ∧
      (s'.workers w).pc = .lockStats task (taskTimeMs start stop) := by
  unfold workerStep at hst
  rw [hpc] at hst
  cases a with
  | clock stop =>
    refine ⟨stop, rfl, ?_⟩
    simp only at hst
    split at hst <;> cases hst
    simp
  | _ => cases hst

theorem measuredBy_eq_nil (h : ∀ task start, (s.workers w).pc ≠ .callFunction task start)
    (a : WorkerAct) : measuredBy s (.worker w a) = [] := by
  cases a with
  | clock stop =>
    show (s.workers w).pc.measures stop = []
    cases e : (s.workers w).pc <;> first | rfl | exact absurd e (h _ _)
  | _ => rfl

theorem pending_move {a : WorkerAct} (hst : workerStep s w a = some s') :
    Family.item (s'.workers w).pc.pending + (recordedBy s (.worker w a) : Multiset Int) =
      Family.item (s.workers w).pc.pending + (measuredBy s (.worker w a) : Multiset Int) := by
  by_cases hcall : ∃ task start, (s.workers w).pc = .callFunction task start
  · obtain ⟨task, start, hpc⟩ := hcall
    obtain ⟨stop, rfl, hpc'⟩ := callFunction_label hpc hst
    simp [recordedBy, measuredBy, hpc, hpc', WorkerPc.pending, WorkerPc.records, WorkerPc.measures]
  · rw [measuredBy_eq_nil (fun task start e => hcall ⟨task, start, e⟩)]
    unfold recordedBy
    cases WorkerMove.of_step hst with
    | functionReturns task start t n hpc hn => exact absurd ⟨task, start, hpc⟩ hcall
    | setcancelFails hpc =>
      rcases hpc with hpc | hpc <;> simp [hpc, WorkerPc.pending, WorkerPc.records]
    | cancelPass v hpc hd hv hb =>
      simp [hpc, WorkerPc.pending, WorkerPc.records, Function.update_of_ne hv.symm]
    | _ => simp [WorkerPc.pending, WorkerPc.records, *]

/-- **The measured times that are not entered**, after a move of worker `w`. -/
theorem pending_worker_step (hC : CreatedInv s) {a : WorkerAct}
    (hst : workerStep s w a = some s') :
    (recordedBy s (.worker w a) : Multiset Int) + s'.pending =
      s.pending + (measuredBy s (.worker w a) : Multiset Int) := by
  have hm := WorkerMove.of_step hst
  have htotal : s'.pending + Family.item (s.workers w).pc.pending =
      s.pending + Family.item (s'.workers w).pc.pending := by
    unfold State.pending Family.jobs
    rw [hm.created_eq]
    refine Family.total_move (f := fun v => Family.item (s.workers v).pc.pending)
      (hm.exists hC) fun v hv => ?_
    show Family.item (s'.workers v).pc.pending = Family.item (s.workers v).pc.pending
    rw [(hm.pushed hv).pending]
  apply add_right_cancel (b := Family.item (s.workers w).pc.pending)
  calc (recordedBy s (.worker w a) : Multiset Int) + s'.pending +
        Family.item (s.workers w).pc.pending
      = (s'.pending + Family.item (s.workers w).pc.pending) + recordedBy s (.worker w a) := by abel
    _ = s.pending + (Family.item (s'.workers w).pc.pending + recordedBy s (.worker w a)) := by
      rw [htotal, add_assoc]
    _ = s.pending + measuredBy s (.worker w a) + Family.item (s.workers w).pc.pending := by
      rw [pending_move hst]
      abel

theorem completed_move {a : WorkerAct} (hst : workerStep s w a = some s') :
    s'.completed.length = s.completed.length + (measuredBy s (.worker w a)).length := by
  by_cases hcall : ∃ task start, (s.workers w).pc = .callFunction task start
  · obtain ⟨task, start, hpc⟩ := hcall
    obtain ⟨stop, rfl, -⟩ := callFunction_label hpc hst
    simp only [workerStep, hpc] at hst
    split at hst <;> cases hst
    simp [measuredBy, hpc, WorkerPc.measures]
  · rw [measuredBy_eq_nil (fun task start e => hcall ⟨task, start, e⟩)]
    cases WorkerMove.of_step hst with
    | functionReturns task start t n hpc hn => exact absurd ⟨task, start, hpc⟩ hcall
    | _ => rfl

/-! ## the four counters -/

/-- **The four counters**: the count and the sum show every entered time, the two extrema all but
the one that the owner of the mutex is about to enter -/
structure StatsInv (t : Timed) : Prop where
  finished : t.measured.length = t.state.completed.length
  account : (t.recorded : Multiset Int) + t.state.pending = t.measured
  count : t.state.pool.totalTasksCompleted = t.recorded.length
  sum : t.state.pool.totalTaskTimeMs = t.recorded.sum
  min : Lags (runMin 0) t.state.pool.minTaskTimeMs (t.state.due WorkerPc.minDue) t.recorded
  max : Lags (runMax 0) t.state.pool.maxTaskTimeMs (t.state.due WorkerPc.maxDue) t.recorded

theorem StatsInv.start (minThreads maxThreads initial : Nat) (now : Int) :
    StatsInv ⟨startState minThreads maxThreads initial now, [], []⟩ :=
  ⟨rfl, rfl, rfl, rfl, ⟨[], rfl, rfl⟩, ⟨[], rfl, rfl⟩⟩

/-- the two extrema against the entered times -/
def ExtremaInv (s : State) (recorded : List Int) : Prop :=
  Lags (runMin 0) s.pool.minTaskTimeMs (s.due WorkerPc.minDue) recorded ∧
    Lags (runMax 0) s.pool.maxTaskTimeMs (s.due WorkerPc.maxDue) recorded

theorem ExtremaInv.quiet {recorded : List Int} {t : Thread} (hM : MutexInv s)
    (h : ExtremaInv s recorded) (he : LockEffect s t s') (hq : s.dueOf WorkerPc.maxDue t = [])
    (hq' : s'.dueOf WorkerPc.maxDue t = [])
    (hf : ∀ due, Locked due → ∀ u, u ≠ t → s'.dueOf due u = s.dueOf due u)
    (hmin : s'.pool.minTaskTimeMs = s.pool.minTaskTimeMs)
    (hmax : s'.pool.maxTaskTimeMs = s.pool.maxTaskTimeMs) : ExtremaInv s' recorded := by
  unfold ExtremaInv
  rw [hmin, hmax, due_quiet hM he hq hq' (hf _ locked_maxDue),
    due_quiet hM he (dueOf_minDue hq) (dueOf_minDue hq') (hf _ locked_minDue)]
  exact h

theorem ExtremaInv.worker_step {recorded : List Int} (hM : MutexInv s) (hM' : MutexInv s')
    (h : ExtremaInv s recorded) (hm : WorkerMove s w s') :
    ExtremaInv s' (recorded ++ (s.workers w).pc.records) := by
  have hlock := hm.lockEffect
  have hframe := fun due (hd : Locked due) => hm.dueFrame hd
  -- the owner, before and after the three statements that touch the times
  have hown : (s.workers w).pc.holds = true → ∀ due, s.due due = due (s.workers w).pc :=
    fun h due => due_of_holds (t := .worker w) hM h
  have hown' : (s'.workers w).pc.holds = true → ∀ due, s'.due due = due (s'.workers w).pc :=
    fun h due => due_of_holds (t := .worker w) hM' h
  cases hm with
  | addCompleted task ms hpc =>
    obtain ⟨hmin, hmax⟩ := h
    rw [hown (by rw [hpc]; rfl), hpc] at hmin hmax
    unfold ExtremaInv
    rw [hown' (by simp [WorkerPc.holds]), hown' (by simp [WorkerPc.holds]), hpc]
    simpa [WorkerPc.minDue, WorkerPc.maxDue, WorkerPc.records] using ⟨hmin.enter, hmax.enter⟩
  | updateMin task ms hpc =>
    obtain ⟨hmin, hmax⟩ := h
    rw [hown (by rw [hpc]; rfl), hpc] at hmin hmax
    have hmin' : Lags (runMin 0) (minStep 0 s.pool.minTaskTimeMs ms) [] recorded :=
      hmin.pay (runMin_concat 0)
    unfold ExtremaInv
    rw [hown' (by simp [WorkerPc.holds]), hown' (by simp [WorkerPc.holds]), hpc]
    simpa [minStep, WorkerPc.minDue, WorkerPc.maxDue, WorkerPc.records] using ⟨hmin', hmax⟩
  | updateMax task ms hpc =>
    obtain ⟨hmin, hmax⟩ := h
    rw [hown (by rw [hpc]; rfl), hpc] at hmin hmax
    have hmax' : Lags (runMax 0) (maxStep s.pool.maxTaskTimeMs ms) [] recorded :=
      hmax.pay (runMax_concat 0)
    unfold ExtremaInv
    rw [hown' (by simp [WorkerPc.holds]), hown' (by simp [WorkerPc.holds]), hpc]
    simpa [maxStep, WorkerPc.minDue, WorkerPc.maxDue, WorkerPc.records] using ⟨hmin, hmax'⟩
  | setcancelFails hpc =>
    have hidle : (s.workers w).pc.records = [] ∧ (s.workers w).pc.maxDue = [] := by
      rcases hpc with hpc | hpc <;> rw [hpc] <;> exact ⟨rfl, rfl⟩
    rw [hidle.1, List.append_nil]
    exact h.quiet hM hlock hidle.2 (by simp [State.dueOf, WorkerPc.maxDue]) hframe rfl rfl
  | cancelPass v hpc hd hv hb =>
    have hnone : (s.workers w).pc.records = [] := by rw [hpc]; rfl
    rw [hnone, List.append_nil]
    exact h.quiet hM hlock (by simp [State.dueOf, hpc, WorkerPc.maxDue])
      (by simp [State.dueOf, WorkerPc.maxDue, Function.update_of_ne hv.symm]) hframe rfl rfl
  | _ =>
    have hidle : (s.workers w).pc.records = [] ∧ (s.workers w).pc.maxDue = [] := by
      simp [WorkerPc.records, WorkerPc.maxDue, *]
    rw [hidle.1, List.append_nil]
    exact h.quiet hM hlock hidle.2 (by simp [State.dueOf, WorkerPc.maxDue]) hframe rfl rfl

theorem WorkerMove.totals (hm : WorkerMove s w s') :
    s'.pool.totalTasksCompleted =
        s.pool.totalTasksCompleted + (s.workers w).pc.records.length ∧
      s'.pool.totalTaskTimeMs = s.pool.totalTaskTimeMs + (s.workers w).pc.records.sum := by
  cases hm with
  | setcancelFails hpc => rcases hpc with hpc | hpc <;> simp [hpc, WorkerPc.records]
  | _ => simp [WorkerPc.records, *]

theorem StatsInv.worker_step {t : Timed} (hC : CreatedInv t.state) (hM : MutexInv t.state)
    (h : StatsInv t) {a : WorkerAct} (hst : workerStep t.state w a = some s') :
    StatsInv ⟨s', t.measured ++ measuredBy t.state (.worker w a),
      t.recorded ++ recordedBy t.state (.worker w a)⟩ := by
  have hm := WorkerMove.of_step hst
  have hM' : MutexInv s' := hM.move hm.lockEffect hm.holdsFrame
  obtain ⟨hcount, hsum⟩ := hm.totals
  have hextrema := ExtremaInv.worker_step hM hM' ⟨h.min, h.max⟩ hm
  refine ⟨?_, ?_, ?_, ?_, hextrema.1, hextrema.2⟩
  · show (t.measured ++ measuredBy t.state (.worker w a)).length = s'.completed.length
    rw [List.length_append, h.finished, completed_move hst]
  · show ((t.recorded ++ recordedBy t.state (.worker w a) : List Int) : Multiset Int) + s'.pending =
      ((t.measured ++ measuredBy t.state (.worker w a) : List Int) : Multiset Int)
    rw [← Multiset.coe_add, ← Multiset.coe_add, ← h.account, add_assoc, add_assoc,
      pending_worker_step hC hst]
  · show s'.pool.totalTasksCompleted = ((t.recorded ++ (t.state.workers w).pc.records).length : Int)
    rw [hcount, h.count, List.length_append]
    push_cast
    rfl
  · show s'.pool.totalTaskTimeMs = (t.recorded ++ (t.state.workers w).pc.records).sum
    rw [hsum, h.sum, List.sum_append]

theorem StatsInv.other_step {t : Timed} {u : Thread} (hC : CreatedInv t.state)
    (hM : MutexInv t.state) (h : StatsInv t) (hu : ∀ v, u ≠ .worker v)
    (he : LockEffect t.state u s') (hcr : t.state.created ≤ s'.created)
    (hpush : ∀ v, (t.state.workers v).pc.Pushed (s'.workers v).pc)
    (hcomp : s'.completed = t.state.completed)
    (hcount : s'.pool.totalTasksCompleted = t.state.pool.totalTasksCompleted)
    (hsum : s'.pool.totalTaskTimeMs = t.state.pool.totalTaskTimeMs)
    (hmin : s'.pool.minTaskTimeMs = t.state.pool.minTaskTimeMs)
    (hmax : s'.pool.maxTaskTimeMs = t.state.pool.maxTaskTimeMs) :
    StatsInv ⟨s', t.measured ++ [], t.recorded ++ []⟩ := by
  have hnone : ∀ (s : State) (due : WorkerPc → List Int), s.dueOf due u = [] := by
    intro s due
    cases u with
    | worker v => exact absurd rfl (hu v)
    | caller c => rfl
    | main => rfl
  have hextrema := ExtremaInv.quiet hM ⟨h.min, h.max⟩ he (hnone _ _) (hnone _ _)
    (fun due hd v _ => dueFrame_pushed hd hpush v) hmin hmax
  rw [List.append_nil, List.append_nil]
  refine ⟨?_, ?_, ?_, ?_, hextrema.1, hextrema.2⟩
  · rw [h.finished, hcomp]
  · show (t.recorded : Multiset Int) + s'.pending = t.measured
    rw [pending_pushed hC hcr hpush, h.account]
  · show s'.pool.totalTasksCompleted = t.recorded.length
    rw [hcount, h.count]
  · show s'.pool.totalTaskTimeMs = t.recorded.sum
    rw [hsum, h.sum]

/-- **The counters hold the entered times**, in every run. -/
theorem TimedBy.stats {G : Timed → Label → Prop} {minThreads maxThreads initial : Nat} {t : Timed}
    (h : TimedBy fl G minThreads maxThreads initial t) : StatsInv t := by
  refine h.inv StatsInv (fun now => .start _ _ _ now) fun t l s' hr hI _ hst => ?_
  cases l with
  | worker w a => exact hI.worker_step hr.created hr.mutex hst
  | caller c a =>
    have hm : CallerMove fl t.state c s' := .of_step hst
    refine hI.other_step (u := .caller c) hr.created hr.mutex (fun v => by simp) hm.lockEffect
      hm.created_le (hm.pushed hr.created) ?_ ?_ ?_ ?_ ?_ <;> cases hm <;> rfl
  | main a =>
    have hm : MainMove t.state s' := .of_step hst
    refine hI.other_step (u := .main) hr.created hr.mutex (fun v => by simp) hm.lockEffect
      hm.created_le (hm.pushed hr.created) ?_ ?_ ?_ ?_ ?_ <;> cases hm <;> rfl

/-! ## runs with the times of a clock -/

/-- the guard of the runs in which no measured time is negative -/
def NonNegative (t : Timed) (l : Label) : Prop := ∀ ms ∈ measuredBy t.state l, 0 ≤ ms

/-- the guard of the runs in which, too, no other time is entered after a zero -/
def NothingAfterZero (t : Timed) (l : Label) : Prop :=
  NonNegative t l ∧ ∀ ms ∈ recordedBy t.state l, ms ≠ 0 → 0 ∉ t.recorded

instance (t : Timed) (l : Label) : Decidable (NonNegative t l) :=
  inferInstanceAs (Decidable (∀ ms ∈ measuredBy t.state l, 0 ≤ ms))

instance (t : Timed) (l : Label) : Decidable (NothingAfterZero t l) :=
  inferInstanceAs (Decidable (NonNegative t l ∧
    ∀ ms ∈ recordedBy t.state l, ms ≠ 0 → 0 ∉ t.recorded))

/-- a value of `clock_gettime` -/
structure Timespec.Valid (t : Timespec) : Prop where
  nonneg : 0 ≤ t.nsec
  below : t.nsec < 1000000000

/-- **A clock that does not go back measures no negative time.** -/
theorem taskTimeMs_nonneg {start stop : Timespec} (hstart : start.Valid) (hstop : stop.Valid)
    (h : start.sec < stop.sec ∨ start.sec = stop.sec ∧ start.nsec ≤ stop.nsec) :
    0 ≤ taskTimeMs start stop := by
  obtain ⟨h0, h1⟩ := hstart
  obtain ⟨h2, h3⟩ := hstop
  unfold taskTimeMs
  rcases h with h | ⟨h, hn⟩
  · have hlow : -1000 < (stop.nsec - start.nsec).tdiv 1000000 := by
      rcases le_total start.nsec stop.nsec with hle | hle
      · rw [Int.tdiv_eq_ediv_of_nonneg (by omega)]
        omega
      · rw [← Int.neg_sub start.nsec, Int.neg_tdiv, Int.tdiv_eq_ediv_of_nonneg (by omega)]
        omega
    omega
  · rw [h, Int.tdiv_eq_ediv_of_nonneg (by omega)]
    omega

/-- the guard of the runs in which the clock does not go back while a task runs -/
def ClockForward (t : Timed) : Label → Prop
  | .worker w (.clock stop) => ∀ task start, (t.state.workers w).pc = .callFunction task start →
      start.Valid ∧ stop.Valid ∧
        (start.sec < stop.sec ∨ start.sec = stop.sec ∧ start.nsec ≤ stop.nsec)
  | _ => True

section
variable {G : Timed → Label → Prop} {minThreads maxThreads initial : Nat} {t : Timed}

theorem TimedBy.nonNegative (h : TimedBy fl ClockForward minThreads maxThreads initial t) :
    TimedBy fl NonNegative minThreads maxThreads initial t := by
  refine h.mono fun t l hG ms hms => ?_
  cases l with
  | worker w a =>
    cases a with
    | clock stop =>
      cases hpc : (t.state.workers w).pc with
      | callFunction task start =>
        have he : ms = taskTimeMs start stop := by simpa [measuredBy, WorkerPc.measures, hpc] using hms
        obtain ⟨hstart, hstop, hle⟩ := hG task start hpc
        rw [he]
        exact taskTimeMs_nonneg hstart hstop hle
      | _ => simp [measuredBy, WorkerPc.measures, hpc] at hms
    | _ => cases hms
  | caller c a => cases hms
  | main a => cases hms

theorem measured_nonneg (h : TimedBy fl NonNegative minThreads maxThreads initial t) :
    ∀ ms ∈ t.measured, 0 ≤ ms := by
  refine h.inv (fun t => ∀ ms ∈ t.measured, 0 ≤ ms) (fun now ms hms => by cases hms)
    fun t l s' _ hI hG _ ms hms => ?_
  rcases List.mem_append.mp hms with hms | hms
  · exact hI ms hms
  · exact hG ms hms

theorem recorded_nonneg (h : TimedBy fl NonNegative minThreads maxThreads initial t) :
    ∀ ms ∈ t.recorded, 0 ≤ ms := by
  intro ms hms
  have haccount := h.stats.account
  have hmem : ms ∈ (t.measured : Multiset Int) := by
    rw [← haccount]
    exact Multiset.mem_add.mpr (.inl hms)
  exact measured_nonneg h ms hmem

theorem zero_last (h : TimedBy fl NothingAfterZero minThreads maxThreads initial t) :
    0 ∈ t.recorded → t.recorded.getLast? = some 0 := by
  refine h.inv (fun t => 0 ∈ t.recorded → t.recorded.getLast? = some 0)
    (fun now hz => by cases hz) fun t l s' _ hI hG _ => ?_
  have hone : recordedBy t.state l = [] ∨ ∃ ms, recordedBy t.state l = [ms] := by
    cases l with
    | worker w a =>
      show (t.state.workers w).pc.records = [] ∨ ∃ ms, (t.state.workers w).pc.records = [ms]
      cases (t.state.workers w).pc <;> first | exact .inl rfl | exact .inr ⟨_, rfl⟩
    | caller c a => exact .inl rfl
    | main a => exact .inl rfl
  rcases hone with hnil | ⟨ms, hms⟩
  · rw [hnil, List.append_nil]
    exact hI
  · have hguard := hG.2 ms (by rw [hms]; exact List.mem_singleton_self ms)
    show 0 ∈ t.recorded ++ recordedBy t.state l →
      (t.recorded ++ recordedBy t.state l).getLast? = some 0
    rw [hms, List.getLast?_concat]
    intro hz
    by_cases e : ms = 0
    · rw [e]
    · rcases List.mem_append.mp hz with hz | hz
      · exact absurd hz (hguard e)
      · exact absurd (List.mem_singleton.mp hz).symm e

end

/-! ## with the mutex free -/

/-- **What is exact in every run**: `total_tasks_completed` is the number, `total_task_time_ms` the
sum and `max_task_time_ms` the maximum of the entered times; these are the times measured for the
completed tasks, without those that a worker has still to enter -/
structure TotalsExact (t : Timed) : Prop where
  finished : t.measured.length = t.state.completed.length
  account : (t.recorded : Multiset Int) + t.state.pending = t.measured
  completed : t.state.pool.totalTasksCompleted = t.recorded.length
  total : t.state.pool.totalTaskTimeMs = t.recorded.sum
  max : IsGreatest {ms | ms ∈ t.recorded} t.state.pool.maxTaskTimeMs

/-- **The four statistics are exact**, and the average is between the extrema -/
structure StatisticsExact (t : Timed) : Prop extends TotalsExact t where
  min : IsLeast {ms | ms ∈ t.recorded} t.state.pool.minTaskTimeMs
  minLe : (t.state.pool.minTaskTimeMs : ℚ) ≤
    t.state.pool.totalTaskTimeMs / t.state.pool.totalTasksCompleted
  leMax : (t.state.pool.totalTaskTimeMs : ℚ) / t.state.pool.totalTasksCompleted ≤
    t.state.pool.maxTaskTimeMs

section
variable {minThreads maxThreads initial : Nat} {t : Timed}

theorem totals_exact (h : TimedBy fl NonNegative minThreads maxThreads initial t)
    (hfree : t.state.owner = none) (hne : t.recorded ≠ []) : TotalsExact t := by
  have hI := h.stats
  refine ⟨hI.finished, hI.account, hI.count, hI.sum, ?_⟩
  have hmax := hI.max
  rw [due_free hfree] at hmax
  rw [hmax.done]
  exact runMax_isGreatest (recorded_nonneg h) hne

/-- The minimum is exact if and only if no time followed a zero. -/
theorem min_exact_iff (h : TimedBy fl NonNegative minThreads maxThreads initial t)
    (hfree : t.state.owner = none) (hne : t.recorded ≠ []) :
    IsLeast {ms | ms ∈ t.recorded} t.state.pool.minTaskTimeMs ↔
      (0 ∈ t.recorded → t.recorded.getLast? = some 0) := by
  have hmin := h.stats.min
  rw [due_free hfree] at hmin
  rw [hmin.done]
  exact runMin_isLeast_iff (recorded_nonneg h) hne

theorem StatisticsExact.of_totals (h : TotalsExact t) (hne : t.recorded ≠ [])
    (hmin : IsLeast {ms | ms ∈ t.recorded} t.state.pool.minTaskTimeMs) : StatisticsExact t := by
  obtain ⟨hlow, hhigh⟩ := sum_between hmin h.max
  have hlen := List.length_pos_iff.mpr hne
  have hpos : (0 : ℚ) < (t.recorded.length : Int) := by exact_mod_cast hlen
  refine ⟨h, hmin, ?_, ?_⟩
  · rw [h.completed, h.total, le_div_iff₀ hpos, mul_comm]
    exact_mod_cast hlow
  · rw [h.completed, h.total, div_le_iff₀ hpos, mul_comm]
    exact_mod_cast hhigh

theorem statistics_exact (h : TimedBy fl NothingAfterZero minThreads maxThreads initial t)
    (hfree : t.state.owner = none) (hne : t.recorded ≠ []) : StatisticsExact t := by
  have hnonneg : TimedBy fl NonNegative minThreads maxThreads initial t :=
    h.mono fun _ _ hG => hG.1
  exact .of_totals (totals_exact hnonneg hfree hne) hne
    ((min_exact_iff hnonneg hfree hne).mpr (zero_last h))

end

/-- **The task times are exact while nothing follows a zero.**  In every run of the pool, whatever
the number of workers and the order in which they finish, in every state with `queue_mutex` free and
a time entered: the count, the sum and the maximum are exact, and the minimum is exact if and only
if no other time was entered after a zero.  In the runs that enter no other time after a zero all
four are exact in all these states, and the reported minimum never increases. -/
theorem taskTimes_exact (fl : ℚ → ℚ) (minThreads maxThreads initial : Nat) :
    (∀ t, TimedBy fl NonNegative minThreads maxThreads initial t → t.state.owner = none →
      t.recorded ≠ [] →
      TotalsExact t ∧ (IsLeast {ms | ms ∈ t.recorded} t.state.pool.minTaskTimeMs ↔
        (0 ∈ t.recorded → t.recorded.getLast? = some 0))) ∧
    ∀ t, TimedBy fl NothingAfterZero minThreads maxThreads initial t → t.state.owner = none →
      t.recorded ≠ [] →
      StatisticsExact t ∧
      ∀ t', Reach (timedStep fl) NothingAfterZero t t' → t'.state.owner = none →
        t'.state.pool.minTaskTimeMs ≤ t.state.pool.minTaskTimeMs := by
  refine ⟨fun t h hfree hne => ⟨totals_exact h hfree hne, min_exact_iff h hfree hne⟩,
    fun t h hfree hne => ⟨statistics_exact h hfree hne, fun t' hr hfree' => ?_⟩⟩
  obtain ⟨k, hk⟩ := recorded_grows hr
  have hne' : t'.recorded ≠ [] := by
    rw [hk]
    exact List.append_ne_nil_of_left_ne_nil hne k
  have hmin := (statistics_exact h hfree hne).min
  have hmin' := (statistics_exact (h.trans hr) hfree' hne').min
  -- the earlier minimum is one of the later times
  refine hmin'.2 ?_
  show t.state.pool.minTaskTimeMs ∈ t'.recorded
  rw [hk]
  exact List.mem_append_left k hmin.1

/-- the only worker is created and runs a task until `ns` -/
def firstTaskRun (ns : Int) : List Label :=
  [.main (.result true), .main .run] ++ addTaskRun 1 100 1 ++ takeTaskRun 0 ++ finishTaskRun 0 ns

/-- it runs another one -/
def secondTaskRun (ns : Int) : List Label :=
  addTaskRun 2 200 1 ++ takeTaskRun 0 ++ finishTaskRun 0 ns

/-- Two tasks, of 5 milliseconds and of less than one: the four statistics are exact. -/
theorem taskTimes_exact_twoTasks : ∃ t t', TimedBy id NothingAfterZero 1 1 1 t ∧
    t.recorded = [5] ∧ t'.recorded = [5, 0] ∧ StatisticsExact t ∧ StatisticsExact t' ∧
    (0 ∈ t'.recorded → t'.recorded.getLast? = some 0) ∧
    t'.state.pool.minTaskTimeMs ≤ t.state.pool.minTaskTimeMs := by
  have hrun : (exec (guarded (fun t l => decide (NothingAfterZero t l)) (timedStep id))
      ⟨startState 1 1 1 0, [], []⟩ (firstTaskRun 5000000)).bind (fun t =>
        (exec (guarded (fun t l => decide (NothingAfterZero t l)) (timedStep id)) t
          (secondTaskRun 999999)).map fun t' =>
            (t.state.owner, t'.state.owner, t.recorded, t'.recorded)) =
      some (none, none, [5], [5, 0]) := by decide +kernel
  obtain ⟨t, ht, hv⟩ := Option.bind_eq_some_iff.mp hrun
  obtain ⟨t', ht', hv⟩ := Option.map_eq_some_iff.mp hv
  simp only [Prod.mk.injEq] at hv
  obtain ⟨hfree, hfree', hrec, hrec'⟩ := hv
  have hreach := Reach.of_decide _ ht'
  have hfirst : TimedBy id NothingAfterZero 1 1 1 t :=
    ⟨0, true, true, true, _, rfl, Reach.of_decide _ ht⟩
  have hsecond := hfirst.trans hreach
  have hne : t.recorded ≠ [] := by simp [hrec]
  have hne' : t'.recorded ≠ [] := by simp [hrec']
  obtain ⟨hexact, hmono⟩ := (taskTimes_exact id 1 1 1).2 t hfirst hfree hne
  have hexact' := ((taskTimes_exact id 1 1 1).2 t' hsecond hfree' hne').1
  have hiff := ((taskTimes_exact id 1 1 1).1 t' (hsecond.mono fun _ _ hG => hG.1) hfree' hne').2
  exact ⟨t, t', hfirst, hrec, hrec', hexact, hexact', hiff.mp hexact'.min, hmono t' hreach hfree'⟩

/-- **The minimum forgets a zero.**  Two tasks, of less than a millisecond and of 5: the reported
minimum rises from 0 to 5. -/
theorem minTaskTime_forgets : ∃ t t', TimedBy id NonNegative 1 1 1 t ∧
    Reach (timedStep id) NonNegative t t' ∧ t.state.owner = none ∧ t'.state.owner = none ∧
    t.recorded = [0] ∧ t'.recorded = [0, 5] ∧ t.state.pool.minTaskTimeMs = 0 ∧
    t'.state.pool.minTaskTimeMs = 5 ∧ ¬ StatisticsExact t' := by
  have hrun : (exec (guarded (fun t l => decide (NonNegative t l)) (timedStep id))
      ⟨startState 1 1 1 0, [], []⟩ (firstTaskRun 999999)).bind (fun t =>
        (exec (guarded (fun t l => decide (NonNegative t l)) (timedStep id)) t
          (secondTaskRun 5000000)).map fun t' =>
            (t.state.owner, t'.state.owner, t.recorded, t'.recorded, t.state.pool.minTaskTimeMs,
              t'.state.pool.minTaskTimeMs)) =
      some (none, none, [0], [0, 5], 0, 5) := by decide +kernel
  obtain ⟨t, ht, hv⟩ := Option.bind_eq_some_iff.mp hrun
  obtain ⟨t', ht', hv⟩ := Option.map_eq_some_iff.mp hv
  simp only [Prod.mk.injEq] at hv
  obtain ⟨hfree, hfree', hrec, hrec', hmin, hmin'⟩ := hv
  refine ⟨t, t', ⟨0, true, true, true, _, rfl, Reach.of_decide _ ht⟩, Reach.of_decide _ ht',
    hfree, hfree', hrec, hrec', hmin, hmin', fun hexact => ?_⟩
  have hle := hexact.min.2 (show (0 : Int) ∈ t'.recorded by simp [hrec'])
  rw [hmin'] at hle
  omega

/-! ## the report -/

/-- the lines about the task times -/
def taskTimeLines (p : ThreadPool) : List String :=
  if 0 < p.totalTasksCompleted then
    ["Average task time: " ++ toString (p.totalTaskTimeMs.tdiv p.totalTasksCompleted) ++ " ms",
     "Min task time: " ++ toString p.minTaskTimeMs ++ " ms",
     "Max task time: " ++ toString p.maxTaskTimeMs ++ " ms"]
  else []

/-- `thread_pool_print_stats` on the values that it loads, line by line -/
def threadPoolPrintStats : Option ThreadPool → List String
  | none => []
  | some p =>
    ["", "=== THREAD POOL STATISTICS ===",
     "Thread count: " ++ toString p.threadCount ++ " (min=" ++ toString p.minThreads ++ ", max=" ++
       toString p.maxThreads ++ ")",
     "Active threads: " ++ toString p.activeThreads,
     "Queue size: " ++ toString p.queueSize,
     "Load percentage: " ++ toString (threadPoolGetLoadPercentage (some p)) ++ "%",
     "Total tasks completed: " ++ toString p.totalTasksCompleted] ++ taskTimeLines p ++
    ["===============================", ""]

/-- **The printed average is between the printed extrema**, when these are exact. -/
theorem printStats_between {t : Timed} (h : StatisticsExact t) (hne : t.recorded ≠ []) :
    ∃ average, ["Average task time: " ++ toString average ++ " ms",
         "Min task time: " ++ toString t.state.pool.minTaskTimeMs ++ " ms",
         "Max task time: " ++ toString t.state.pool.maxTaskTimeMs ++ " ms"] <:+:
        threadPoolPrintStats (some t.state.pool) ∧
      t.state.pool.minTaskTimeMs ≤ average ∧ average ≤ t.state.pool.maxTaskTimeMs := by
  obtain ⟨hlow, hhigh⟩ := sum_between h.min h.max
  have hlen := List.length_pos_iff.mpr hne
  have hpos : 0 < t.state.pool.totalTasksCompleted := by
    rw [h.completed]
    omega
  rw [← h.total, ← h.completed] at hlow hhigh
  refine ⟨t.state.pool.totalTaskTimeMs.tdiv t.state.pool.totalTasksCompleted, ?_, ?_, ?_⟩
  · have hlines : taskTimeLines t.state.pool = _ := if_pos hpos
    rw [← hlines]
    exact ⟨_, _, rfl⟩
  · have hle := Int.tdiv_le_tdiv hpos hlow
    rwa [Int.mul_tdiv_cancel_left _ hpos.ne'] at hle
  · have hle := Int.tdiv_le_tdiv hpos hhigh
    rwa [Int.mul_tdiv_cancel_left _ hpos.ne'] at hle

end Pool
