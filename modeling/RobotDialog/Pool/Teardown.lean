import RobotDialog.Pool.Slots

/-!
# The thread pool: tearing it down

`thread_pool_destroy` joins the workers in the slots below `thread_count`.  A worker that a scale
down has dropped from its slot is cancelled but never joined.

* `NoOverlap`             the promise of the callers: `thread_pool_destroy` is called last;
* `JoinInv`               what the join loop has waited for;
* `teardown_safe_iff`     when the pool is freed every worker has ended, exactly if the dropped
                          workers have;
* `teardown_useAfterFree` a dropped worker that is still busy takes the destroyed mutex.
-/

set_option linter.unusedSimpArgs false

namespace Pool
open State Lts

variable {fl : ℚ → ℚ} {s s' : State} {w c : Nat}

/-- nobody is inside the pool when it is destroyed, and nobody calls it afterwards -/
def NoOverlap (s : State) : Label → Prop
  | .main .destroy => ∀ c, (s.callers c).pc = .idle
  | .caller _ (.addTask _ _) | .caller _ .autoScale => s.main = .ready
  | _ => True

/-- inside `thread_pool_destroy` -/
def MainPc.destroying : MainPc → Bool
  | .destroyLock | .destroyShutdown | .destroyBroadcast | .destroyUnlock | .destroyJoin _
  | .destroyDrain | .destroyFree | .destroyed => true
  | _ => false

/-- the slots that the join loop has dealt with -/
def MainPc.joined (threadCount : Nat) : MainPc → Nat
  | .destroyJoin i => i
  | .destroyDrain | .destroyFree | .destroyed => threadCount
  | _ => 0

theorem MainPc.joined_eq_zero {p : MainPc} (h : p.destroying = false) (n : Nat) :
    p.joined n = 0 := by
  cases p <;> first | rfl | cases h

structure JoinInv (s : State) : Prop where
  quiet : s.main.destroying = true → ∀ c, (s.callers c).pc = .idle
  ended : ∀ i, i < s.main.joined s.pool.threadCount → i < s.pool.threadCount → s.joinable i = true

theorem JoinInv.start (minThreads maxThreads initial : Nat) (now : Int) :
    JoinInv (startState minThreads maxThreads initial now) where
  quiet h := by simp [startState, MainPc.destroying] at h
  ended i h := by simp [startState, MainPc.joined] at h

theorem workerStep_terminated (h : (s.workers w).pc.terminated = true) (a : WorkerAct) :
    workerStep s w a = none := by
  unfold workerStep
  cases e : (s.workers w).pc <;> rw [e] at h <;> first | rfl | cases h

theorem workerStep_notCreated (h : (s.workers w).pc = .notCreated) (a : WorkerAct) :
    workerStep s w a = none := by
  unfold workerStep
  rw [h]

theorem WorkerPc.Pushed.terminated {p q : WorkerPc} (h : p.Pushed q) :
    q.terminated = p.terminated :=
  h.view WorkerPc.terminated rfl rfl

/-- A slot whose worker has ended, after a step that leaves the slots alone. -/
theorem joinable_stable {i : Nat} (ht : s'.pool.threads = s.pool.threads)
    (hw : ∀ v, (s.workers v).pc.terminated = true → (s'.workers v).pc.terminated = true)
    (h : s.joinable i = true) : s'.joinable i = true := by
  unfold joinable at h ⊢
  rw [ht]
  cases e : s.pool.threads i with
  | none => rw [e] at h; cases h
  | some v =>
    rw [e] at h
    exact hw v h

theorem JoinInv.worker_step (h : JoinInv s) {a : WorkerAct} (hst : workerStep s w a = some s') :
    JoinInv s' := by
  have hm := WorkerMove.of_step hst
  have hended : ∀ v, (s.workers v).pc.terminated = true → (s'.workers v).pc.terminated = true := by
    intro v hv
    have hvw : v ≠ w := by
      rintro rfl
      rw [workerStep_terminated hv] at hst
      cases hst
    rw [(hm.pushed hvw).terminated]
    exact hv
  have hq := h.quiet
  have he := h.ended
  have hj : ∀ i, s.joinable i = true → s'.joinable i = true := by
    intro i hi
    refine joinable_stable ?_ hended hi
    cases hm <;> rfl
  refine ⟨?_, fun i h1 h2 => hj i ?_⟩
  · cases hm <;> exact hq
  · cases hm <;> exact he i h1 h2

theorem JoinInv.not_destroying (h : JoinInv s) {a : CallerAct} (hG : NoOverlap s (.caller c a))
    (hst : callerStep fl s c a = some s') : s.main.destroying = false := by
  by_contra hd
  have hd : s.main.destroying = true := by simpa using hd
  have hidle := h.quiet hd c
  unfold callerStep at hst
  rw [hidle] at hst
  cases a with
  | addTask f argument =>
    rw [show s.main = .ready from hG] at hd
    cases hd
  | autoScale =>
    rw [show s.main = .ready from hG] at hd
    cases hd
  | _ => cases hst

theorem JoinInv.caller_step (h : JoinInv s) {a : CallerAct} (hG : NoOverlap s (.caller c a))
    (hst : callerStep fl s c a = some s') : JoinInv s' := by
  have hd := h.not_destroying hG hst
  have hmain : s'.main = s.main := by cases CallerMove.of_step hst <;> rfl
  refine ⟨fun hd' => ?_, fun i hi _ => ?_⟩
  · rw [hmain, hd] at hd'
    cases hd'
  · rw [hmain, MainPc.joined_eq_zero hd] at hi
    omega

theorem JoinInv.main_step (hsl : SlotInv s) (h : JoinInv s) {a : MainAct}
    (hG : NoOverlap s (.main a)) (hst : mainStep s a = some s') : JoinInv s' := by
  have hm := MainMove.of_step hst
  have hq := h.quiet
  have he := h.ended
  have hb := hsl.bounds.2
  cases hm with
  | destroy hpc =>
    unfold mainStep at hst
    rw [hpc] at hst
    cases a with
    | destroy => exact ⟨fun _ => hG, fun i hi => by simp [MainPc.joined] at hi⟩
    | _ => cases hst
  | join i hpc hi hc ht =>
    rw [hpc] at hq he
    refine ⟨fun _ => hq rfl, fun j hj hjc => ?_⟩
    simp only [mainGoto, MainPc.joined] at hj
    by_cases e : j = i
    · subst e; exact ht
    · exact he j (by simp only [MainPc.joined]; omega) hjc
  | skip i hpc hi hc =>
    rw [hpc] at hq he
    refine ⟨fun _ => hq rfl, fun j hj hjc => ?_⟩
    simp only [mainGoto, MainPc.joined] at hj hjc
    exact he j (by simp only [MainPc.joined]; omega) hjc
  | joined i hpc hi =>
    rw [hpc] at hq he
    refine ⟨fun _ => hq rfl, fun j _ hjc => ?_⟩
    simp only [mainGoto] at hjc
    exact he j (by simp only [MainPc.joined]; omega) hjc
  | drain task t hpc hq' ht => exact ⟨hq, he⟩
  | drained hpc hq' =>
    exact ⟨fun _ => hq (by rw [hpc]; rfl), fun i _ hc => he i (by rw [hpc]; exact hc) hc⟩
  | destroyFree hpc =>
    exact ⟨fun _ => hq (by rw [hpc]; rfl), fun i _ hc => he i (by rw [hpc]; exact hc) hc⟩
  | destroyBroadcast hpc =>
    refine ⟨fun _ => hq (by rw [hpc]; rfl), fun i hi => ?_⟩
    simp [MainPc.joined] at hi
  | _ =>
    refine ⟨fun hd => ?_, fun i hi hc => ?_⟩
    · simp_all [MainPc.destroying]
    · simp_all [MainPc.joined]

theorem ReachableBy.joins {minThreads maxThreads initial : Nat}
    (h : ReachableBy fl NoOverlap minThreads maxThreads initial s) : JoinInv s :=
  h.inv JoinInv (fun now _ _ => JoinInv.start _ _ _ now)
    fun s l s' hr hI hG hst => by
      cases l with
      | worker w a => exact hI.worker_step hst
      | caller c a => exact hI.caller_step hG hst
      | main a => exact hI.main_step hr.slots hG hst

/-! ## the pool is freed -/

/-- every worker ever created has ended, and none can take a further step -/
def SafeTeardown (s : State) : Prop :=
  (∀ v, v < s.created → (s.workers v).pc.terminated = true) ∧ ∀ v a, workerStep s v a = none

/-- **When the pool is freed**, teardown is safe exactly if the workers that a scale down dropped
from their slots have ended. -/
theorem teardown_safe_iff (fl : ℚ → ℚ) (minThreads maxThreads initial : Nat) (s : State)
    (h : ReachableBy fl NoOverlap minThreads maxThreads initial s) (hfree : s.main = .destroyFree) :
    SafeTeardown s ↔ ∀ v, s.dropped v = true → (s.workers v).pc.terminated = true := by
  constructor
  · intro hsafe v hv
    simp only [dropped, Bool.and_eq_true, decide_eq_true_eq] at hv
    exact hsafe.1 v hv.1
  · intro hd
    have hall : ∀ v, v < s.created → (s.workers v).pc.terminated = true := by
      intro v hv
      by_cases hin : s.inSlot v = true
      · -- a worker in a slot has been joined
        obtain ⟨i, hi, hv⟩ := inSlot_iff.mp hin
        have hj := h.joins.ended i (by rw [hfree]; exact hi) hi
        unfold joinable at hj
        rwa [hv] at hj
      · exact hd v (by simp [dropped, hv, hin])
    refine ⟨hall, fun v a => ?_⟩
    by_cases hv : v < s.created
    · exact workerStep_terminated (hall v hv) a
    · exact workerStep_notCreated ((h.created v).mpr (by omega)) a

/-! ## a dropped worker -/

/-- `thread_pool_add_task` into an idle pool, up to the test of the scale interval -/
def addTaskRun (p : Ptr) (argument : Ptr) (now : Int) : List Label :=
  [.caller 0 (.addTask (some 7) argument), .caller 0 (.malloc (some p)), .caller 0 .run,
   .caller 0 .run, .caller 0 .run, .caller 0 .run, .caller 0 (.wake none), .caller 0 .run,
   .caller 0 (.time now)]

/-- worker `w` takes a task and calls its function -/
def takeTaskRun (w : Nat) : List Label :=
  List.replicate 10 (.worker w .run) ++ [.worker w (.clock ⟨0, 0⟩)]

/-- the function of worker `w`'s task returns at `ns`, the worker enters its time -/
def finishTaskRun (w : Nat) (ns : Int) : List Label :=
  .worker w (.clock ⟨0, ns⟩) :: List.replicate 7 (.worker w .run)

/-- the limits of the server: eight threads; worker 7 is busy when a scale down drops 7 and 6 -/
def dropRun : List Label :=
  List.replicate 8 (.main (.result true)) ++ [.main .run] ++ addTaskRun 1 100 1 ++ takeTaskRun 7 ++
    addTaskRun 2 200 2 ++ [.caller 0 .run, .caller 0 .run, .caller 0 (.result true),
    .caller 0 (.result true), .caller 0 .run, .caller 0 .run, .caller 0 .run, .caller 0 .run]

/-- the workers in the slots see `shutdown` and are joined, the waiting task is thrown away -/
def destroyRun : List Label :=
  .main .destroy :: List.replicate 4 (.main .run) ++
    (List.range 6).flatMap (fun w => List.replicate 6 (.worker w .run)) ++
    List.replicate 35 (.main .run)

/-- the test for `NoOverlap` in a run in which caller 0 makes all the calls -/
def onlyCaller0 (s : State) : Label → Bool
  | .main .destroy => (s.callers 0).pc == .idle
  | .caller c (.addTask _ _) | .caller c .autoScale => c == 0 && s.main == .ready
  | .caller c _ => c == 0
  | _ => true

theorem reach_of_onlyCaller0 {s₀ : State} (h0 : ∀ c, c ≠ 0 → (s₀.callers c).pc = .idle)
    (ls : List Label) (h : exec (guarded onlyCaller0 (step fl)) s₀ ls = some s) :
    Reach (step fl) NoOverlap s₀ s := by
  refine Reach.of_guarded (fun s => ∀ c, c ≠ 0 → (s.callers c).pc = .idle) onlyCaller0 ?_ ?_ h0 ls h
  · intro s l hJ hg
    cases l with
    | worker w a => trivial
    | caller c a => cases a <;> simp_all [onlyCaller0, NoOverlap]
    | main a =>
      cases a with
      | destroy =>
        intro c
        by_cases e : c = 0
        · subst e
          simpa [onlyCaller0] using hg
        · exact hJ c e
      | _ => trivial
  · intro s l s' hJ hg hst c hc
    cases l with
    | worker w a =>
      have hs : s'.callers = s.callers := by cases WorkerMove.of_step hst <;> rfl
      rw [hs]
      exact hJ c hc
    | caller d a =>
      have hd : d = 0 := by cases a <;> simp_all [onlyCaller0]
      subst hd
      have hs : s'.callers c = s.callers c := by cases CallerMove.of_step hst <;> simp [hc]
      rw [hs]
      exact hJ c hc
    | main a =>
      have hs : s'.callers = s.callers := by cases MainMove.of_step hst <;> rfl
      rw [hs]
      exact hJ c hc

/-- **A use after free.**  The pool is freed while worker 7 is in its task; when the task returns,
the worker takes the destroyed mutex. -/
theorem teardown_useAfterFree :
    ∃ s s', ReachableBy id NoOverlap 4 32 8 s ∧ s.main = .destroyFree ∧ ¬ SafeTeardown s ∧
      exec (step id) s [.main .run, .worker 7 (.clock ⟨1, 0⟩), .worker 7 .run] = some s' ∧
      s'.main = .destroyed ∧ s'.owner = some (.worker 7) := by
  have hrun : (exec (guarded onlyCaller0 (step id)) (startState 4 32 8 0)
      (dropRun ++ destroyRun)).bind (fun s =>
        (exec (step id) s [.main .run, .worker 7 (.clock ⟨1, 0⟩), .worker 7 .run]).map fun s' =>
          (s.main, s.created, (s.workers 7).pc.terminated, s'.main, s'.owner)) =
      some (.destroyFree, 8, false, .destroyed, some (.worker 7)) := by decide +kernel
  obtain ⟨s, hs, hv⟩ := Option.bind_eq_some_iff.mp hrun
  obtain ⟨s', hs', hv⟩ := Option.map_eq_some_iff.mp hv
  simp only [Prod.mk.injEq] at hv
  obtain ⟨hmain, hcreated, hbusy, hmain', howner⟩ := hv
  refine ⟨s, s', ?_, hmain, ?_, hs', hmain', howner⟩
  · exact ⟨0, true, true, true, _, rfl, reach_of_onlyCaller0 (fun _ _ => rfl) _ hs⟩
  · intro hsafe
    have h7 := hsafe.1 7 (by rw [hcreated]; decide)
    rw [hbusy] at h7
    cases h7

/-- worker `w` is about to sleep when it acts upon the request to cancel it -/
def actCancelRun (w : Nat) : List Label :=
  List.replicate 3 (.worker w .run) ++ [.worker w (.actCancel none), .worker w .run]

/-- The workers 7 and 6 that the scale down has dropped end before the pool is destroyed: 7 returns
from its task, worker 0 takes the waiting one, and both see their cancellation. -/
def endedRun : List Label :=
  dropRun ++ finishTaskRun 7 1 ++ takeTaskRun 0 ++ finishTaskRun 0 2 ++ actCancelRun 7 ++
    actCancelRun 6 ++ destroyRun.dropLast

theorem teardown_endedRun :
    ∃ s, ReachableBy id NoOverlap 4 32 8 s ∧ s.main = .destroyFree ∧ s.dropped 7 = true ∧
      s.dropped 6 = true ∧ SafeTeardown s := by
  have hrun : (exec (guarded onlyCaller0 (step id)) (startState 4 32 8 0) endedRun).map (fun s =>
      (s.main, s.created, s.dropped 7, s.dropped 6,
        (List.range 8).all fun v => (s.workers v).pc.terminated)) =
      some (.destroyFree, 8, true, true, true) := by decide +kernel
  obtain ⟨s, hs, hv⟩ := Option.map_eq_some_iff.mp hrun
  simp only [Prod.mk.injEq] at hv
  obtain ⟨hmain, hcreated, h7, h6, hall⟩ := hv
  have hreach : ReachableBy id NoOverlap 4 32 8 s :=
    ⟨0, true, true, true, _, rfl, reach_of_onlyCaller0 (fun _ _ => rfl) _ hs⟩
  refine ⟨s, hreach, hmain, h7, h6, (teardown_safe_iff id 4 32 8 s hreach hmain).mpr fun v hv => ?_⟩
  have hlt : v < 8 := by
    rw [← hcreated]
    simp only [State.dropped, Bool.and_eq_true, decide_eq_true_eq] at hv
    exact hv.1
  exact List.all_eq_true.mp hall v (List.mem_range.mpr hlt)

end Pool
