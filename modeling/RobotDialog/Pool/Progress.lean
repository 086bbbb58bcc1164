import RobotDialog.Pool.Rank
import RobotDialog.Pool.Wakeup
import RobotDialog.Lib.Interference

/-!
# The thread pool: who can go on

A thread that does not wait for `queue_mutex` and does not sleep can execute its next statement.

* `Label.interferes`    the steps of the environment: spurious wakeups and new calls;
* `worker_runs`, `caller_runs`   a thread outside the waits can go on;
* `State.canMove`       such a thread; the owner of the mutex is one;
* `step_rank`           every step of the pool itself lowers the rank, a step of the environment
                        raises it by a constant.
-/

set_option linter.unusedSimpArgs false

namespace Pool
open State Lts Heap

variable {fl : ℚ → ℚ} {s s' : State} {w c : Nat} {l : List (Ptr × Job)}

/-- a spurious wakeup, or a call that begins -/
def Label.interferes : Label → Bool
  | .worker _ .spurious => true
  | .caller _ (.addTask _ _) | .caller _ .autoScale => true
  | _ => false

/-! ## one thread -/

/-- **A live worker that is awake and does not wait for the mutex can go on.** -/
theorem worker_runs (hq : QueueInv s l) (hcon : ControlInv s) {v : Nat}
    (hlive : (s.workers v).pc.live = true) (hawake : (s.workers v).pc ≠ .blocked)
    (hmutex : s.owner = none ∨ (s.workers v).pc.holds = true) :
    ∃ a s', a ≠ .spurious ∧ a ≠ .setcancelFails ∧ workerStep s v a = some s' := by
  have hrun : ∀ s', workerStep s v .run = some s' →
      ∃ a s', a ≠ .spurious ∧ a ≠ .setcancelFails ∧ workerStep s v a = some s' :=
    fun s' h => ⟨.run, s', by simp, by simp, h⟩
  have hsees := hcon.sees v
  cases hpc : (s.workers v).pc with
  | unlinkHead =>
    rw [hpc] at hsees
    obtain ⟨task, hh⟩ := Option.ne_none_iff_exists'.mp hsees.1
    have hlink := hq.linked
    rw [hh] at hlink
    obtain ⟨t, l', ht, -, -⟩ := hlink.uncons
    exact hrun _ (by simp only [workerStep, hpc, hh, ht]; rfl)
  | callFunction task start =>
    obtain ⟨t, ht⟩ := Option.ne_none_iff_exists'.mp
      (hq.owned (.worker v) task (by simp [State.task, hpc, WorkerPc.task])).1
    exact ⟨.clock start, _, by simp, by simp, by simp only [workerStep, hpc, ht]; rfl⟩
  | startClock task =>
    exact ⟨.clock ⟨0, 0⟩, _, by simp, by simp, by simp only [workerStep, hpc]; rfl⟩
  | blocked => exact absurd hpc hawake
  | notCreated =>
    rw [hpc] at hlive
    cases hlive
  | exited =>
    rw [hpc] at hlive
    cases hlive
  | exitedLocked =>
    rw [hpc] at hlive
    cases hlive
  | testQueue =>
    by_cases h : s.pool.queueHead = none ∧ s.pool.shutdown = false
    · exact hrun _ (by simp only [workerStep, hpc, if_pos h]; rfl)
    · exact hrun _ (by simp only [workerStep, hpc, if_neg h]; rfl)
  | testShutdown =>
    by_cases h : s.pool.shutdown = true
    · exact hrun _ (by simp only [workerStep, hpc, if_pos h]; rfl)
    · exact hrun _ (by simp only [workerStep, hpc, if_neg h]; rfl)
  | fixTail task =>
    by_cases h : s.pool.queueHead = none
    · exact hrun _ (by simp only [workerStep, hpc, if_pos h]; rfl)
    · exact hrun _ (by simp only [workerStep, hpc, if_neg h]; rfl)
  | _ =>
    rw [hpc] at hmutex
    simp only [WorkerPc.holds, Bool.false_eq_true, or_false] at hmutex
    exact hrun _ (by simp only [workerStep, hpc, hmutex]; rfl)

/-- The last node of a queue that is not empty is allocated. -/
theorem QueueInv.tail_allocated (h : QueueInv s l) (hh : s.pool.queueHead ≠ none) :
    ∃ tail n, s.pool.queueTail = some tail ∧ s.heap tail = some n := by
  have hne : l ≠ [] := fun e => hh (h.linked.null_iff.mpr e)
  obtain ⟨l₀, x, rfl⟩ : ∃ l₀ x, l = l₀ ++ [x] := ⟨_, _, (List.dropLast_append_getLast hne).symm⟩
  obtain ⟨a, b⟩ := x
  have hlast := h.tailLast hne
  rw [addrs_append, addrs_cons, addrs_nil, List.getLast?_concat] at hlast
  obtain ⟨n, hn, -, -⟩ := h.linked.last
  exact ⟨a, n, hlast, hn⟩

/-- **A caller that does not wait for the mutex can go on.** -/
theorem caller_runs (fl : ℚ → ℚ) (hq : QueueInv s l)
    (hbusy : (s.callers c).pc ≠ .idle)
    (hmutex : s.owner = none ∨ (s.callers c).pc.holds = true) :
    ∃ a s', Label.interferes (.caller c a) = false ∧ callerStep fl s c a = some s' := by
  have hrun : ∀ s', callerStep fl s c .run = some s' →
      ∃ a s', Label.interferes (.caller c a) = false ∧ callerStep fl s c a = some s' :=
    fun s' h => ⟨.run, s', rfl, h⟩
  cases hpc : (s.callers c).pc with
  | idle => exact absurd hpc hbusy
  | mallocTask job => exact ⟨.malloc none, _, rfl, by simp only [callerStep, hpc]; rfl⟩
  | testShutdown task =>
    by_cases h : s.pool.shutdown = true
    · exact hrun _ (by simp only [callerStep, hpc, if_pos h]; rfl)
    · exact hrun _ (by simp only [callerStep, hpc, if_neg h]; rfl)
  | link task =>
    obtain ⟨t, ht⟩ := Option.ne_none_iff_exists'.mp
      (hq.owned (.caller c) task (by simp [State.task, hpc, CallerPc.task])).1
    by_cases hh : s.pool.queueHead = none
    · exact hrun _ (by simp only [callerStep, hpc, ht, if_pos hh]; rfl)
    · obtain ⟨tail, n, htail, hn⟩ := hq.tail_allocated hh
      exact hrun _ (by simp only [callerStep, hpc, ht, if_neg hh, htail, hn]; rfl)
  | signal =>
    by_cases hb : ∃ v, (s.workers v).pc = .blocked
    · obtain ⟨v, hv⟩ := hb
      refine ⟨.wake (some v), (s.callerGoto c .unlockAdd).goto v .woken, rfl, ?_⟩
      simp only [callerStep, hpc, wakeOne]
      exact if_pos hv
    · have hnone : s.anyBlocked = false := by
        unfold State.anyBlocked
        rw [List.any_eq_false]
        intro v _ hv
        exact hb ⟨v, by simpa using hv⟩
      refine ⟨.wake none, s.callerGoto c .unlockAdd, rfl, ?_⟩
      simp only [callerStep, hpc, wakeOne]
      refine if_neg ?_
      rw [show (s.callerGoto c .unlockAdd).anyBlocked = s.anyBlocked from rfl, hnone]
      exact Bool.false_ne_true
  | scaleTime =>
    refine ⟨.time s.pool.lastScaleTime, s.finishCall c 0, rfl, ?_⟩
    simp only [callerStep, hpc]
    rw [if_pos (by rw [Int.sub_self]; decide)]
  | scaleUp i new now =>
    by_cases h : i < new
    · exact ⟨.result false, _, rfl, by simp only [callerStep, hpc, if_pos h]; rfl⟩
    · exact hrun _ (by simp only [callerStep, hpc, if_neg h]; rfl)
  | scaleDown i new now =>
    by_cases h : (new : Int) ≤ i
    · exact ⟨.result false, _, rfl, by simp only [callerStep, hpc, if_pos h]; rfl⟩
    · exact hrun _ (by simp only [callerStep, hpc, if_neg h]; rfl)
  | _ =>
    rw [hpc] at hmutex
    simp only [CallerPc.holds, Bool.false_eq_true, or_false] at hmutex
    exact hrun _ (by simp only [callerStep, hpc, hmutex]; rfl)

/-! ## the threads that can go on -/

/-- the thread neither sleeps nor waits for the mutex -/
def State.canMove (s : State) : Thread → Prop
  | .worker v => (s.workers v).pc.live = true ∧ (s.workers v).pc ≠ .blocked ∧
      (s.owner = none ∨ (s.workers v).pc.holds = true)
  | .caller c => (s.callers c).pc ≠ .idle ∧ (s.owner = none ∨ (s.callers c).pc.holds = true)
  | .main => False

/-- **The worker or the caller that has the mutex can go on**, if no worker has ended without
unlocking it. -/
theorem canMove_of_owner (hM : MutexInv s) (hend : EndInv s) {t : Thread} (ho : s.owner = some t)
    (ht : t ≠ .main) : s.canMove t := by
  have hholds := (hM t).mpr ho
  cases t with
  | worker v =>
    have hv : (s.workers v).pc.holds = true := hholds
    have hE := hend v
    refine ⟨?_, ?_, .inr hv⟩ <;> cases hpc : (s.workers v).pc <;>
      simp_all [WorkerPc.holds, WorkerPc.live, WorkerPc.EndOk]
  | caller c =>
    have hc : (s.callers c).pc.holds = true := hholds
    refine ⟨fun e => ?_, .inr hc⟩
    rw [e] at hc
    cases hc
  | main => exact absurd rfl ht

theorem step_of_canMove (fl : ℚ → ℚ) (hq : QueueInv s l) (hcon : ControlInv s) {t : Thread}
    (h : s.canMove t) :
    ∃ lb s', Label.interferes lb = false ∧ SetcancelSucceeds s lb ∧ lb.thread = t ∧
      step fl lb s = some s' := by
  cases t with
  | worker v =>
    obtain ⟨hlive, hawake, hmutex⟩ := h
    obtain ⟨a, s', h1, h2, hst⟩ := worker_runs hq hcon hlive hawake hmutex
    refine ⟨.worker v a, s', ?_, ?_, rfl, hst⟩
    · cases a <;> first | rfl | exact absurd rfl h1
    · rintro u e
      cases e
      exact h2 rfl
  | caller c =>
    obtain ⟨a, s', h1, hst⟩ := caller_runs fl hq h.1 h.2
    exact ⟨.caller c a, s', h1, fun u e => (by cases e), rfl, hst⟩
  | main => exact h.elim

/-! ## every step against the rank -/

theorem blocked_step {a : WorkerAct} (hst : workerStep s w a = some s') (ha : a ≠ .spurious)
    (hpc : (s.workers w).pc = .blocked) : (s'.workers w).pc ≠ .woken := by
  unfold workerStep at hst
  rw [hpc] at hst
  cases a with
  | spurious => exact absurd rfl ha
  | actCancel pass =>
    cases pass with
    | none =>
      simp only [Option.ite_none_right_eq_some, Option.some.injEq] at hst
      rw [← hst.2]
      simp
    | some u => cases hst
  | _ => cases hst

/-- **The steps of the pool lower the rank**, those of the environment raise it by a constant. -/
theorem step_rank {n m most : Nat} (hC : CreatedInv s) (hq : QueueInv s l) (hsl : SlotInv s)
    (hmost : s.pool.maxThreads = most) (lb : Label)
    (hcallers : ∀ c a, lb = .caller c a → c < m)
    (hmain : ∀ a, lb = .main a → s.main = .ready ∨ s.main.destroying = true)
    (hst : step fl lb s = some s') :
    (lb.interferes = false → s'.rank n m most < s.rank n m most) ∧
      s'.rank n m most ≤ s.rank n m most + (11 * most + n + 37) := by
  cases lb with
  | worker w a =>
    have hm := WorkerMove.of_step hst
    by_cases ha : a = .spurious
    · subst ha
      have h := rank_spurious n m most hC hst
      exact ⟨fun hl => (by cases hl), by omega⟩
    · have h := hm.rank_le n m most hC hq (blocked_step hst ha)
      have hone : 1 ≤ (s.workers w).pc.price n := by
        cases (s.workers w).pc <;> simp [WorkerPc.price]
      exact ⟨fun _ => by omega, by omega⟩
  | caller c a =>
    have hm := CallerMove.of_step hst
    have hc := hcallers c a rfl
    by_cases hidle : (s.callers c).pc = .idle
    · refine ⟨fun hl => ?_, hm.rank_begin hc hidle⟩
      have hst' : callerStep fl s c a = some s' := hst
      unfold callerStep at hst'
      rw [hidle] at hst'
      cases a <;> first | cases hst' | cases hl
    · have h := hm.rank_lt (n := n) (m := m) hC hq hsl hmost hc hidle
      exact ⟨fun _ => h, by omega⟩
  | main a =>
    have h := (MainMove.of_step hst).rank_lt (n := n) (m := m) hq hmost (hmain a rfl)
    exact ⟨fun _ => h, by omega⟩

end Pool
