import RobotDialog.Pool.Mutex

/-!
# The thread pool: what a program point tells about the queue

* `MainPc.creating`, `MainPc.shutDown`, `MainPc.draining`   the phases of the main thread;
* `ControlInv`          `shutdown` is set exactly in the later phases, nobody calls the pool before
                        its creation has returned, and the test that a worker has made of the queue
                        still holds while the worker keeps the mutex;
* `ReachableBy.control` it holds of every reachable state.
-/

set_option linter.unusedSimpArgs false

namespace Pool
open State Lts

variable {fl : ℚ → ℚ} {s s' : State} {w c : Nat}

/-! ## phases -/

def MainPc.creating : MainPc → Bool
  | .create _ _ | .failShutdown _ | .failBroadcast _ | .failJoin _ _ | .failFree | .createFailed =>
    true
  | _ => false

def MainPc.shutDown : MainPc → Bool
  | .failBroadcast _ | .failJoin _ _ | .failFree | .createFailed | .destroyBroadcast
  | .destroyUnlock | .destroyJoin _ | .destroyDrain | .destroyFree | .destroyed => true
  | _ => false

/-- the leftover tasks are being thrown away, or have been -/
def MainPc.draining : MainPc → Bool
  | .destroyDrain | .destroyFree | .destroyed => true
  | _ => false

theorem MainPc.shutDown_of_draining {p : MainPc} (h : p.draining = true) : p.shutDown = true := by
  cases p <;> first | rfl | cases h

theorem MainPc.not_opened_of_creating {p : MainPc} (h : p.creating = true) :
    p.opened = false := by
  cases p <;> simp_all [MainPc.creating, MainPc.opened]

/-! ## the invariant -/

/-- what a worker at this program point has learnt of the queue -/
def WorkerPc.Sees (head : Option Ptr) (shutdown : Bool) : WorkerPc → Prop
  | .condWait => head = none
  | .disableCancel | .testShutdown => shutdown = false → head ≠ none
  | .unlinkHead => head ≠ none ∧ shutdown = false
  | _ => True

/-- A worker outside the locked regions has learnt nothing that can become false. -/
theorem WorkerPc.sees_of_not_holds {p : WorkerPc} (h : p.holds = false) (head : Option Ptr)
    (b : Bool) : p.Sees head b := by
  cases p <;> trivial

structure ControlInv (s : State) : Prop where
  shutdown : s.pool.shutdown = s.main.shutDown
  quiet : s.main.creating = true → (∀ c, (s.callers c).pc = .idle) ∧ s.pool.queueHead = none
  sees : ∀ v, (s.workers v).pc.Sees s.pool.queueHead s.pool.shutdown

theorem ControlInv.start (minThreads maxThreads initial : Nat) (now : Int) :
    ControlInv (startState minThreads maxThreads initial now) where
  shutdown := rfl
  quiet _ := ⟨fun _ => rfl, rfl⟩
  sees _ := trivial

theorem ControlInv.sees_other (h : ControlInv s) {v : Nat} {p : WorkerPc}
    (hp : (s.workers v).pc.Pushed p) : p.Sees s.pool.queueHead s.pool.shutdown := by
  cases hp with
  | same => exact h.sees v
  | wake => trivial
  | start => trivial

theorem ControlInv.worker_step (hM : MutexInv s) (h : ControlInv s) (hm : WorkerMove s w s') :
    ControlInv s' := by
  have hw := h.sees w
  refine ⟨?_, ?_, fun v => ?_⟩
  · have := h.shutdown
    cases hm <;> exact this
  · intro hcr
    cases hm with
    | unlinkHead task t hpc hq ht =>
      have := (h.quiet hcr).2
      rw [hq] at this
      cases this
    | _ => exact h.quiet hcr
  · by_cases e : v = w
    · subst e
      cases hm with
      | queueEmpty hpc hq hs => simpa [WorkerPc.Sees] using hq
      | leaveLoop hpc hq =>
        simp only [goto, setWorker, Function.update_self, WorkerPc.Sees]
        exact fun hs he => hq ⟨he, hs⟩
      | disable hpc => simpa [WorkerPc.Sees, hpc] using hw
      | noShutdown hpc hs =>
        rw [hpc] at hw
        simpa [WorkerPc.Sees, hs] using hw hs
      | cancelPass x hpc hd hx hb => simp [WorkerPc.Sees, Function.update_of_ne hx.symm]
      | _ => simp [WorkerPc.Sees]
    · have hp := hm.pushed e
      cases hm with
      | unlinkHead task t hpc hq ht =>
        -- the mover has the mutex, so nobody else relies on the queue
        refine WorkerPc.sees_of_not_holds ?_ _ _
        have hholds : s.holds (.worker w) = true := by simp [holds, hpc, WorkerPc.holds]
        by_contra hv
        have hv' : s.holds (.worker v) = true := by
          simpa [holds, e] using hv
        exact e (Thread.worker.inj (hM.excl hv' hholds))
      | _ => exact h.sees_other hp

theorem ControlInv.caller_step (hC : CreatedInv s) (hM : MutexInv s) (h : ControlInv s)
    (hm : CallerMove fl s c s') : ControlInv s' := by
  have hp := hm.pushed hC
  have hopen : s.main.creating = false := by
    -- nobody calls a pool that is being created
    by_contra hcr
    have hcr : s.main.creating = true := by simpa using hcr
    have hidle := (h.quiet hcr).1 c
    have hno := MainPc.not_opened_of_creating hcr
    cases hm <;> simp_all
  have hlink : ∀ task, (s.callers c).pc = .link task → ∀ v, (s.workers v).pc.holds = false := by
    intro task hpc v
    have hc : s.holds (.caller c) = true := by simp [holds, hpc, CallerPc.holds]
    by_contra hv
    have hv' : s.holds (.worker v) = true := by simpa [holds] using hv
    cases hM.excl hv' hc
  refine ⟨?_, ?_, fun v => ?_⟩
  · have := h.shutdown
    cases hm <;> exact this
  · intro hcr
    have hmain : s'.main = s.main := by cases hm <;> rfl
    rw [hmain, hopen] at hcr
    cases hcr
  · cases hm with
    | linkFirst task t hpc ht hq => exact WorkerPc.sees_of_not_holds (hlink task hpc v) _ _
    | linkLast task tail t n hpc ht hq htail hn =>
      exact WorkerPc.sees_of_not_holds (hlink task hpc v) _ _
    | _ => exact h.sees_other (hp v)

theorem ControlInv.main_step (hC : CreatedInv s) (hM : MutexInv s) (h : ControlInv s)
    (hm : MainMove s s') : ControlInv s' := by
  have hp := hm.pushed hC
  have hsh := h.shutdown
  refine ⟨?_, ?_, fun v => ?_⟩
  · cases hm <;> simp_all [MainPc.shutDown]
  · intro hcr
    have hq := h.quiet
    cases hm <;> simp_all [MainPc.creating]
  · have hv := h.sees v
    cases hm with
    | failShutdown i hpc =>
      -- not under the mutex: no task has been accepted yet
      have hq := (h.quiet (by rw [hpc]; rfl)).2
      cases e : (s.workers v).pc <;> simp_all [WorkerPc.Sees]
    | destroyShutdown hpc =>
      have hmain : s.holds .main = true := by simp [holds, hpc, MainPc.holds]
      refine WorkerPc.sees_of_not_holds ?_ _ _
      by_contra hc
      have hc' : s.holds (.worker v) = true := by simpa [holds] using hc
      cases hM.excl hc' hmain
    | drain task t hpc hq ht =>
      have hd : s.pool.shutdown = true := by rw [hsh, hpc]; rfl
      cases e : (s.workers v).pc <;> simp_all [WorkerPc.Sees]
    | _ => exact h.sees_other (hp v)

theorem ControlInv.not_draining (h : ControlInv s) {w : Nat}
    (hpc : (s.workers w).pc = .unlinkHead) : s.main.draining = false := by
  have hsee := h.sees w
  rw [hpc] at hsee
  cases e : s.main.draining with
  | false => rfl
  | true =>
    have hsh := MainPc.shutDown_of_draining e
    rw [← h.shutdown, hsee.2] at hsh
    cases hsh

theorem ControlInv.step (hC : CreatedInv s) (hM : MutexInv s) (h : ControlInv s) (l : Label)
    (hs : step fl l s = some s') : ControlInv s' := by
  cases l with
  | worker w a => exact h.worker_step hM (.of_step hs)
  | caller c a => exact h.caller_step hC hM (.of_step hs)
  | main a => exact h.main_step hC hM (.of_step hs)

theorem ReachableBy.control {G : State → Label → Prop} {minThreads maxThreads initial : Nat}
    (h : ReachableBy fl G minThreads maxThreads initial s) : ControlInv s :=
  h.inv ControlInv (fun now _ _ => ControlInv.start _ _ _ now)
    fun _ l _ hr hI _ hs => hI.step hr.created hr.mutex l hs

end Pool
