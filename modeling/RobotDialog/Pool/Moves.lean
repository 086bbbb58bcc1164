import RobotDialog.Pool.Step

/-!
# The thread pool: the moves

Inversion of the step functions: `WorkerMove s w s'`, `CallerMove fl s c s'` and `MainMove s s'`
have one constructor for each statement and each of its outcomes, with the tests that lead there
and the state behind it.  Every invariant is proved by cases on a move.

* `WorkerMove.of_step`, `CallerMove.of_step`, `MainMove.of_step`   a step is a move.
-/

namespace Pool
open State

/-- worker `w` has cancellation enabled and a pending request -/
def State.deliverable (s : State) (w : Nat) : Prop :=
  (s.workers w).cancelEnabled = true ∧ (s.workers w).cancelPending = true

/-! ## the worker -/

inductive WorkerMove (s : State) (w : Nat) : State → Prop
  | lock (hpc : (s.workers w).pc = .lock) (hfree : s.owner = none) :
      WorkerMove s w ((s.setOwner (some (.worker w))).goto w .enableCancel)
  | enable (hpc : (s.workers w).pc = .enableCancel) :
      WorkerMove s w (s.setWorker w { s.workers w with pc := .testQueue, cancelEnabled := true })
  | setcancelFails (hpc : (s.workers w).pc = .enableCancel ∨ (s.workers w).pc = .disableCancel) :
      WorkerMove s w (s.goto w .exitedLocked)
  | queueEmpty (hpc : (s.workers w).pc = .testQueue) (hq : s.pool.queueHead = none)
      (hs : s.pool.shutdown = false) : WorkerMove s w (s.goto w .condWait)
  | leaveLoop (hpc : (s.workers w).pc = .testQueue)
      (hq : ¬ (s.pool.queueHead = none ∧ s.pool.shutdown = false)) :
      WorkerMove s w (s.goto w .disableCancel)
  | sleep (hpc : (s.workers w).pc = .condWait) :
      WorkerMove s w ((s.setOwner none).goto w .blocked)
  | cancelEarly (hpc : (s.workers w).pc = .condWait) (hd : s.deliverable w) :
      WorkerMove s w (s.goto w .cleanup)
  | spurious (hpc : (s.workers w).pc = .blocked) : WorkerMove s w (s.goto w .woken)
  | cancelAsleep (hpc : (s.workers w).pc = .blocked) (hd : s.deliverable w) :
      WorkerMove s w (s.goto w .cancelled)
  | wakeup (hpc : (s.workers w).pc = .woken) (hfree : s.owner = none) :
      WorkerMove s w ((s.setOwner (some (.worker w))).goto w .testQueue)
  | cancelPass (v : Nat) (hpc : (s.workers w).pc = .woken) (hd : s.deliverable w)
      (hv : v ≠ w) (hb : (s.workers v).pc = .blocked) :
      WorkerMove s w ((s.goto w .cancelled).goto v .woken)
  | cancelLast (hpc : (s.workers w).pc = .woken) (hd : s.deliverable w)
      (hnone : (s.goto w .cancelled).anyBlocked = false) :
      WorkerMove s w (s.goto w .cancelled)
  | lockCancelled (hpc : (s.workers w).pc = .cancelled) (hfree : s.owner = none) :
      WorkerMove s w ((s.setOwner (some (.worker w))).goto w .cleanup)
  | cleanup (hpc : (s.workers w).pc = .cleanup) :
      WorkerMove s w ((s.setOwner none).goto w .exited)
  | disable (hpc : (s.workers w).pc = .disableCancel) :
      WorkerMove s w
        (s.setWorker w { s.workers w with pc := .testShutdown, cancelEnabled := false })
  | seeShutdown (hpc : (s.workers w).pc = .testShutdown) (hs : s.pool.shutdown = true) :
      WorkerMove s w (s.goto w .unlockShutdown)
  | noShutdown (hpc : (s.workers w).pc = .testShutdown) (hs : s.pool.shutdown = false) :
      WorkerMove s w (s.goto w .unlinkHead)
  | unlockShutdown (hpc : (s.workers w).pc = .unlockShutdown) :
      WorkerMove s w ((s.setOwner none).goto w .exited)
  | unlinkHead (task : Ptr) (t : Task) (hpc : (s.workers w).pc = .unlinkHead)
      (hq : s.pool.queueHead = some task) (ht : s.heap task = some t) :
      WorkerMove s w ({ s.setPool { s.pool with queueHead := t.next } with
        dequeued := s.dequeued ++ [t.job] }.goto w (.fixTail task))
  | tailNull (task : Ptr) (hpc : (s.workers w).pc = .fixTail task)
      (hq : s.pool.queueHead = none) :
      WorkerMove s w
        ((s.setPool { s.pool with queueTail := none }).goto w (.decQueueSize task))
  | tailKept (task : Ptr) (hpc : (s.workers w).pc = .fixTail task)
      (hq : s.pool.queueHead ≠ none) : WorkerMove s w (s.goto w (.decQueueSize task))
  | decQueueSize (task : Ptr) (hpc : (s.workers w).pc = .decQueueSize task) :
      WorkerMove s w
        ((s.setPool { s.pool with queueSize := s.pool.queueSize - 1 }).goto w (.incActive task))
  | incActive (task : Ptr) (hpc : (s.workers w).pc = .incActive task) :
      WorkerMove s w ((s.setPool { s.pool with activeThreads := s.pool.activeThreads + 1 }).goto w
        (.unlockTask task))
  | unlockTask (task : Ptr) (hpc : (s.workers w).pc = .unlockTask task) :
      WorkerMove s w ((s.setOwner none).goto w (.startClock task))
  | startClock (task : Ptr) (t : Timespec) (hpc : (s.workers w).pc = .startClock task) :
      WorkerMove s w (s.goto w (.callFunction task t))
  | functionReturns (task : Ptr) (start t : Timespec) (n : Task)
      (hpc : (s.workers w).pc = .callFunction task start) (hn : s.heap task = some n) :
      WorkerMove s w ({ s with completed := s.completed ++ [n.job] }.goto w
        (.lockStats task (taskTimeMs start t)))
  | lockStats (task : Ptr) (ms : Int) (hpc : (s.workers w).pc = .lockStats task ms)
      (hfree : s.owner = none) :
      WorkerMove s w ((s.setOwner (some (.worker w))).goto w (.addCompleted task ms))
  | addCompleted (task : Ptr) (ms : Int) (hpc : (s.workers w).pc = .addCompleted task ms) :
      WorkerMove s w ((s.setPool { s.pool with
        totalTasksCompleted := s.pool.totalTasksCompleted + 1
        totalTaskTimeMs := s.pool.totalTaskTimeMs + ms }).goto w (.updateMin task ms))
  | updateMin (task : Ptr) (ms : Int) (hpc : (s.workers w).pc = .updateMin task ms) :
      WorkerMove s w ((s.setPool { s.pool with
        minTaskTimeMs := if s.pool.minTaskTimeMs = 0 ∨ ms < s.pool.minTaskTimeMs then ms
          else s.pool.minTaskTimeMs }).goto w (.updateMax task ms))
  | updateMax (task : Ptr) (ms : Int) (hpc : (s.workers w).pc = .updateMax task ms) :
      WorkerMove s w ((s.setPool { s.pool with
        maxTaskTimeMs := if ms > s.pool.maxTaskTimeMs then ms else s.pool.maxTaskTimeMs }).goto w
          (.decActive task))
  | decActive (task : Ptr) (hpc : (s.workers w).pc = .decActive task) :
      WorkerMove s w ((s.setPool { s.pool with activeThreads := s.pool.activeThreads - 1 }).goto w
        (.unlockStats task))
  | unlockStats (task : Ptr) (hpc : (s.workers w).pc = .unlockStats task) :
      WorkerMove s w ((s.setOwner none).goto w (.freeTask task))
  | freeTask (task : Ptr) (hpc : (s.workers w).pc = .freeTask task) :
      WorkerMove s w ((s.setHeap task none).goto w .lock)

theorem WorkerMove.of_step {s s' : State} {w : Nat} {a : WorkerAct}
    (h : workerStep s w a = some s') : WorkerMove s w s' := by
  unfold workerStep at h
  split at h
  case h_1 hpc => split at h <;> cases h; exact .lock hpc ‹_›
  case h_2 hpc => cases h; exact .enable hpc
  case h_3 hpc => cases h; exact .setcancelFails (.inl hpc)
  case h_4 hpc =>
    split at h <;> cases h
    · exact .queueEmpty hpc (And.left ‹_›) (And.right ‹_›)
    · exact .leaveLoop hpc ‹_›
  case h_5 hpc => cases h; exact .sleep hpc
  case h_6 hpc => split at h <;> cases h; exact .cancelEarly hpc ‹_›
  case h_7 hpc => cases h; exact .spurious hpc
  case h_8 hpc => split at h <;> cases h; exact .cancelAsleep hpc ‹_›
  case h_9 hpc => split at h <;> cases h; exact .wakeup hpc ‹_›
  case h_10 pass hpc =>
    split at h
    · rename_i hd
      cases pass with
      | none =>
        simp only [wakeOne] at h
        split at h <;> cases h
        exact .cancelLast hpc hd (eq_false_of_ne_true ‹_›)
      | some v =>
        simp only [wakeOne] at h
        split at h <;> cases h
        rename_i hb
        have hv : v ≠ w := by
          rintro rfl
          simp [goto, setWorker] at hb
        refine .cancelPass v hpc hd hv ?_
        simpa [goto, setWorker, hv] using hb
    · cases h
  case h_11 hpc => split at h <;> cases h; exact .lockCancelled hpc ‹_›
  case h_12 hpc => cases h; exact .cleanup hpc
  case h_13 hpc => cases h; exact .disable hpc
  case h_14 hpc => cases h; exact .setcancelFails (.inr hpc)
  case h_15 hpc =>
    split at h <;> cases h
    · exact .seeShutdown hpc ‹_›
    · exact .noShutdown hpc (eq_false_of_ne_true ‹_›)
  case h_16 hpc => cases h; exact .unlockShutdown hpc
  case h_17 hpc =>
    split at h
    · cases h
    · split at h <;> cases h
      exact .unlinkHead _ _ hpc ‹_› ‹_›
  case h_18 task hpc =>
    split at h <;> cases h
    · exact .tailNull task hpc ‹_›
    · exact .tailKept task hpc ‹_›
  case h_19 task hpc => cases h; exact .decQueueSize task hpc
  case h_20 task hpc => cases h; exact .incActive task hpc
  case h_21 task hpc => cases h; exact .unlockTask task hpc
  case h_22 task t hpc => cases h; exact .startClock task t hpc
  case h_23 task start t hpc =>
    split at h <;> cases h
    exact .functionReturns task start t _ hpc ‹_›
  case h_24 task ms hpc => split at h <;> cases h; exact .lockStats task ms hpc ‹_›
  case h_25 task ms hpc => cases h; exact .addCompleted task ms hpc
  case h_26 task ms hpc => cases h; exact .updateMin task ms hpc
  case h_27 task ms hpc => cases h; exact .updateMax task ms hpc
  case h_28 task hpc => cases h; exact .decActive task hpc
  case h_29 task hpc => cases h; exact .unlockStats task hpc
  case h_30 task hpc => cases h; exact .freeTask task hpc
  case h_31 => cases h

/-! ## the callers -/

inductive CallerMove (fl : ℚ → ℚ) (s : State) (c : Nat) : State → Prop
  | addNull (hpc : (s.callers c).pc = .idle) (ho : s.main.opened = true) :
      CallerMove fl s c { s with calls := s.calls + 1, returned := s.returned ++ [(s.calls, -1)] }
  | addTask (f argument : Ptr) (hpc : (s.callers c).pc = .idle) (ho : s.main.opened = true) :
      CallerMove fl s c { s with
        callers := Function.update s.callers c ⟨.mallocTask ⟨s.calls, f, argument⟩, some s.calls⟩
        calls := s.calls + 1 }
  | autoScale (hpc : (s.callers c).pc = .idle) (ho : s.main.opened = true) :
      CallerMove fl s c (s.callerGoto c .scaleTime)
  | mallocFails (job : Job) (hpc : (s.callers c).pc = .mallocTask job) :
      CallerMove fl s c (s.finishCall c (-1))
  | malloc (job : Job) (p : Ptr) (hpc : (s.callers c).pc = .mallocTask job)
      (hp : s.heap p = none) :
      CallerMove fl s c ((s.setHeap p (some ⟨job, none⟩)).callerGoto c (.lockAdd p))
  | lockAdd (task : Ptr) (hpc : (s.callers c).pc = .lockAdd task) (hfree : s.owner = none) :
      CallerMove fl s c ((s.setOwner (some (.caller c))).callerGoto c (.testShutdown task))
  | seeShutdown (task : Ptr) (hpc : (s.callers c).pc = .testShutdown task)
      (hs : s.pool.shutdown = true) : CallerMove fl s c (s.callerGoto c (.unlockReject task))
  | noShutdown (task : Ptr) (hpc : (s.callers c).pc = .testShutdown task)
      (hs : s.pool.shutdown = false) : CallerMove fl s c (s.callerGoto c (.link task))
  | unlockReject (task : Ptr) (hpc : (s.callers c).pc = .unlockReject task) :
      CallerMove fl s c ((s.setOwner none).callerGoto c (.freeReject task))
  | freeReject (task : Ptr) (hpc : (s.callers c).pc = .freeReject task) :
      CallerMove fl s c ((s.setHeap task none).finishCall c (-1))
  | linkFirst (task : Ptr) (t : Task) (hpc : (s.callers c).pc = .link task)
      (ht : s.heap task = some t) (hq : s.pool.queueHead = none) :
      CallerMove fl s c ({ s.setPool { s.pool with
          queueHead := some task, queueTail := some task } with
        accepted := s.accepted ++ [t.job] }.callerGoto c .incQueueSize)
  | linkLast (task tail : Ptr) (t n : Task) (hpc : (s.callers c).pc = .link task)
      (ht : s.heap task = some t) (hq : s.pool.queueHead ≠ none)
      (htail : s.pool.queueTail = some tail) (hn : s.heap tail = some n) :
      CallerMove fl s c ({ (s.setHeap tail (some { n with next := some task })).setPool
          { s.pool with queueTail := some task } with
        accepted := s.accepted ++ [t.job] }.callerGoto c .incQueueSize)
  | incQueueSize (hpc : (s.callers c).pc = .incQueueSize) :
      CallerMove fl s c
        ((s.setPool { s.pool with queueSize := s.pool.queueSize + 1 }).callerGoto c .signal)
  | signal (v : Nat) (hpc : (s.callers c).pc = .signal) (hb : (s.workers v).pc = .blocked) :
      CallerMove fl s c ((s.callerGoto c .unlockAdd).goto v .woken)
  | signalNobody (hpc : (s.callers c).pc = .signal) (hnone : s.anyBlocked = false) :
      CallerMove fl s c (s.callerGoto c .unlockAdd)
  | unlockAdd (hpc : (s.callers c).pc = .unlockAdd) :
      CallerMove fl s c ((s.setOwner none).callerGoto c .scaleTime)
  | tooEarly (now : Int) (hpc : (s.callers c).pc = .scaleTime)
      (ht : now - s.pool.lastScaleTime < scaleInterval) : CallerMove fl s c (s.finishCall c 0)
  | scaleDue (now : Int) (hpc : (s.callers c).pc = .scaleTime)
      (ht : ¬ now - s.pool.lastScaleTime < scaleInterval) :
      CallerMove fl s c (s.callerGoto c (.scaleLock now))
  | scaleLock (now : Int) (hpc : (s.callers c).pc = .scaleLock now) (hfree : s.owner = none) :
      CallerMove fl s c ((s.setOwner (some (.caller c))).callerGoto c (.scaleTest now))
  | scaleTest (now : Int) (hpc : (s.callers c).pc = .scaleTest now) :
      CallerMove fl s c (s.callerGoto c (scaleBranch fl s.pool now))
  | created (i new : Nat) (now : Int) (hpc : (s.callers c).pc = .scaleUp i new now)
      (hi : i < new) :
      CallerMove fl s c (((s.createWorker i).setPool { (s.createWorker i).pool with
        threadCount := s.pool.threadCount + 1 }).callerGoto c (.scaleUp (i + 1) new now))
  | scaleUpEnds (i new : Nat) (now : Int) (hpc : (s.callers c).pc = .scaleUp i new now) :
      CallerMove fl s c (s.callerGoto c (.scaleStoreTime now))
  | cancel (i : Int) (new v : Nat) (now : Int) (hpc : (s.callers c).pc = .scaleDown i new now)
      (hi : (new : Int) ≤ i) (hv : s.pool.threads i.toNat = some v) :
      CallerMove fl s c ((s.setWorker v { s.workers v with cancelPending := true }).callerGoto c
        (.scaleDown (i - 1) new now))
  | scaleDownEnds (i : Int) (new : Nat) (now : Int)
      (hpc : (s.callers c).pc = .scaleDown i new now) :
      CallerMove fl s c (s.callerGoto c (.scaleStoreCount new now))
  | scaleStoreCount (new : Nat) (now : Int) (hpc : (s.callers c).pc = .scaleStoreCount new now) :
      CallerMove fl s c
        ((s.setPool { s.pool with threadCount := new }).callerGoto c (.scaleStoreTime now))
  | scaleStoreTime (now : Int) (hpc : (s.callers c).pc = .scaleStoreTime now) :
      CallerMove fl s c
        ((s.setPool { s.pool with lastScaleTime := now }).callerGoto c .scaleUnlock)
  | scaleUnlock (hpc : (s.callers c).pc = .scaleUnlock) :
      CallerMove fl s c ((s.setOwner none).finishCall c 0)

theorem CallerMove.of_step {fl : ℚ → ℚ} {s s' : State} {c : Nat} {a : CallerAct}
    (h : callerStep fl s c a = some s') : CallerMove fl s c s' := by
  unfold callerStep at h
  split at h
  case h_1 function argument hpc =>
    split at h
    · cases function with
      | none => cases h; exact .addNull hpc ‹_›
      | some f => cases h; exact .addTask f argument hpc ‹_›
    · cases h
  case h_2 hpc => split at h <;> cases h; exact .autoScale hpc ‹_›
  case h_3 job hpc => cases h; exact .mallocFails job hpc
  case h_4 job p hpc => split at h <;> cases h; exact .malloc job p hpc ‹_›
  case h_5 task hpc => split at h <;> cases h; exact .lockAdd task hpc ‹_›
  case h_6 task hpc =>
    split at h <;> cases h
    · exact .seeShutdown task hpc ‹_›
    · exact .noShutdown task hpc (eq_false_of_ne_true ‹_›)
  case h_7 task hpc => cases h; exact .unlockReject task hpc
  case h_8 task hpc => cases h; exact .freeReject task hpc
  case h_9 task hpc =>
    split at h
    · cases h
    · rename_i t ht
      split at h
      · cases h; exact .linkFirst task t hpc ht ‹_›
      · split at h
        · cases h
        · split at h <;> cases h
          exact .linkLast task _ t _ hpc ht ‹_› ‹_› ‹_›
  case h_10 hpc => cases h; exact .incQueueSize hpc
  case h_11 v hpc =>
    cases v with
    | none =>
      simp only [wakeOne] at h
      split at h <;> cases h
      exact .signalNobody hpc (eq_false_of_ne_true ‹_›)
    | some v =>
      simp only [wakeOne] at h
      split at h <;> cases h
      exact .signal v hpc ‹_›
  case h_12 hpc => cases h; exact .unlockAdd hpc
  case h_13 now hpc =>
    split at h <;> cases h
    · exact .tooEarly now hpc ‹_›
    · exact .scaleDue now hpc ‹_›
  case h_14 now hpc => split at h <;> cases h; exact .scaleLock now hpc ‹_›
  case h_15 now hpc => cases h; exact .scaleTest now hpc
  case h_16 i new now ok hpc =>
    split at h
    · cases ok <;> cases h
      · exact .scaleUpEnds i new now hpc
      · exact .created i new now hpc ‹_›
    · cases h
  case h_17 i new now hpc => split at h <;> cases h; exact .scaleUpEnds i new now hpc
  case h_18 i new now ok hpc =>
    split at h
    · cases ok with
      | false => cases h; exact .scaleDownEnds i new now hpc
      | true =>
        simp only [if_true] at h
        split at h <;> cases h
        exact .cancel i new _ now hpc ‹_› ‹_›
    · cases h
  case h_19 i new now hpc => split at h <;> cases h; exact .scaleDownEnds i new now hpc
  case h_20 new now hpc => cases h; exact .scaleStoreCount new now hpc
  case h_21 now hpc => cases h; exact .scaleStoreTime now hpc
  case h_22 hpc => cases h; exact .scaleUnlock hpc
  case h_23 => cases h

/-! ## the main thread -/

inductive MainMove (s : State) : State → Prop
  | created (i initial : Nat) (hpc : s.main = .create i initial) (hi : i < initial) :
      MainMove s ((s.createWorker i).mainGoto (.create (i + 1) initial))
  | createFails (i initial : Nat) (hpc : s.main = .create i initial) (hi : i < initial) :
      MainMove s (s.mainGoto (.failShutdown i))
  | allCreated (i initial : Nat) (hpc : s.main = .create i initial) (hi : ¬ i < initial) :
      MainMove s (s.mainGoto .ready)
  | failShutdown (i : Nat) (hpc : s.main = .failShutdown i) :
      MainMove s ((s.setPool { s.pool with shutdown := true }).mainGoto (.failBroadcast i))
  | failBroadcast (i : Nat) (hpc : s.main = .failBroadcast i) :
      MainMove s (s.broadcast.mainGoto (.failJoin i 0))
  | failJoin (i j : Nat) (hpc : s.main = .failJoin i j) (hj : j < i)
      (ht : s.joinable j = true) : MainMove s (s.mainGoto (.failJoin i (j + 1)))
  | failJoined (i j : Nat) (hpc : s.main = .failJoin i j) (hj : ¬ j < i) :
      MainMove s (s.mainGoto .failFree)
  | failFree (hpc : s.main = .failFree) : MainMove s (s.mainGoto .createFailed)
  | destroy (hpc : s.main = .ready) : MainMove s (s.mainGoto .destroyLock)
  | destroyLock (hpc : s.main = .destroyLock) (hfree : s.owner = none) :
      MainMove s ((s.setOwner (some .main)).mainGoto .destroyShutdown)
  | destroyShutdown (hpc : s.main = .destroyShutdown) :
      MainMove s ((s.setPool { s.pool with shutdown := true }).mainGoto .destroyBroadcast)
  | destroyBroadcast (hpc : s.main = .destroyBroadcast) :
      MainMove s (s.broadcast.mainGoto .destroyUnlock)
  | destroyUnlock (hpc : s.main = .destroyUnlock) :
      MainMove s ((s.setOwner none).mainGoto (.destroyJoin 0))
  | join (i : Nat) (hpc : s.main = .destroyJoin i) (hi : i < s.pool.maxThreads)
      (hc : i < s.pool.threadCount) (ht : s.joinable i = true) :
      MainMove s (s.mainGoto (.destroyJoin (i + 1)))
  | skip (i : Nat) (hpc : s.main = .destroyJoin i) (hi : i < s.pool.maxThreads)
      (hc : ¬ i < s.pool.threadCount) : MainMove s (s.mainGoto (.destroyJoin (i + 1)))
  | joined (i : Nat) (hpc : s.main = .destroyJoin i) (hi : ¬ i < s.pool.maxThreads) :
      MainMove s (s.mainGoto .destroyDrain)
  | drained (hpc : s.main = .destroyDrain) (hq : s.pool.queueHead = none) :
      MainMove s (s.mainGoto .destroyFree)
  | drain (task : Ptr) (t : Task) (hpc : s.main = .destroyDrain)
      (hq : s.pool.queueHead = some task) (ht : s.heap task = some t) :
      MainMove s { (s.setHeap task none).setPool { s.pool with queueHead := t.next } with
        drained := s.drained ++ [t.job] }
  | destroyFree (hpc : s.main = .destroyFree) : MainMove s (s.mainGoto .destroyed)

theorem MainMove.of_step {s s' : State} {a : MainAct} (h : mainStep s a = some s') :
    MainMove s s' := by
  unfold mainStep at h
  split at h
  case h_1 i initial ok hpc =>
    split at h
    · cases ok <;> cases h
      · exact .createFails i initial hpc ‹_›
      · exact .created i initial hpc ‹_›
    · cases h
  case h_2 i initial hpc => split at h <;> cases h; exact .allCreated i initial hpc ‹_›
  case h_3 i hpc => cases h; exact .failShutdown i hpc
  case h_4 i hpc => cases h; exact .failBroadcast i hpc
  case h_5 i j hpc =>
    split at h
    · split at h <;> cases h
      exact .failJoin i j hpc ‹_› ‹_›
    · cases h; exact .failJoined i j hpc ‹_›
  case h_6 hpc => cases h; exact .failFree hpc
  case h_7 hpc => cases h; exact .destroy hpc
  case h_8 hpc => split at h <;> cases h; exact .destroyLock hpc ‹_›
  case h_9 hpc => cases h; exact .destroyShutdown hpc
  case h_10 hpc => cases h; exact .destroyBroadcast hpc
  case h_11 hpc => cases h; exact .destroyUnlock hpc
  case h_12 i hpc =>
    split at h
    · split at h
      · split at h <;> cases h
        exact .join i hpc ‹_› ‹_› ‹_›
      · cases h; exact .skip i hpc ‹_› ‹_›
    · cases h; exact .joined i hpc ‹_›
  case h_13 hpc =>
    split at h
    · cases h; exact .drained hpc ‹_›
    · split at h <;> cases h
      exact .drain _ _ hpc ‹_› ‹_›
  case h_14 hpc => cases h; exact .destroyFree hpc
  case h_15 => cases h

end Pool
