import RobotDialog.Pool.State
import RobotDialog.Lib.Runs

/-!
# The thread pool: what one step does

`step fl l s` is the step of the pool under the label `l`: one statement of one thread.  The label
names the thread and supplies what the environment decides: the result of a call that may fail, the
address that `malloc` returns, the clock, the waiter that a signal wakes, the delivery of a
cancellation, a spurious wakeup.

POSIX behaviour used here: `pthread_cond_wait` releases the mutex and falls asleep in one step; a
signal wakes one sleeper if there is one; cancellation is deferred and only delivered in
`pthread_cond_wait` with cancellation enabled; a cancelled waiter takes the mutex again before its
cleanup handler runs, and if it had been woken it passes the wakeup on when another thread is
asleep.  `fl` is the rounding of the `float` division (the identity for an exact ratio).
-/

namespace Pool

/-! ## labels -/

/-- what a worker does next; `run` is the plain next statement -/
inductive WorkerAct where
  | run
  | setcancelFails                            -- pthread_setcancelstate returns an error
  | spurious                                  -- spurious wakeup
  | actCancel (pass : Option Nat)             -- cancellation; sleeper that inherits a wakeup
  | clock (t : Timespec)                      -- clock_gettime; the task's function has returned
  deriving DecidableEq, Repr

inductive CallerAct where
  | run
  | addTask (function : Option Ptr) (argument : Ptr)   -- call thread_pool_add_task
  | autoScale                                 -- call thread_pool_auto_scale
  | malloc (p : Option Ptr)                   -- result of malloc
  | wake (v : Option Nat)                     -- sleeper woken by pthread_cond_signal
  | time (now : Int)                          -- result of time(NULL)
  | result (ok : Bool)                        -- pthread_create or pthread_cancel succeeds
  deriving DecidableEq, Repr

inductive MainAct where
  | run
  | result (ok : Bool)                        -- pthread_create succeeds
  | destroy                                   -- call thread_pool_destroy
  deriving DecidableEq, Repr

inductive Label where
  | worker (w : Nat) (a : WorkerAct)
  | caller (c : Nat) (a : CallerAct)
  | main (a : MainAct)
  deriving DecidableEq, Repr

/-! ## operations on a state -/

namespace State

@[simp] def setWorker (s : State) (w : Nat) (x : Worker) : State :=
  { s with workers := Function.update s.workers w x }

@[simp] def goto (s : State) (w : Nat) (pc : WorkerPc) : State :=
  s.setWorker w { s.workers w with pc := pc }

@[simp] def callerGoto (s : State) (c : Nat) (pc : CallerPc) : State :=
  { s with callers := Function.update s.callers c { s.callers c with pc := pc } }

@[simp] def mainGoto (s : State) (pc : MainPc) : State := { s with main := pc }

@[simp] def setOwner (s : State) (t : Option Thread) : State := { s with owner := t }

@[simp] def setPool (s : State) (p : ThreadPool) : State := { s with pool := p }

@[simp] def setHeap (s : State) (a : Ptr) (x : Option Task) : State :=
  { s with heap := Function.update s.heap a x }

/-- `pthread_cond_broadcast`: every sleeper wakes -/
@[simp] def broadcast (s : State) : State :=
  { s with workers := fun v =>
      if (s.workers v).pc = .blocked then { s.workers v with pc := .woken } else s.workers v }

/-- a new thread runs `thread_pool_worker`, its `pthread_t` goes to `threads[i]` -/
@[simp] def createWorker (s : State) (i : Nat) : State :=
  { s with
    workers := Function.update s.workers s.created ⟨.lock, true, false⟩
    created := s.created + 1
    pool := { s.pool with threads := Function.update s.pool.threads i (some s.created) } }

/-- a call returns `rc`; a `thread_pool_add_task` call is recorded -/
@[simp] def finishCall (s : State) (c : Nat) (rc : Int) : State :=
  { s with
    callers := Function.update s.callers c ⟨.idle, none⟩
    returned := match (s.callers c).call with
      | some n => s.returned ++ [(n, rc)]
      | none => s.returned }

/-- what wakes when a wakeup is handed on: some sleeper, or nobody if nobody sleeps -/
def wakeOne (s : State) : Option Nat → Option State
  | some v => if (s.workers v).pc = .blocked then some (s.goto v .woken) else none
  | none => if s.anyBlocked then none else some s

end State

/-! ## the worker -/

/-- `thread_pool_worker`, one statement -/
def workerStep (s : State) (w : Nat) (a : WorkerAct) : Option State :=
  match (s.workers w).pc, a with
  | .lock, .run =>
    if s.owner = none then some ((s.setOwner (some (.worker w))).goto w .enableCancel) else none
  | .enableCancel, .run =>
    some (s.setWorker w { s.workers w with pc := .testQueue, cancelEnabled := true })
  | .enableCancel, .setcancelFails => some (s.goto w .exitedLocked)
  | .testQueue, .run =>
    if s.pool.queueHead = none ∧ s.pool.shutdown = false then some (s.goto w .condWait)
    else some (s.goto w .disableCancel)
  | .condWait, .run => some ((s.setOwner none).goto w .blocked)
  | .condWait, .actCancel none =>
    -- a cancellation point: the request is acted upon before the thread falls asleep
    if (s.workers w).cancelEnabled ∧ (s.workers w).cancelPending then some (s.goto w .cleanup)
    else none
  | .blocked, .spurious => some (s.goto w .woken)
  | .blocked, .actCancel none =>
    if (s.workers w).cancelEnabled ∧ (s.workers w).cancelPending then some (s.goto w .cancelled)
    else none
  | .woken, .run =>
    if s.owner = none then some ((s.setOwner (some (.worker w))).goto w .testQueue) else none
  | .woken, .actCancel pass =>
    if (s.workers w).cancelEnabled ∧ (s.workers w).cancelPending then
      (s.goto w .cancelled).wakeOne pass
    else none
  | .cancelled, .run =>
    if s.owner = none then some ((s.setOwner (some (.worker w))).goto w .cleanup) else none
  | .cleanup, .run => some ((s.setOwner none).goto w .exited)
  | .disableCancel, .run =>
    some (s.setWorker w { s.workers w with pc := .testShutdown, cancelEnabled := false })
  | .disableCancel, .setcancelFails => some (s.goto w .exitedLocked)
  | .testShutdown, .run =>
    if s.pool.shutdown then some (s.goto w .unlockShutdown) else some (s.goto w .unlinkHead)
  | .unlockShutdown, .run => some ((s.setOwner none).goto w .exited)
  | .unlinkHead, .run =>
    match s.pool.queueHead with
    | none => none                            -- NULL->next: undefined
    | some task =>
      match s.heap task with
      | none => none                          -- freed node: undefined
      | some t =>
        some ({ s.setPool { s.pool with queueHead := t.next } with
          dequeued := s.dequeued ++ [t.job] }.goto w (.fixTail task))
  | .fixTail task, .run =>
    if s.pool.queueHead = none then
      some ((s.setPool { s.pool with queueTail := none }).goto w (.decQueueSize task))
    else some (s.goto w (.decQueueSize task))
  | .decQueueSize task, .run =>
    some ((s.setPool { s.pool with queueSize := s.pool.queueSize - 1 }).goto w (.incActive task))
  | .incActive task, .run =>
    some ((s.setPool { s.pool with activeThreads := s.pool.activeThreads + 1 }).goto w
      (.unlockTask task))
  | .unlockTask task, .run => some ((s.setOwner none).goto w (.startClock task))
  | .startClock task, .clock t => some (s.goto w (.callFunction task t))
  | .callFunction task start, .clock t =>
    match s.heap task with
    | none => none                            -- freed node: undefined
    | some n =>
      some ({ s with completed := s.completed ++ [n.job] }.goto w
        (.lockStats task (taskTimeMs start t)))
  | .lockStats task ms, .run =>
    if s.owner = none then
      some ((s.setOwner (some (.worker w))).goto w (.addCompleted task ms))
    else none
  | .addCompleted task ms, .run =>
    some ((s.setPool { s.pool with
      totalTasksCompleted := s.pool.totalTasksCompleted + 1
      totalTaskTimeMs := s.pool.totalTaskTimeMs + ms }).goto w (.updateMin task ms))
  | .updateMin task ms, .run =>
    some ((s.setPool { s.pool with
      minTaskTimeMs := if s.pool.minTaskTimeMs = 0 ∨ ms < s.pool.minTaskTimeMs then ms
        else s.pool.minTaskTimeMs }).goto w (.updateMax task ms))
  | .updateMax task ms, .run =>
    some ((s.setPool { s.pool with
      maxTaskTimeMs := if ms > s.pool.maxTaskTimeMs then ms else s.pool.maxTaskTimeMs }).goto w
        (.decActive task))
  | .decActive task, .run =>
    some ((s.setPool { s.pool with activeThreads := s.pool.activeThreads - 1 }).goto w
      (.unlockStats task))
  | .unlockStats task, .run => some ((s.setOwner none).goto w (.freeTask task))
  | .freeTask task, .run => some ((s.setHeap task none).goto w .lock)
  | _, _ => none

/-! ## the callers -/

/-- the pool has been published by a successful creation and not been freed -/
def MainPc.opened : MainPc → Bool
  | .create _ _ | .failShutdown _ | .failBroadcast _ | .failJoin _ _ | .failFree | .createFailed
  | .destroyed => false
  | _ => true

/-- `load_ratio > THREAD_POOL_SCALE_UP_THRESHOLD`, with the division by zero of IEEE arithmetic -/
def loadAbove (fl : ℚ → ℚ) (active : Int) (current : Nat) : Bool :=
  if current = 0 then 0 < active else scaleUpThreshold < fl (active / current)

/-- `load_ratio < THREAD_POOL_SCALE_DOWN_THRESHOLD` -/
def loadBelow (fl : ℚ → ℚ) (active : Int) (current : Nat) : Bool :=
  if current = 0 then active < 0 else fl (active / current) < scaleDownThreshold

/-- `new_thread_count` of a scale up -/
def scaleUpTarget (p : ThreadPool) : Nat := min ((p.threadCount * 3 + 1) / 2) p.maxThreads

/-- `new_thread_count` of a scale down -/
def scaleDownTarget (p : ThreadPool) : Nat := max ((p.threadCount * 3 + 1) / 4) p.minThreads

def scalesUp (fl : ℚ → ℚ) (p : ThreadPool) : Bool :=
  loadAbove fl p.activeThreads p.threadCount && decide (p.queueSize > queueHighWater) &&
    decide (p.threadCount < p.maxThreads)

def scalesDown (fl : ℚ → ℚ) (p : ThreadPool) : Bool :=
  loadBelow fl p.activeThreads p.threadCount && decide (p.queueSize < queueLowWater) &&
    decide (p.threadCount > p.minThreads)

/-- the program point behind the load test of `thread_pool_auto_scale` -/
def scaleBranch (fl : ℚ → ℚ) (p : ThreadPool) (now : Int) : CallerPc :=
  if scalesUp fl p then .scaleUp p.threadCount (scaleUpTarget p) now
  else if scalesDown fl p then .scaleDown ((p.threadCount : Int) - 1) (scaleDownTarget p) now
  else .scaleStoreTime now

/-- `thread_pool_add_task` and `thread_pool_auto_scale`, one statement -/
def callerStep (fl : ℚ → ℚ) (s : State) (c : Nat) (a : CallerAct) : Option State :=
  match (s.callers c).pc, a with
  | .idle, .addTask function argument =>
    if s.main.opened then
      match function with
      | none =>                               -- !function: return -1
        some { s with calls := s.calls + 1, returned := s.returned ++ [(s.calls, -1)] }
      | some f =>
        some { s with
          callers := Function.update s.callers c
            ⟨.mallocTask ⟨s.calls, f, argument⟩, some s.calls⟩
          calls := s.calls + 1 }
    else none
  | .idle, .autoScale => if s.main.opened then some (s.callerGoto c .scaleTime) else none
  | .mallocTask _, .malloc none => some (s.finishCall c (-1))
  | .mallocTask job, .malloc (some p) =>
    if s.heap p = none then some ((s.setHeap p (some ⟨job, none⟩)).callerGoto c (.lockAdd p))
    else none
  | .lockAdd task, .run =>
    if s.owner = none then some ((s.setOwner (some (.caller c))).callerGoto c (.testShutdown task))
    else none
  | .testShutdown task, .run =>
    if s.pool.shutdown then some (s.callerGoto c (.unlockReject task))
    else some (s.callerGoto c (.link task))
  | .unlockReject task, .run => some ((s.setOwner none).callerGoto c (.freeReject task))
  | .freeReject task, .run => some ((s.setHeap task none).finishCall c (-1))
  | .link task, .run =>
    match s.heap task with
    | none => none
    | some t =>
      if s.pool.queueHead = none then
        some ({ s.setPool { s.pool with queueHead := some task, queueTail := some task } with
          accepted := s.accepted ++ [t.job] }.callerGoto c .incQueueSize)
      else
        match s.pool.queueTail with
        | none => none                        -- queue_tail->next with queue_tail == NULL
        | some tail =>
          match s.heap tail with
          | none => none
          | some n =>
            some ({ (s.setHeap tail (some { n with next := some task })).setPool
              { s.pool with queueTail := some task } with
                accepted := s.accepted ++ [t.job] }.callerGoto c .incQueueSize)
  | .incQueueSize, .run =>
    some ((s.setPool { s.pool with queueSize := s.pool.queueSize + 1 }).callerGoto c .signal)
  | .signal, .wake v => (s.callerGoto c .unlockAdd).wakeOne v
  | .unlockAdd, .run => some ((s.setOwner none).callerGoto c .scaleTime)
  | .scaleTime, .time now =>
    if now - s.pool.lastScaleTime < scaleInterval then some (s.finishCall c 0)
    else some (s.callerGoto c (.scaleLock now))
  | .scaleLock now, .run =>
    if s.owner = none then some ((s.setOwner (some (.caller c))).callerGoto c (.scaleTest now))
    else none
  | .scaleTest now, .run => some (s.callerGoto c (scaleBranch fl s.pool now))
  | .scaleUp i new now, .result ok =>
    if i < new then
      if ok then
        let s' := s.createWorker i
        some ((s'.setPool { s'.pool with threadCount := s'.pool.threadCount + 1 }).callerGoto c
          (.scaleUp (i + 1) new now))
      else some (s.callerGoto c (.scaleStoreTime now))
    else none
  | .scaleUp i new now, .run =>
    if i < new then none else some (s.callerGoto c (.scaleStoreTime now))
  | .scaleDown i new now, .result ok =>
    if (new : Int) ≤ i then
      if ok then
        match s.pool.threads i.toNat with
        | none => none                        -- uninitialised pthread_t
        | some v =>
          some ((s.setWorker v { s.workers v with cancelPending := true }).callerGoto c
            (.scaleDown (i - 1) new now))
      else some (s.callerGoto c (.scaleStoreCount new now))
    else none
  | .scaleDown i new now, .run =>
    if (new : Int) ≤ i then none else some (s.callerGoto c (.scaleStoreCount new now))
  | .scaleStoreCount new now, .run =>
    some ((s.setPool { s.pool with threadCount := new }).callerGoto c (.scaleStoreTime now))
  | .scaleStoreTime now, .run =>
    some ((s.setPool { s.pool with lastScaleTime := now }).callerGoto c .scaleUnlock)
  | .scaleUnlock, .run => some ((s.setOwner none).finishCall c 0)
  | _, _ => none

/-! ## the main thread -/

/-- `pthread_join(pool->threads[i])` returns -/
def State.joinable (s : State) (i : Nat) : Bool :=
  match s.pool.threads i with
  | none => false                             -- uninitialised pthread_t
  | some w => (s.workers w).pc.terminated

/-- `thread_pool_create_with_limits` from its thread loop on, and `thread_pool_destroy` -/
def mainStep (s : State) (a : MainAct) : Option State :=
  match s.main, a with
  | .create i initial, .result ok =>
    if i < initial then
      if ok then some ((s.createWorker i).mainGoto (.create (i + 1) initial))
      else some (s.mainGoto (.failShutdown i))
    else none
  | .create i initial, .run => if i < initial then none else some (s.mainGoto .ready)
  | .failShutdown i, .run =>
    -- not under queue_mutex
    some ((s.setPool { s.pool with shutdown := true }).mainGoto (.failBroadcast i))
  | .failBroadcast i, .run => some (s.broadcast.mainGoto (.failJoin i 0))
  | .failJoin i j, .run =>
    if j < i then
      if s.joinable j then some (s.mainGoto (.failJoin i (j + 1))) else none
    else some (s.mainGoto .failFree)
  | .failFree, .run => some (s.mainGoto .createFailed)
  | .ready, .destroy => some (s.mainGoto .destroyLock)
  | .destroyLock, .run =>
    if s.owner = none then some ((s.setOwner (some .main)).mainGoto .destroyShutdown) else none
  | .destroyShutdown, .run =>
    some ((s.setPool { s.pool with shutdown := true }).mainGoto .destroyBroadcast)
  | .destroyBroadcast, .run => some (s.broadcast.mainGoto .destroyUnlock)
  | .destroyUnlock, .run => some ((s.setOwner none).mainGoto (.destroyJoin 0))
  | .destroyJoin i, .run =>
    if i < s.pool.maxThreads then
      if i < s.pool.threadCount then
        if s.joinable i then some (s.mainGoto (.destroyJoin (i + 1))) else none
      else some (s.mainGoto (.destroyJoin (i + 1)))
    else some (s.mainGoto .destroyDrain)
  | .destroyDrain, .run =>
    match s.pool.queueHead with
    | none => some (s.mainGoto .destroyFree)
    | some task =>
      match s.heap task with
      | none => none
      | some t =>
        -- only the node is freed, not what task->argument points to
        some { (s.setHeap task none).setPool { s.pool with queueHead := t.next } with
          drained := s.drained ++ [t.job] }
  | .destroyFree, .run => some (s.mainGoto .destroyed)
  | _, _ => none

/-- one statement of one thread -/
def step (fl : ℚ → ℚ) (l : Label) (s : State) : Option State :=
  match l with
  | .worker w a => workerStep s w a
  | .caller c a => callerStep fl s c a
  | .main a => mainStep s a

/-! ## creation -/

/-- the state when `thread_pool_create_with_limits` enters its thread loop -/
def startState (minThreads maxThreads initialThreads : Nat) (now : Int) : State where
  pool :=
    { threads := fun _ => none
      threadCount := initialThreads
      minThreads := minThreads
      maxThreads := maxThreads
      queueHead := none
      queueTail := none
      shutdown := false
      activeThreads := 0
      queueSize := 0
      totalTasksCompleted := 0
      lastScaleTime := now
      totalTaskTimeMs := 0
      minTaskTimeMs := 0
      maxTaskTimeMs := 0 }
  heap := fun _ => none
  owner := none
  workers := fun _ => ⟨.notCreated, true, false⟩
  created := 0
  callers := fun _ => ⟨.idle, none⟩
  main := .create 0 initialThreads
  calls := 0
  accepted := []
  dequeued := []
  completed := []
  drained := []
  returned := []

/-- `thread_pool_create_with_limits` up to its thread loop; `none` is the return value -1.
`mallocOk`, `mutexOk` and `condOk` are the results of `malloc`, `pthread_mutex_init` and
`pthread_cond_init`. -/
def threadPoolCreateWithLimits (minThreads maxThreads initialThreads : Nat) (now : Int)
    (mallocOk mutexOk condOk : Bool) : Option State :=
  if initialThreads < minThreads ∨ initialThreads > maxThreads then none
  else if mallocOk && mutexOk && condOk then
    some (startState minThreads maxThreads initialThreads now)
  else none

end Pool
