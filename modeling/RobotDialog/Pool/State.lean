import Mathlib.Logic.Function.Basic
import Mathlib.Data.Rat.Defs

/-!
# The thread pool: data and program points

The data of `thread_pool.c` and of `thread_pool_t` in `server.h`.  A thread is a worker, a caller
of the pool (a thread inside `thread_pool_add_task` or `thread_pool_auto_scale`) or the main thread
(the one that creates and destroys the pool).  Each has a program counter with one value for each
statement, and the local variables that are live there.

* `ThreadPool`  the fields of `thread_pool_t` (without the mutex and the condition variable);
* `Task`        a `task_t` with the number of the call that made it (a ghost);
* `WorkerPc`, `CallerPc`, `MainPc`   the program points;
* `State`       the pool, the heap of tasks, `queue_mutex`, every thread, and the history of the
                accepted, dequeued and completed tasks.

Pointers are natural numbers and `NULL` is `none`.  The limits of the pool are natural numbers: a
negative count would index the array `threads` below its start.

Counters are unbounded, because no run comes near their bounds: `active_threads` counts live threads
and `queue_size` allocated nodes, each with an open descriptor in the server, and the system has room
for neither 2^31 threads nor 2^31 descriptors; the totals are 64-bit, and so many tasks or milliseconds
take millions of years.
-/

namespace Pool

abbrev Ptr := Nat

/-! ## constants of config.h -/

def scaleInterval : Int := 2
def scaleUpThreshold : ℚ := 3 / 5
def scaleDownThreshold : ℚ := 3 / 10
def queueHighWater : Int := 10
def queueLowWater : Int := 2

/-! ## data -/

/-- what a task does, and the number of the `thread_pool_add_task` call that made it -/
structure Job where
  call : Nat
  function : Ptr
  argument : Ptr
  deriving DecidableEq, Repr

/-- `task_t` -/
structure Task where
  job : Job
  next : Option Ptr
  deriving DecidableEq, Repr

/-- `thread_pool_t`; `threads` maps a slot to the worker whose `pthread_t` it stores -/
structure ThreadPool where
  threads : Nat → Option Nat
  threadCount : Nat
  minThreads : Nat
  maxThreads : Nat
  queueHead : Option Ptr
  queueTail : Option Ptr
  shutdown : Bool
  activeThreads : Int
  queueSize : Int
  totalTasksCompleted : Int
  lastScaleTime : Int
  totalTaskTimeMs : Int
  minTaskTimeMs : Int
  maxTaskTimeMs : Int

/-- `struct timespec` -/
structure Timespec where
  sec : Int
  nsec : Int
  deriving DecidableEq, Repr

/-- `task_time_ms` (C division truncates) -/
def taskTimeMs (start stop : Timespec) : Int :=
  (stop.sec - start.sec) * 1000 + (stop.nsec - start.nsec).tdiv 1000000

/-! ## program points -/

/-- the program points of `thread_pool_worker` and of `thread_cleanup` -/
inductive WorkerPc where
  | notCreated
  | lock                                      -- pthread_mutex_lock
  | enableCancel                              -- pthread_setcancelstate(ENABLE)
  | testQueue                                 -- while (queue_head == NULL && !shutdown)
  | condWait                                  -- about to call pthread_cond_wait
  | blocked                                   -- in pthread_cond_wait, asleep, mutex released
  | woken                                     -- in pthread_cond_wait, to take the mutex and return
  | cancelled                                 -- in pthread_cond_wait, cancelled, to take the mutex
  | cleanup                                   -- thread_cleanup: pthread_mutex_unlock
  | disableCancel                             -- pthread_setcancelstate(DISABLE)
  | testShutdown                              -- if (shutdown)
  | unlockShutdown                            -- pthread_mutex_unlock, break
  | unlinkHead                                -- task = queue_head; queue_head = task->next
  | fixTail (task : Ptr)                      -- if (queue_head == NULL) queue_tail = NULL
  | decQueueSize (task : Ptr)                 -- queue_size - 1
  | incActive (task : Ptr)                    -- active_threads + 1
  | unlockTask (task : Ptr)                   -- pthread_mutex_unlock
  | startClock (task : Ptr)                   -- clock_gettime(&task_start)
  | callFunction (task : Ptr) (start : Timespec)   -- task->function(task->argument)
  | lockStats (task : Ptr) (ms : Int)         -- pthread_mutex_lock
  | addCompleted (task : Ptr) (ms : Int)      -- total_tasks_completed, total_task_time_ms
  | updateMin (task : Ptr) (ms : Int)         -- min_task_time_ms
  | updateMax (task : Ptr) (ms : Int)         -- max_task_time_ms
  | decActive (task : Ptr)                    -- active_threads - 1
  | unlockStats (task : Ptr)                  -- pthread_mutex_unlock
  | freeTask (task : Ptr)                     -- free(task)
  | exited                                    -- terminated
  | exitedLocked                              -- terminated by a failed setcancelstate, mutex held
  deriving DecidableEq, Repr

/-- the program points of `thread_pool_add_task` and of `thread_pool_auto_scale` -/
inductive CallerPc where
  | idle
  | mallocTask (job : Job)                    -- malloc(sizeof(task_t)) and the three fields
  | lockAdd (task : Ptr)                      -- pthread_mutex_lock
  | testShutdown (task : Ptr)                 -- if (shutdown)
  | unlockReject (task : Ptr)                 -- pthread_mutex_unlock
  | freeReject (task : Ptr)                   -- free(task); return -1
  | link (task : Ptr)                         -- append at queue_tail
  | incQueueSize                              -- queue_size + 1
  | signal                                    -- pthread_cond_signal
  | unlockAdd                                 -- pthread_mutex_unlock
  | scaleTime                                 -- now - last_scale_time < THREAD_POOL_SCALE_INTERVAL
  | scaleLock (now : Int)                     -- pthread_mutex_lock
  | scaleTest (now : Int)                     -- load ratio and the two branches
  | scaleUp (i new : Nat) (now : Int)         -- for (; i < new_thread_count; i++) pthread_create
  | scaleDown (i : Int) (new : Nat) (now : Int)    -- for (; i >= new_thread_count; --i) cancel
  | scaleStoreCount (new : Nat) (now : Int)   -- thread_count = new_thread_count
  | scaleStoreTime (now : Int)                -- last_scale_time = now
  | scaleUnlock                               -- pthread_mutex_unlock
  deriving DecidableEq, Repr

/-- the program points of the thread loop of `thread_pool_create_with_limits` (`initial` is its
argument `initial_threads`) and of `thread_pool_destroy` -/
inductive MainPc where
  | create (i initial : Nat)                  -- for (; i < initial_threads; ++i) pthread_create
  | failShutdown (i : Nat)                    -- shutdown = 1
  | failBroadcast (i : Nat)                   -- pthread_cond_broadcast
  | failJoin (i j : Nat)                      -- for (; j < i; j++) pthread_join
  | failFree                                  -- destroy mutex and condition, free(threads)
  | createFailed                              -- returned -1
  | ready                                     -- returned 0: the pool is in use
  | destroyLock                               -- pthread_mutex_lock
  | destroyShutdown                           -- shutdown = 1
  | destroyBroadcast                          -- pthread_cond_broadcast
  | destroyUnlock                             -- pthread_mutex_unlock
  | destroyJoin (i : Nat)                     -- for (; i < max_threads; ++i) if (i < thread_count)
  | destroyDrain                              -- while (queue_head) free
  | destroyFree                               -- destroy mutex and condition, free threads and pool
  | destroyed
  deriving DecidableEq, Repr

/-- a worker thread: program point, cancel state, pending `pthread_cancel` -/
structure Worker where
  pc : WorkerPc
  cancelEnabled : Bool
  cancelPending : Bool
  deriving DecidableEq, Repr

/-- a caller: program point, and the number of its `thread_pool_add_task` call (`none` in a
direct call of `thread_pool_auto_scale`) -/
structure Caller where
  pc : CallerPc
  call : Option Nat
  deriving DecidableEq, Repr

inductive Thread where
  | worker (w : Nat)
  | caller (c : Nat)
  | main
  deriving DecidableEq, Repr

/-- **The state of the pool and of every thread.**  Workers are numbered in the order of their
creation, `created` is the number of workers created so far.  The last six fields are history: the
number of `thread_pool_add_task` calls begun, the tasks linked into the queue, unlinked from it by
a worker, run to completion and thrown away by `thread_pool_destroy` so far, and the value that
each finished call returned. -/
structure State where
  pool : ThreadPool
  heap : Ptr → Option Task
  owner : Option Thread
  workers : Nat → Worker
  created : Nat
  callers : Nat → Caller
  main : MainPc
  calls : Nat
  accepted : List Job
  dequeued : List Job
  completed : List Job
  drained : List Job
  returned : List (Nat × Int)

/-! ## views of a program point -/

def WorkerPc.holds : WorkerPc → Bool
  | .enableCancel | .testQueue | .condWait | .cleanup | .disableCancel | .testShutdown
  | .unlockShutdown | .unlinkHead | .fixTail _ | .decQueueSize _ | .incActive _ | .unlockTask _
  | .addCompleted _ _ | .updateMin _ _ | .updateMax _ _ | .decActive _ | .unlockStats _
  | .exitedLocked => true
  | _ => false

def CallerPc.holds : CallerPc → Bool
  | .testShutdown _ | .unlockReject _ | .link _ | .incQueueSize | .signal | .unlockAdd
  | .scaleTest _ | .scaleUp _ _ _ | .scaleDown _ _ _ | .scaleStoreCount _ _ | .scaleStoreTime _
  | .scaleUnlock => true
  | _ => false

def MainPc.holds : MainPc → Bool
  | .destroyShutdown | .destroyBroadcast | .destroyUnlock => true
  | _ => false

def WorkerPc.terminated : WorkerPc → Bool
  | .exited | .exitedLocked => true
  | _ => false

def WorkerPc.live : WorkerPc → Bool
  | .notCreated | .exited | .exitedLocked => false
  | _ => true

/-- the node that the worker has taken out of the queue and not freed yet -/
def WorkerPc.task : WorkerPc → Option Ptr
  | .fixTail t | .decQueueSize t | .incActive t | .unlockTask t | .startClock t
  | .callFunction t _ | .lockStats t _ | .addCompleted t _ | .updateMin t _ | .updateMax t _
  | .decActive t | .unlockStats t | .freeTask t => some t
  | _ => none

/-- the node whose function the worker has still to finish -/
def WorkerPc.executing : WorkerPc → Option Ptr
  | .fixTail t | .decQueueSize t | .incActive t | .unlockTask t | .startClock t
  | .callFunction t _ => some t
  | _ => none

/-- the node that the caller has allocated and neither linked nor freed yet -/
def CallerPc.task : CallerPc → Option Ptr
  | .lockAdd t | .testShutdown t | .unlockReject t | .freeReject t | .link t => some t
  | _ => none

namespace State

/-- thread `t` has `queue_mutex`, as its program point tells -/
def holds (s : State) : Thread → Bool
  | .worker w => (s.workers w).pc.holds
  | .caller c => (s.callers c).pc.holds
  | .main => s.main.holds

/-- the node that thread `t` owns -/
def task (s : State) : Thread → Option Ptr
  | .worker w => (s.workers w).pc.task
  | .caller c => (s.callers c).pc.task
  | .main => none

/-- a worker is asleep on `queue_cond` -/
def anyBlocked (s : State) : Bool :=
  (List.range s.created).any fun v => (s.workers v).pc == .blocked

end State
end Pool
