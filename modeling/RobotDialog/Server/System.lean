import RobotDialog.Pool.Teardown
import RobotDialog.Server.Handler

/-!
# The server: connections from `accept` to `close`

The main thread (`run_server`, `accept_new_connection`, `cleanup_server`), the workers of the pool,
each inside `handle_client_task` when it calls a task's function, and the signal handler.

A connection has the number of its `accept`, which also names its descriptor and its `fd_ptr` block:
the operating system and `malloc` hand out a name again only after it was given back.  The main
thread is the creator and destroyer of the pool and its only caller (caller 0).

* `MainPc`, `HandlerPc`   the program points of the main thread and of `handle_client_task`;
* `State`                 the pool, `g_server.running`, the blocks, and the history of `close` and
                          `free` calls;
* `step`                  one statement of one thread;
* `ReachableBy`           the states after `init_server` has begun to create the pool.
-/

namespace Server
open Pool (Ptr Job)

/-- `handle_client_task`, as a function pointer -/
def handleClientTask : Ptr := 1

def maxEvents : Nat := 64

/-- the program points of the main thread; `n` events of the last `epoll_wait` are left, `k` is the
connection being accepted -/
inductive MainPc where
  | initPool                                  -- thread_pool_create
  | initFailed                                -- init_server returned -1
  | loopTest                                  -- while (g_server.running)
  | epollWait                                 -- epoll_wait
  | events (n : Nat)                          -- for (i < nfds)
  | accept (n : Nat)                          -- accept
  | mallocPtr (n k : Nat)                     -- malloc(sizeof(int)); *fd_ptr = client_fd
  | closeNoMemory (n k : Nat)                 -- close(client_fd)
  | callAddTask (n k : Nat)                   -- about to call thread_pool_add_task
  | inAddTask (n k : Nat)                     -- in thread_pool_add_task
  | freePtr (n k : Nat)                       -- it returned -1: free(fd_ptr)
  | closeRejected (n k : Nat)                 -- close(client_fd)
  | stopRunning                               -- cleanup_server: g_server.running = 0
  | callDestroy                               -- about to call thread_pool_destroy
  | inDestroy                                 -- in thread_pool_destroy
  | returned                                  -- cleanup_server has returned
  deriving DecidableEq, Repr

/-- the program points of `handle_client_task` -/
inductive HandlerPc where
  | entry                                     -- client_fd = *((int *)arg)
  | freeArg (arg fd : Nat)                    -- free(arg)
  | process (fd : Nat)                        -- process_single_request_and_close, before its calls
  | actions (fd : Nat) (acts : List Action)   -- what it has still to do with client_fd
  deriving DecidableEq, Repr

/-- **The state of the server.**  `block k` is what `fd_ptr` number `k` points to, `none` if it is
not allocated.  The last four fields are history: the number of connections accepted, the blocks
allocated, the descriptors passed to `close` and the blocks passed to `free`. -/
structure State where
  pool : Pool.State
  running : Bool
  main : MainPc
  block : Nat → Option Nat
  handler : Nat → HandlerPc
  accepted : Nat
  allocated : List Nat
  closed : List Nat
  freed : List Nat

/-- a result of `epoll_wait` -/
inductive EpollResult where
  | ready (n : Nat)
  | interrupted                               -- EINTR
  | failed
  deriving DecidableEq, Repr

/-- what the main thread does next -/
inductive MainAct where
  | run
  | epoll (r : EpollResult)
  | result (ok : Bool)                        -- accept or malloc succeeds
  | create (a : Pool.MainAct)                 -- inside thread_pool_create
  | add (a : Pool.CallerAct)                  -- inside thread_pool_add_task
  deriving DecidableEq, Repr

inductive HandlerAct where
  | run
  | calls (c : Calls)                         -- the results of its calls

inductive Label where
  | signal                                    -- SIGINT or SIGTERM
  | main (a : MainAct)
  | worker (w : Nat) (a : Pool.WorkerAct)     -- a statement of thread_pool_worker
  | handler (w : Nat) (a : HandlerAct)        -- a statement of handle_client_task

namespace State

@[simp] def goto (s : State) (pc : MainPc) : State := { s with main := pc }

@[simp] def setPool (s : State) (p : Pool.State) : State := { s with pool := p }

@[simp] def handlerGoto (s : State) (w : Nat) (pc : HandlerPc) : State :=
  { s with handler := Function.update s.handler w pc }

@[simp] def close (s : State) (fd : Nat) : State := { s with closed := s.closed ++ [fd] }

@[simp] def free (s : State) (p : Nat) : State :=
  { s with block := Function.update s.block p none, freed := s.freed ++ [p] }

end State

/-- the value that the call of caller 0 returned last -/
def lastResult (p : Pool.State) : Int := (p.returned.getLast?.map Prod.snd).getD 0

/-- the main thread, one statement -/
def mainStep (fl : ℚ → ℚ) (s : State) (a : MainAct) : Option State :=
  match s.main, a with
  | .initPool, .create pa =>
    (Pool.mainStep s.pool pa).bind fun p =>
      if pa = .destroy then none else some (s.setPool p)
  | .initPool, .run =>
    if s.pool.main = .ready then some ({ s with running := true }.goto .loopTest)
    else if s.pool.main = .createFailed then some (s.goto .initFailed)
    else none
  | .loopTest, .run => if s.running then some (s.goto .epollWait) else some (s.goto .stopRunning)
  | .epollWait, .epoll (.ready n) => if n ≤ maxEvents then some (s.goto (.events n)) else none
  | .epollWait, .epoll .interrupted => some (s.goto .loopTest)
  | .epollWait, .epoll .failed => some (s.goto .stopRunning)
  | .events 0, .run => some (s.goto .loopTest)
  | .events (n + 1), .run => some (s.goto (.accept n))
  | .accept n, .result false => some (s.goto (.events n))
  | .accept n, .result true =>
    some ({ s with accepted := s.accepted + 1 }.goto (.mallocPtr n s.accepted))
  | .mallocPtr n k, .result false => some (s.goto (.closeNoMemory n k))
  | .mallocPtr n k, .result true =>
    some ({ s with block := Function.update s.block k (some k), allocated := s.allocated ++ [k] }.goto
      (.callAddTask n k))
  | .closeNoMemory n k, .run => some ((s.close k).goto (.events n))
  | .callAddTask n k, .run =>
    (Pool.callerStep fl s.pool 0 (.addTask (some handleClientTask) k)).map fun p =>
      (s.setPool p).goto (.inAddTask n k)
  | .inAddTask n k, .add pa =>
    (Pool.callerStep fl s.pool 0 pa).map fun p =>
      (s.setPool p).goto
        (if (p.callers 0).pc ≠ .idle then .inAddTask n k
        else if lastResult p < 0 then .freePtr n k
        else .events n)
  | .freePtr n k, .run => some ((s.free k).goto (.closeRejected n k))
  | .closeRejected n k, .run => some ((s.close k).goto (.events n))
  | .stopRunning, .run => some ({ s with running := false }.goto .callDestroy)
  | .callDestroy, .run =>
    (Pool.mainStep s.pool .destroy).map fun p => (s.setPool p).goto .inDestroy
  | .inDestroy, .run =>
    (Pool.mainStep s.pool .run).map fun p =>
      (s.setPool p).goto (if p.main = .destroyed then .returned else .inDestroy)
  | _, _ => none

/-- worker `w` calls a task's function -/
def calling (p : Pool.State) (w : Nat) : Option Job :=
  match (p.workers w).pc with
  | .callFunction task _ => (p.heap task).map Pool.Task.job
  | _ => none

/-- `thread_pool_worker`, one statement; the function of a task must have returned -/
def workerStep (s : State) (w : Nat) (a : Pool.WorkerAct) : Option State :=
  match (s.pool.workers w).pc with
  | .callFunction _ _ =>
    match s.handler w with
    | .actions _ [] =>
      (Pool.workerStep s.pool w a).map fun p => (s.setPool p).handlerGoto w .entry
    | _ => none
  | _ => (Pool.workerStep s.pool w a).map s.setPool

/-- `handle_client_task` in worker `w`, one statement; the receive, the parse and the AI call are one
step, and each send is one: a run in which such a call does not return takes no step of `w` there -/
def handlerStep (s : State) (w : Nat) (a : HandlerAct) : Option State :=
  match calling s.pool w with
  | none => none
  | some job =>
    match s.handler w, a with
    | .entry, .run =>
      -- the read of a freed block is undefined
      (s.block job.argument).map fun fd => s.handlerGoto w (.freeArg job.argument fd)
    | .freeArg arg fd, .run => some ((s.free arg).handlerGoto w (.process fd))
    | .process fd, .calls c =>
      some (s.handlerGoto w (.actions fd (processSingleRequestAndClose c)))
    | .actions fd (.send _ _ :: acts), .run => some (s.handlerGoto w (.actions fd acts))
    | .actions fd (.close :: acts), .run => some ((s.close fd).handlerGoto w (.actions fd acts))
    | _, _ => none

/-- one statement of one thread, or a signal -/
def step (fl : ℚ → ℚ) (l : Label) (s : State) : Option State :=
  match l with
  | .signal => some { s with running := false }
  | .main a => mainStep fl s a
  | .worker w a => workerStep s w a
  | .handler w a => handlerStep s w a

/-- the state when `init_server` calls `thread_pool_create` and its thread loop begins -/
def startState (p : Pool.State) : State where
  pool := p
  running := false
  main := .initPool
  block := fun _ => none
  handler := fun _ => .entry
  accepted := 0
  allocated := []
  closed := []
  freed := []

end Server
