import RobotDialog.Server.Moves

/-!
# The server: where every descriptor and every `fd_ptr` is

A descriptor passes from `accept` to the main thread, with its block into a task, with the task
through the queue to a worker, and from there to `close`.

* `State.mainFd`, `HandlerPc.fd`   who has a descriptor in its hands (`ptr` for the block);
* `HandlerInv`                     what a handler has still to do;
* `Ledger`                         every descriptor and every block is in one place;
* `Reachable.ledger`               in every reachable state.
-/

set_option linter.unusedSimpArgs false

namespace Server
open Lts Family
open Pool (Ptr Job NoOverlap CreatedInv QueueInv HeapFrame)

variable {fl : ℚ → ℚ} {s s' : State} {w : Nat}

/-! ## in whose hands -/

/-- the descriptor that the main thread has to hand on or to close -/
def State.mainFd (s : State) : Option Nat :=
  match s.main with
  | .mallocPtr _ k | .closeNoMemory _ k | .callAddTask _ k | .freePtr _ k | .closeRejected _ k =>
    some k
  | .inAddTask _ k => if (s.pool.callers 0).pc.undecided then some k else none
  | _ => none

/-- the block that the main thread has to hand on or to free -/
def State.mainPtr (s : State) : Option Nat :=
  match s.main with
  | .callAddTask _ k | .freePtr _ k => some k
  | .inAddTask _ k => if (s.pool.callers 0).pc.undecided then some k else none
  | _ => none

/-- the descriptor that a handler has to close; `arg` is the argument of its task -/
def HandlerPc.fd (arg : Option Nat) : HandlerPc → Option Nat
  | .entry => arg
  | .freeArg _ fd => some fd
  | .process fd => some fd
  | .actions fd acts => if acts = [] then none else some fd

/-- the block that a handler has to free -/
def HandlerPc.ptr (arg : Option Nat) : HandlerPc → Option Nat
  | .entry => arg
  | .freeArg p _ => some p
  | _ => none

def State.workerFd (s : State) (v : Nat) : Option Nat :=
  (s.handler v).fd ((s.pool.runs v).map Job.argument)

def State.workerPtr (s : State) (v : Nat) : Option Nat :=
  (s.handler v).ptr ((s.pool.runs v).map Job.argument)

/-- the arguments of a list of jobs -/
def args (l : List Job) : Multiset Nat := (l.map Job.argument : List Nat)

theorem args_snoc (l : List Job) (j : Job) : args (l ++ [j]) = args l + {j.argument} := by
  unfold args
  rw [List.map_append]
  rfl

theorem mainFd_idle (h : s.main.idle = true) : s.mainFd = none ∧ s.mainPtr = none := by
  unfold State.mainFd State.mainPtr
  cases e : s.main <;> rw [e] at h <;> first | exact ⟨rfl, rfl⟩ | cases h

/-! ## the handlers -/

/-- the job of caller 0 has the argument `k` -/
structure CallJob (p : Pool.State) (k : Nat) : Prop where
  made : ∀ job, (p.callers 0).pc = .mallocTask job → job.argument = k
  node : ∀ a t, (p.callers 0).pc.task = some a → p.heap a = some t → t.job.argument = k

structure HandlerInv (s : State) : Prop where
  entry : ∀ v, (∀ task start, (s.pool.workers v).pc ≠ .callFunction task start) →
    s.handler v = .entry
  block : ∀ k fd, s.block k = some fd → fd = k
  last : ∀ v fd acts, s.handler v = .actions fd acts → acts = [] ∨ ClosesLast acts
  job : ∀ n k, s.main = .inAddTask n k → CallJob s.pool k

theorem calling_spec {p : Pool.State} {job : Job} (h : calling p w = some job) :
    (∃ task start, (p.workers w).pc = .callFunction task start) ∧ p.runs w = some job := by
  unfold calling at h
  split at h
  · rename_i task start hpc
    refine ⟨⟨task, start, hpc⟩, ?_⟩
    unfold Pool.State.runs
    rw [hpc]
    exact h
  · cases h

theorem pushed_callFunction {p q : Pool.WorkerPc} (h : p.Pushed q) {task : Ptr}
    {start : Pool.Timespec} (hp : p = .callFunction task start) : q = .callFunction task start := by
  cases h with
  | same => exact hp
  | wake h => rw [h] at hp; cases hp
  | start h => rw [h] at hp; cases hp

theorem CallJob.move {p p' : Pool.State} {k : Nat} (h : CallJob p k)
    (hb : (p.callers 0).pc ≠ .idle) (hm : Pool.CallerMove fl p 0 p') : CallJob p' k := by
  obtain ⟨hmade, hnode⟩ := h
  cases hm with
  | addNull hpc ho => exact absurd hpc hb
  | addTask f argument hpc ho => exact absurd hpc hb
  | autoScale hpc ho => exact absurd hpc hb
  | malloc job a hpc ha =>
    refine ⟨fun _ he => by simp at he, fun b t hb' ht => ?_⟩
    simp only [Pool.State.callerGoto, Pool.State.setHeap, Function.update_self,
      Pool.CallerPc.task, Option.some.injEq] at hb'
    subst hb'
    simp only [Pool.State.callerGoto, Pool.State.setHeap, Function.update_self,
      Option.some.injEq] at ht
    subst ht
    exact hmade job hpc
  | lockAdd task hpc hfree =>
    rw [hpc] at hnode
    exact ⟨fun _ he => by simp at he, by simpa [Pool.CallerPc.task] using hnode⟩
  | seeShutdown task hpc hs =>
    rw [hpc] at hnode
    exact ⟨fun _ he => by simp at he, by simpa [Pool.CallerPc.task] using hnode⟩
  | noShutdown task hpc hs =>
    rw [hpc] at hnode
    exact ⟨fun _ he => by simp at he, by simpa [Pool.CallerPc.task] using hnode⟩
  | unlockReject task hpc =>
    rw [hpc] at hnode
    exact ⟨fun _ he => by simp at he, by simpa [Pool.CallerPc.task] using hnode⟩
  | scaleTest now hpc =>
    obtain ⟨-, h2, -, h4⟩ := Pool.scaleBranch_not_early fl p.pool now
    exact ⟨fun job he => absurd (by simpa using he) (h4 job), by simp [h2]⟩
  | _ => exact ⟨fun _ he => by simp at he, by simp [Pool.CallerPc.task]⟩

theorem CallJob.frame {p p' : Pool.State} {k : Nat} (h : CallJob p k)
    (hc : p'.callers = p.callers) {t : Pool.Thread} (ht : Pool.Thread.caller 0 ≠ t)
    (hf : HeapFrame p t p') : CallJob p' k := by
  refine ⟨?_, fun a m ha hm => ?_⟩
  · rw [hc]; exact h.made
  · rw [hc] at ha
    rw [hf (.caller 0) a ht ha] at hm
    exact h.node a m ha hm

theorem HandlerInv.start (p : Pool.State) : HandlerInv (startState p) where
  entry _ _ := rfl
  block k fd h := by cases h
  last v fd acts h := by cases h
  job n k h := by cases h

theorem HandlerInv.main_move (h : HandlerInv s)
    (hw : ∀ v, (s.pool.workers v).pc.Pushed (s'.pool.workers v).pc) (hh : s'.handler = s.handler)
    (hb : ∀ k fd, s'.block k = some fd → fd = k) (hj : ∀ n k, s'.main = .inAddTask n k →
      CallJob s'.pool k) : HandlerInv s' := by
  refine ⟨fun v hv => ?_, hb, ?_, hj⟩
  · rw [hh]
    exact h.entry v fun task start e => hv task start (pushed_callFunction (hw v) e)
  · rw [hh]; exact h.last

theorem HandlerInv.handler_move (h : HandlerInv s) {job : Job} (hc : calling s.pool w = some job)
    {pc : HandlerPc} (hh : s'.handler = Function.update s.handler w pc) (hp : s'.pool = s.pool)
    (hm : s'.main = s.main) (hb : ∀ k fd, s'.block k = some fd → fd = k)
    (hl : ∀ fd acts, pc = .actions fd acts → acts = [] ∨ ClosesLast acts) : HandlerInv s' := by
  refine ⟨fun v hv => ?_, hb, fun v fd acts hv => ?_, ?_⟩
  · by_cases e : v = w
    · subst e
      obtain ⟨⟨task, start, hpc⟩, -⟩ := calling_spec hc
      rw [hp] at hv
      exact absurd hpc (hv task start)
    · rw [hh, Function.update_of_ne e]
      rw [hp] at hv
      exact h.entry v hv
  · rw [hh] at hv
    rcases update_cases (· = HandlerPc.actions fd acts) hv with ⟨-, hnew⟩ | ⟨-, hold⟩
    · exact hl fd acts hnew
    · exact h.last v fd acts hold
  · rw [hp, hm]; exact h.job

theorem block_free (h : HandlerInv s) (p : Nat) :
    ∀ k fd, (s.free p).block k = some fd → fd = k := by
  intro k fd hb
  by_cases e : k = p
  · subst e
    simp at hb
  · simp only [State.free, Function.update_of_ne e] at hb
    exact h.block k fd hb

theorem ClosesLast.tail {a : Action} {acts : List Action} (h : ClosesLast (a :: acts)) :
    (a = .close → acts = []) ∧ (a ≠ .close → ClosesLast acts) := by
  obtain ⟨l, hl, hnot⟩ := h
  cases l with
  | nil =>
    rw [List.nil_append, List.cons.injEq] at hl
    exact ⟨fun _ => hl.2, fun hne => absurd hl.1 hne⟩
  | cons b l =>
    rw [List.cons_append, List.cons.injEq] at hl
    rw [List.mem_cons, not_or] at hnot
    exact ⟨fun e => absurd (hl.1 ▸ e).symm hnot.1, fun _ => ⟨l, hl.2, hnot.2⟩⟩

theorem ClosesLast.ne_nil {acts : List Action} (h : ClosesLast acts) : acts ≠ [] := by
  obtain ⟨l, rfl, -⟩ := h
  simp

theorem HandlerInv.move {minThreads maxThreads initial : Nat} (hph : PhaseInv s)
    (hr : Pool.ReachableBy fl NoOverlap minThreads maxThreads initial s.pool) (h : HandlerInv s)
    (hm : Move fl s s') : HandlerInv s' := by
  obtain ⟨l, hq⟩ := hr.queue
  have hC := hr.created
  have hsame : ∀ v, (s.pool.workers v).pc.Pushed (s.pool.workers v).pc := fun _ => .same
  have hcaller : ∀ p, Pool.CallerMove fl s.pool 0 p →
      ∀ v, (s.pool.workers v).pc.Pushed (p.workers v).pc := fun p hm v => hm.pushed hC v
  have hmain : ∀ p, Pool.MainMove s.pool p →
      ∀ v, (s.pool.workers v).pc.Pushed (p.workers v).pc := fun p hm v => hm.pushed hC v
  cases hm with
  | signal => exact ⟨h.entry, h.block, h.last, h.job⟩
  | create a p hpc ha hp =>
    exact h.main_move (hmain p (.of_step hp)) rfl h.block fun n k e => by
      rw [show s.main = .inAddTask n k from e] at hpc; cases hpc
  | start hpc hp => exact h.main_move hsame rfl h.block fun _ _ e => by cases e
  | initFails hpc => exact h.main_move hsame rfl h.block fun _ _ e => by cases e
  | turn r pc hpc hpc' =>
    refine h.main_move hsame rfl h.block fun n k e => ?_
    rw [show pc = .inAddTask n k from e] at hpc'
    cases hpc'
  | accept n hpc => exact h.main_move hsame rfl h.block fun _ _ e => by cases e
  | mallocFails n k hpc => exact h.main_move hsame rfl h.block fun _ _ e => by cases e
  | malloc n k hpc =>
    refine h.main_move hsame rfl (fun j fd hb => ?_) fun _ _ e => by cases e
    by_cases e : j = k
    · subst e
      simpa [eq_comm] using hb
    · simp only [State.goto, Function.update_of_ne e] at hb
      exact h.block j fd hb
  | closeNoMemory n k hpc => exact h.main_move hsame rfl h.block fun _ _ e => by cases e
  | callAddTask n k p hpc hp =>
    refine h.main_move (hcaller p (.of_step hp)) rfl h.block fun n' k' e => ?_
    cases e
    have hi : (s.pool.callers 0).pc = .idle := hph.outside (by rw [hpc]; rfl)
    have hready := hph.ready (by rw [hpc]; rfl)
    rw [Pool.callerStep_addTask hi (by rw [hready]; rfl), Option.some.injEq] at hp
    subst hp
    refine ⟨fun job he => ?_, fun a t ha => ?_⟩
    · have he : Pool.CallerPc.mallocTask ⟨s.pool.calls, handleClientTask, k⟩ = .mallocTask job := by
        simpa using he
      cases he
      rfl
    · simp [Pool.CallerPc.task] at ha
  | adding n k a p hpc hp hb =>
    refine h.main_move (hcaller p (.of_step hp)) rfl h.block fun n' k' e => ?_
    cases e
    exact (h.job n k hpc).move (hph.inside (by rw [hpc]; rfl)).1 (.of_step hp)
  | rejected n k a p hpc hp hi hr' =>
    exact h.main_move (hcaller p (.of_step hp)) rfl h.block fun _ _ e => by cases e
  | added n k a p hpc hp hi hr' =>
    exact h.main_move (hcaller p (.of_step hp)) rfl h.block fun _ _ e => by cases e
  | freePtr n k hpc => exact h.main_move hsame rfl (block_free h k) fun _ _ e => by cases e
  | closeRejected n k hpc => exact h.main_move hsame rfl h.block fun _ _ e => by cases e
  | callDestroy p hpc hp =>
    exact h.main_move (hmain p (.of_step hp)) rfl h.block fun _ _ e => by cases e
  | destroying p hpc hp hd =>
    exact h.main_move (hmain p (.of_step hp)) rfl h.block fun _ _ e => by cases e
  | destroyed p hpc hp hd =>
    exact h.main_move (hmain p (.of_step hp)) rfl h.block fun _ _ e => by cases e
  | worker w a p hpc hp =>
    have hm := Pool.WorkerMove.of_step hp
    refine ⟨fun v hv => ?_, h.block, h.last, fun n k e => ?_⟩
    · by_cases e : v = w
      · subst e
        exact h.entry v hpc
      · exact h.entry v fun task start e' => hv task start (pushed_callFunction (hm.pushed e) e')
    · exact (h.job n k e).frame hm.callers_eq (by simp) (hm.heapFrame hq)
  | returns w a p task start fd hpc hh hp =>
    have hm := Pool.WorkerMove.of_step hp
    refine ⟨fun v hv => ?_, h.block, fun v fd' acts hv => ?_, fun n k e => ?_⟩
    · by_cases e : v = w
      · subst e
        simp
      · simp only [State.handlerGoto, State.setPool, Function.update_of_ne e]
        exact h.entry v fun task start e' => hv task start (pushed_callFunction (hm.pushed e) e')
    · by_cases e : v = w
      · subst e
        simp at hv
      · simp only [State.handlerGoto, State.setPool, Function.update_of_ne e] at hv
        exact h.last v fd' acts hv
    · exact (h.job n k e).frame hm.callers_eq (by simp) (hm.heapFrame hq)
  | enter w job fd hc hh hb =>
    exact h.handler_move hc rfl rfl rfl h.block fun _ _ e => by cases e
  | freeArg w job arg fd hc hh =>
    exact h.handler_move hc rfl rfl rfl (block_free h arg) fun _ _ e => by cases e
  | process w job fd c hc hh =>
    refine h.handler_move hc rfl rfl rfl h.block fun _ _ e => ?_
    cases e
    exact .inr (handler_closes_last c)
  | send w job fd type data acts hc hh =>
    refine h.handler_move hc rfl rfl rfl h.block fun _ _ e => ?_
    cases e
    rcases h.last w fd _ hh with h' | h'
    · cases h'
    · exact .inr (h'.tail.2 (by simp))
  | closeFd w job fd acts hc hh =>
    refine h.handler_move hc rfl rfl rfl h.block fun _ _ e => ?_
    cases e
    rcases h.last w fd _ hh with h' | h'
    · cases h'
    · exact .inl (h'.tail.1 rfl)

/-! ## every descriptor and every block is in one place -/

structure Ledger (s : State) : Prop where
  fds : Balance (Multiset.range s.accepted) (args s.pool.dequeued) s.mainFd (args s.pool.accepted)
    s.pool.created s.workerFd s.closed
  ptrs : Balance s.allocated (args s.pool.dequeued) s.mainPtr (args s.pool.accepted)
    s.pool.created s.workerPtr s.freed

theorem Ledger.start {minThreads maxThreads initial : Nat} (now : Int) :
    Ledger (startState (Pool.startState minThreads maxThreads initial now)) := ⟨rfl, rfl⟩

/-- The main thread outside of the pool: it receives, gives up or keeps what it has in its hands. -/
theorem Ledger.main_move (h : Ledger s) (hp : s'.pool = s.pool) (hh : s'.handler = s.handler)
    (df dp cf cp : Multiset Nat) (ha : Multiset.range s'.accepted = Multiset.range s.accepted + df)
    (hal : (s'.allocated : Multiset Nat) = s.allocated + dp)
    (hc : (s'.closed : Multiset Nat) = s.closed + cf)
    (hf : (s'.freed : Multiset Nat) = s.freed + cp)
    (hfd : item s'.mainFd + cf = item s.mainFd + df)
    (hptr : item s'.mainPtr + cp = item s.mainPtr + dp) : Ledger s' := by
  have h1 := h.fds.move s'.mainFd df 0 cf (by simpa using hfd)
  have h2 := h.ptrs.move s'.mainPtr dp 0 cp (by simpa using hptr)
  have hw : s'.workerFd = s.workerFd ∧ s'.workerPtr = s.workerPtr := by
    unfold State.workerFd State.workerPtr
    rw [hp, hh]
    exact ⟨rfl, rfl⟩
  rw [add_zero] at h1 h2
  refine ⟨?_, ?_⟩
  · rw [hp, hw.1, ha, hc]; exact h1
  · rw [hp, hw.2, hal, hf]; exact h2

theorem Ledger.main_keep (h : Ledger s) (hp : s'.pool = s.pool) (hh : s'.handler = s.handler)
    (hiss : s'.accepted = s.accepted ∧ s'.allocated = s.allocated)
    (hret : s'.closed = s.closed ∧ s'.freed = s.freed)
    (hmain : s'.mainFd = s.mainFd ∧ s'.mainPtr = s.mainPtr) : Ledger s' := by
  refine h.main_move hp hh 0 0 0 0 ?_ ?_ ?_ ?_ ?_ ?_
  · rw [hiss.1, add_zero]
  · rw [hiss.2, add_zero]
  · rw [hret.1, add_zero]
  · rw [hret.2, add_zero]
  · rw [hmain.1]
  · rw [hmain.2]

theorem worker_none (hC : CreatedInv s.pool) (h : HandlerInv s) {v : Nat}
    (hv : s.pool.created ≤ v) : s.workerFd v = none ∧ s.workerPtr v = none := by
  have he : s.handler v = .entry := by
    refine h.entry v fun task start e => ?_
    rw [(hC v).mpr hv] at e
    cases e
  unfold State.workerFd State.workerPtr
  rw [he, Pool.runs_notCreated hC hv]
  exact ⟨rfl, rfl⟩

/-- A move of the main thread inside the pool: at most a task is accepted. -/
theorem Ledger.pool_move (hC : CreatedInv s.pool) (hh : HandlerInv s) (h : Ledger s)
    {p : Pool.State} {pc : MainPc} (hcr : s.pool.created ≤ p.created)
    (hruns : ∀ v, p.runs v = s.pool.runs v) (hdeq : p.dequeued = s.pool.dequeued)
    {g : Multiset Nat} (hacc : args p.accepted = args s.pool.accepted + g)
    (hfd : item ((s.setPool p).goto pc).mainFd + g = item s.mainFd)
    (hptr : item ((s.setPool p).goto pc).mainPtr + g = item s.mainPtr) :
    Ledger ((s.setPool p).goto pc) := by
  have h1 := h.fds.move _ 0 g 0 (by simpa using hfd)
  have h2 := h.ptrs.move _ 0 g 0 (by simpa using hptr)
  rw [add_zero, add_zero, ← hacc, ← hdeq] at h1 h2
  refine ⟨h1.grow hcr (fun v => ?_) fun v hv => (worker_none hC hh hv).1,
    h2.grow hcr (fun v => ?_) fun v hv => (worker_none hC hh hv).2⟩
  · show (s.handler v).fd ((p.runs v).map Job.argument) = s.workerFd v
    rw [hruns v]
    rfl
  · show (s.handler v).ptr ((p.runs v).map Job.argument) = s.workerPtr v
    rw [hruns v]
    rfl

theorem Ledger.worker_move (h : Ledger s) (hw : w < s.pool.created)
    (hcr : s'.pool.created = s.pool.created) (hacc : s'.pool.accepted = s.pool.accepted)
    (hmain : s'.mainFd = s.mainFd ∧ s'.mainPtr = s.mainPtr)
    (hiss : s'.accepted = s.accepted ∧ s'.allocated = s.allocated)
    (hother : ∀ v, v ≠ w → s'.workerFd v = s.workerFd v ∧ s'.workerPtr v = s.workerPtr v)
    (dt cf cp : Multiset Nat) (hdeq : args s'.pool.dequeued = args s.pool.dequeued + dt)
    (hc : (s'.closed : Multiset Nat) = s.closed + cf)
    (hf : (s'.freed : Multiset Nat) = s.freed + cp)
    (hfd : item (s'.workerFd w) + cf = item (s.workerFd w) + dt)
    (hptr : item (s'.workerPtr w) + cp = item (s.workerPtr w) + dt) : Ledger s' := by
  refine ⟨?_, ?_⟩
  · rw [hcr, hacc, hmain.1, hiss.1, hdeq, hc]
    exact h.fds.member hw (fun v hv => (hother v hv).1) hfd
  · rw [hcr, hacc, hmain.2, hiss.2, hdeq, hf]
    exact h.ptrs.member hw (fun v hv => (hother v hv).2) hptr

theorem Ledger.handler_move (hC : CreatedInv s.pool) (h : Ledger s) {job : Job}
    (hcall : calling s.pool w = some job) {pc : HandlerPc}
    (hh : s'.handler = Function.update s.handler w pc) (hp : s'.pool = s.pool)
    (hm : s'.main = s.main) (hiss : s'.accepted = s.accepted ∧ s'.allocated = s.allocated)
    (cf cp : Multiset Nat) (hc : (s'.closed : Multiset Nat) = s.closed + cf)
    (hf : (s'.freed : Multiset Nat) = s.freed + cp)
    (hfd : item (pc.fd (some job.argument)) + cf = item ((s.handler w).fd (some job.argument)))
    (hptr : item (pc.ptr (some job.argument)) + cp = item ((s.handler w).ptr (some job.argument))) :
    Ledger s' := by
  obtain ⟨-, hruns⟩ := calling_spec hcall
  have hmain : s'.mainFd = s.mainFd ∧ s'.mainPtr = s.mainPtr := by
    unfold State.mainFd State.mainPtr
    rw [hp, hm]
    exact ⟨rfl, rfl⟩
  have hother : ∀ v, v ≠ w → s'.workerFd v = s.workerFd v ∧ s'.workerPtr v = s.workerPtr v := by
    intro v hv
    unfold State.workerFd State.workerPtr
    rw [hh, hp, Function.update_of_ne hv]
    exact ⟨rfl, rfl⟩
  refine h.worker_move (Pool.runs_created hC hruns) (by rw [hp]) (by rw [hp]) hmain hiss hother
    0 cf cp (by rw [hp, add_zero]) hc hf ?_ ?_
  · unfold State.workerFd
    rw [hh, hp, Function.update_self, hruns, add_zero]
    exact hfd
  · unfold State.workerPtr
    rw [hh, hp, Function.update_self, hruns, add_zero]
    exact hptr

theorem worker_outside {l : List (Ptr × Job)} (hq : QueueInv s.pool l)
    (hm : Pool.WorkerMove s.pool w s'.pool) (hmain : s'.main = s.main)
    (hh : ∀ v, v ≠ w → s'.handler v = s.handler v) :
    (s'.mainFd = s.mainFd ∧ s'.mainPtr = s.mainPtr) ∧
      ∀ v, v ≠ w → s'.workerFd v = s.workerFd v ∧ s'.workerPtr v = s.workerPtr v := by
  refine ⟨?_, fun v hv => ?_⟩
  · unfold State.mainFd State.mainPtr
    rw [hmain, hm.callers_eq]
    exact ⟨rfl, rfl⟩
  · unfold State.workerFd State.workerPtr
    rw [hm.runs_of_ne hq hv, hh v hv]
    exact ⟨rfl, rfl⟩

theorem Ledger.taken {l : List (Ptr × Job)} (hC : CreatedInv s.pool) (hq : QueueInv s.pool l)
    (h : Ledger s) {p : Pool.State} (hm : Pool.WorkerMove s.pool w p)
    (hpc : ∀ task start, (s.pool.workers w).pc ≠ .callFunction task start)
    (he : s.handler w = .entry) : Ledger (s.setPool p) := by
  have hw := hm.exists hC
  obtain ⟨hmain, hother⟩ : ((s.setPool p).mainFd = s.mainFd ∧
      (s.setPool p).mainPtr = s.mainPtr) ∧ _ := worker_outside hq hm rfl fun _ _ => rfl
  cases hm.taken with
  | nothing hd hr _ =>
    refine h.worker_move hw hm.created_eq hm.accepted_eq.1 hmain ⟨rfl, rfl⟩ hother 0 0 0
      (by rw [add_zero]; exact congrArg args hd) (add_zero _).symm
      (add_zero _).symm ?_ ?_
    · unfold State.workerFd
      rw [show (s.setPool p).pool.runs w = s.pool.runs w from hr]
      rfl
    · unfold State.workerPtr
      rw [show (s.setPool p).pool.runs w = s.pool.runs w from hr]
      rfl
  | takes j hd hr hr' _ =>
    refine h.worker_move hw hm.created_eq hm.accepted_eq.1 hmain ⟨rfl, rfl⟩ hother
      {j.argument} 0 0 ?_ (add_zero _).symm (add_zero _).symm ?_ ?_
    · rw [← args_snoc]
      exact congrArg args hd
    · unfold State.workerFd
      rw [show (s.setPool p).pool.runs w = some j from hr', hr,
        show (s.setPool p).handler w = .entry from he, he]
      simp [HandlerPc.fd]
    · unfold State.workerPtr
      rw [show (s.setPool p).pool.runs w = some j from hr', hr,
        show (s.setPool p).handler w = .entry from he, he]
      simp [HandlerPc.ptr]
  | ends task start hf _ _ => exact absurd hf (hpc task start)

theorem Ledger.returned {l : List (Ptr × Job)} (hC : CreatedInv s.pool) (hq : QueueInv s.pool l)
    (h : Ledger s) {p : Pool.State} (hm : Pool.WorkerMove s.pool w p) {task : Ptr}
    {start : Pool.Timespec} {fd : Nat} (hpc : (s.pool.workers w).pc = .callFunction task start)
    (hh : s.handler w = .actions fd []) : Ledger ((s.setPool p).handlerGoto w .entry) := by
  have hw := hm.exists hC
  obtain ⟨hmain, hother⟩ : (((s.setPool p).handlerGoto w .entry).mainFd = s.mainFd ∧
      ((s.setPool p).handlerGoto w .entry).mainPtr = s.mainPtr) ∧ _ :=
    worker_outside hq hm rfl fun v hv => Function.update_of_ne hv _ _
  cases hm.taken with
  | nothing _ _ hf => exact absurd hpc (hf task start)
  | takes _ _ _ _ hf => exact absurd hpc (hf task start)
  | ends task' start' _ hd hr' =>
    refine h.worker_move hw hm.created_eq hm.accepted_eq.1 hmain ⟨rfl, rfl⟩ hother 0 0 0
      (by rw [add_zero]; exact congrArg args hd) (add_zero _).symm
      (add_zero _).symm ?_ ?_
    · unfold State.workerFd
      rw [show ((s.setPool p).handlerGoto w .entry).pool.runs w = none from hr', hh]
      simp [HandlerPc.fd]
    · unfold State.workerPtr
      rw [show ((s.setPool p).handlerGoto w .entry).pool.runs w = none from hr', hh]
      simp [HandlerPc.ptr]

/-- A call of `thread_pool_add_task` goes on, gets its task accepted, or returns; `pc` is where the
main thread is behind the step. -/
theorem Ledger.call_move {l : List (Ptr × Job)} (hC : CreatedInv s.pool) (hq : QueueInv s.pool l)
    (hph : PhaseInv s) (hh : HandlerInv s) (h : Ledger s) {n k : Nat}
    (hpc : s.main = .inAddTask n k) {p : Pool.State} (hm : Pool.CallerMove fl s.pool 0 p)
    {pc : MainPc} (hbusy : (p.callers 0).pc ≠ .idle → pc = .inAddTask n k)
    (hidle : (p.callers 0).pc = .idle →
      (lastResult p < 0 ∧ pc = .freePtr n k) ∨ (¬ lastResult p < 0 ∧ pc = .events n)) :
    Ledger ((s.setPool p).goto pc) := by
  obtain ⟨hb, m, hcall⟩ := hph.inside (by rw [hpc]; rfl)
  have hruns := hm.runs_eq hC hq
  have hdeq := hm.dequeued_eq.1
  have hfd : s.mainFd = if (s.pool.callers 0).pc.undecided then some k else none := by
    unfold State.mainFd
    rw [hpc]
  have hptr : s.mainPtr = if (s.pool.callers 0).pc.undecided then some k else none := by
    unfold State.mainPtr
    rw [hpc]
  cases hm.verdict hb with
  | continues ha hb' hu hc =>
    rw [hbusy hb']
    have hsame : ((s.setPool p).goto (.inAddTask n k)).mainFd =
        if (s.pool.callers 0).pc.undecided then some k else none := by
      show (if (p.callers 0).pc.undecided then some k else none) = _
      rw [hu]
    refine h.pool_move hC hh hm.created_le hruns hdeq (g := 0) (by rw [ha, add_zero]) ?_ ?_
    · rw [add_zero, hfd, hsame]
    · rw [add_zero, hptr, ← hsame]
      rfl
  | accepts a t ha hlink ht hpc' hc =>
    rw [hbusy (by rw [hpc']; simp)]
    have harg : t.job.argument = k := (hh.job n k hpc).node a t (by rw [hlink]; rfl) ht
    have hout : ((s.setPool p).goto (.inAddTask n k)).mainFd = none := by
      show (if (p.callers 0).pc.undecided then some k else none) = none
      rw [hpc']
      rfl
    have hin : (if (s.pool.callers 0).pc.undecided then some k else none) = some k := by
      rw [hlink]
      rfl
    refine h.pool_move hC hh hm.created_le hruns hdeq (g := {k}) (by rw [ha, args_snoc, harg]) ?_ ?_
    · rw [hfd, hin, hout, item_none, item_some, zero_add]
    · rw [hptr, hin, show ((s.setPool p).goto (.inAddTask n k)).mainPtr = none from hout, item_none,
        item_some, zero_add]
  | returns rc ha hi hr hrc =>
    have hlast : lastResult p = rc := by
      unfold lastResult
      rw [hr m hcall]
      simp
    refine h.pool_move hC hh hm.created_le hruns hdeq (g := 0) (by rw [ha, add_zero]) ?_ ?_
    · rw [add_zero, hfd]
      rcases hidle hi with ⟨hneg, rfl⟩ | ⟨hneg, rfl⟩ <;> rw [hlast] at hneg <;>
        rcases hrc with ⟨hu, rfl⟩ | ⟨hu, rfl⟩ <;> first | omega | (rw [hu]; rfl)
    · rw [add_zero, hptr]
      rcases hidle hi with ⟨hneg, rfl⟩ | ⟨hneg, rfl⟩ <;> rw [hlast] at hneg <;>
        rcases hrc with ⟨hu, rfl⟩ | ⟨hu, rfl⟩ <;> first | omega | (rw [hu]; rfl)

theorem Ledger.create_destroy {l : List (Ptr × Job)} (hC : CreatedInv s.pool)
    (hq : QueueInv s.pool l) (hh : HandlerInv s) (h : Ledger s) {p : Pool.State}
    (hm : Pool.MainMove s.pool p) (pc : MainPc) (h0 : s.mainFd = none ∧ s.mainPtr = none)
    (h1 : ((s.setPool p).goto pc).mainFd = none ∧ ((s.setPool p).goto pc).mainPtr = none) :
    Ledger ((s.setPool p).goto pc) := by
  refine h.pool_move hC hh hm.created_le (hm.runs_eq hC hq) hm.accepted_eq.2 (g := 0) ?_ ?_ ?_
  · rw [hm.accepted_eq.1, add_zero]
  · rw [h0.1, h1.1, add_zero]
  · rw [h0.2, h1.2, add_zero]

theorem Ledger.move {minThreads maxThreads initial : Nat} (hph : PhaseInv s) (hh : HandlerInv s)
    (hr : Pool.ReachableBy fl NoOverlap minThreads maxThreads initial s.pool) (h : Ledger s)
    (hm : Move fl s s') : Ledger s' := by
  obtain ⟨l, hq⟩ := hr.queue
  have hC := hr.created
  have hsame : ∀ a : Multiset Nat, a = a + 0 := fun a => (add_zero a).symm
  cases hm with
  | signal => exact ⟨h.fds, h.ptrs⟩
  | create a p hpc ha hp =>
    have h0 : s.mainFd = none ∧ s.mainPtr = none := by
      unfold State.mainFd State.mainPtr
      rw [hpc]
      exact ⟨rfl, rfl⟩
    have h' := h.create_destroy hC hq hh (.of_step hp) .initPool h0 ⟨rfl, rfl⟩
    rw [← hpc] at h'
    exact h'
  | start hpc hp =>
    refine h.main_keep rfl rfl ⟨rfl, rfl⟩ ⟨rfl, rfl⟩ ?_
    simp [State.mainFd, State.mainPtr, hpc]
  | initFails hpc =>
    refine h.main_keep rfl rfl ⟨rfl, rfl⟩ ⟨rfl, rfl⟩ ?_
    simp [State.mainFd, State.mainPtr, hpc]
  | turn r pc hpc hpc' =>
    obtain ⟨h1, h2⟩ := mainFd_idle hpc
    obtain ⟨h3, h4⟩ := mainFd_idle (s := { s with running := r }.goto pc) hpc'
    exact h.main_keep rfl rfl ⟨rfl, rfl⟩ ⟨rfl, rfl⟩ ⟨h3.trans h1.symm, h4.trans h2.symm⟩
  | accept n hpc =>
    refine h.main_move rfl rfl {s.accepted} 0 0 0 ?_ (hsame _)
      (hsame _) (hsame _) ?_ ?_
    · show Multiset.range (s.accepted + 1) = _
      rw [Multiset.range_succ, ← Multiset.singleton_add, add_comm]
    · simp [State.mainFd, hpc]
    · simp [State.mainPtr, hpc]
  | mallocFails n k hpc =>
    refine h.main_keep rfl rfl ⟨rfl, rfl⟩ ⟨rfl, rfl⟩ ?_
    simp [State.mainFd, State.mainPtr, hpc]
  | malloc n k hpc =>
    refine h.main_move rfl rfl 0 {k} 0 0 (hsame _) rfl (hsame _)
      (hsame _) ?_ ?_ <;> simp [State.mainFd, State.mainPtr, hpc]
  | closeNoMemory n k hpc =>
    refine h.main_move rfl rfl 0 0 {k} 0 (hsame _) (hsame _) rfl
      (hsame _) ?_ ?_ <;> simp [State.mainFd, State.mainPtr, hpc]
  | freePtr n k hpc =>
    refine h.main_move rfl rfl 0 0 0 {k} (hsame _) (hsame _) (hsame _)
      rfl ?_ ?_ <;> simp [State.mainFd, State.mainPtr, hpc]
  | closeRejected n k hpc =>
    refine h.main_move rfl rfl 0 0 {k} 0 (hsame _) (hsame _) rfl
      (hsame _) ?_ ?_ <;> simp [State.mainFd, State.mainPtr, hpc]
  | callAddTask n k p hpc hp =>
    have hi : (s.pool.callers 0).pc = .idle := hph.outside (by rw [hpc]; rfl)
    have hready := hph.ready (by rw [hpc]; rfl)
    rw [Pool.callerStep_addTask hi (by rw [hready]; rfl), Option.some.injEq] at hp
    subst hp
    refine h.pool_move hC hh (le_refl _) (fun v => rfl) rfl (g := 0) (hsame _) ?_ ?_
    · simp [State.mainFd, hpc, Pool.CallerPc.undecided]
    · simp [State.mainPtr, hpc, Pool.CallerPc.undecided]
  | adding n k a p hpc hp hb =>
    exact h.call_move hC hq hph hh hpc (.of_step hp) (fun _ => rfl) fun hi => absurd hi hb
  | rejected n k a p hpc hp hi hr' =>
    exact h.call_move hC hq hph hh hpc (.of_step hp) (fun hb => absurd hi hb) fun _ =>
      .inl ⟨hr', rfl⟩
  | added n k a p hpc hp hi hr' =>
    exact h.call_move hC hq hph hh hpc (.of_step hp) (fun hb => absurd hi hb) fun _ =>
      .inr ⟨hr', rfl⟩
  | callDestroy p hpc hp =>
    exact h.create_destroy hC hq hh (.of_step hp) _ (mainFd_idle (by rw [hpc]; rfl)) ⟨rfl, rfl⟩
  | destroying p hpc hp hd =>
    refine h.create_destroy hC hq hh (.of_step hp) _ ?_ ⟨rfl, rfl⟩
    simp [State.mainFd, State.mainPtr, hpc]
  | destroyed p hpc hp hd =>
    refine h.create_destroy hC hq hh (.of_step hp) _ ?_ ⟨rfl, rfl⟩
    simp [State.mainFd, State.mainPtr, hpc]
  | worker w a p hpc hp => exact h.taken hC hq (.of_step hp) hpc (hh.entry w hpc)
  | returns w a p task start fd hpc he hp => exact h.returned hC hq (.of_step hp) hpc he
  | enter w job fd hc he hb =>
    have hfd : fd = job.argument := hh.block _ _ hb
    refine h.handler_move hC hc rfl rfl rfl ⟨rfl, rfl⟩ 0 0 (hsame _) (hsame _) ?_ ?_
    · rw [he, hfd]
      rfl
    · rw [he]
      rfl
  | freeArg w job arg fd hc he =>
    refine h.handler_move hC hc rfl rfl rfl ⟨rfl, rfl⟩ 0 {arg} (hsame _) rfl ?_ ?_
    · rw [he]
      rfl
    · rw [he]
      rfl
  | process w job fd c hc he =>
    have hne := (handler_closes_last c).ne_nil
    refine h.handler_move hC hc rfl rfl rfl ⟨rfl, rfl⟩ 0 0 (hsame _) (hsame _) ?_ ?_
    · rw [he]
      simp [HandlerPc.fd, hne]
    · rw [he]
      rfl
  | send w job fd type data acts hc he =>
    have hne : acts ≠ [] := by
      rcases hh.last w fd _ he with h' | h'
      · cases h'
      · exact (h'.tail.2 (by simp)).ne_nil
    refine h.handler_move hC hc rfl rfl rfl ⟨rfl, rfl⟩ 0 0 (hsame _) (hsame _) ?_ ?_
    · rw [he]
      simp [HandlerPc.fd, hne]
    · rw [he]
      rfl
  | closeFd w job fd acts hc he =>
    have hnil : acts = [] := by
      rcases hh.last w fd _ he with h' | h'
      · cases h'
      · exact h'.tail.1 rfl
    refine h.handler_move hC hc rfl rfl rfl ⟨rfl, rfl⟩ {fd} 0 rfl (hsame _) ?_ ?_
    · rw [he]
      simp [HandlerPc.fd, hnil]
    · rw [he]
      rfl

section
variable {minThreads maxThreads initial : Nat}

theorem Reachable.handlers (h : Reachable fl minThreads maxThreads initial s) : HandlerInv s :=
  h.inv HandlerInv (fun _ => .start _) fun _ _ hr hI hm => hI.move hr.phase hr.pool hm

/-- **In every reachable state every descriptor and every block is in one place.** -/
theorem Reachable.ledger (h : Reachable fl minThreads maxThreads initial s) : Ledger s :=
  h.inv Ledger (fun now => .start now) fun _ _ hr hI hm => hI.move hr.phase hr.handlers hr.pool hm

end
end Server
