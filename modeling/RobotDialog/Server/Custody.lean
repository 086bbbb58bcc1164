import RobotDialog.Pool.Counters
import RobotDialog.Server.Shutdown

/-!
# The server: no descriptor is used after its close

What the statements of the main thread and of the handlers do with descriptors and `fd_ptr` blocks,
in every interleaving.

* `Label.descriptor`, `Label.pointer`   what the next statement reads, writes, closes or frees;
* `Reachable.fd_place`, `ptr_place`     a descriptor and a block are in exactly one place;
* `uses_safe`                           no use after a close or a free, none by two threads at once;
* `connections_counted`                 the open connections, by the counters of the pool.
-/

namespace Server
open Lts Family
open Pool (Ptr Job)

variable {fl : ℚ → ℚ} {s s' : State} {w : Nat}

/-- the thread of a label that handles connections, as the place of what it handles -/
def Label.place : Label → Place
  | .handler w _ => .member w
  | _ => .owner

/-- the descriptor that the statement reads from, writes to or closes -/
def Label.descriptor (s : State) : Label → Option Nat
  | .main _ =>
    match s.main with
    | .mallocPtr _ k | .closeNoMemory _ k | .closeRejected _ k => some k
    | _ => none
  | .handler w _ =>
    match s.handler w with
    | .process fd | .actions fd (_ :: _) => some fd
    | _ => none
  | _ => none

/-- the `fd_ptr` block that the statement hands on, reads or frees -/
def Label.pointer (s : State) : Label → Option Nat
  | .main _ =>
    match s.main with
    | .callAddTask _ k | .freePtr _ k => some k
    | _ => none
  | .handler w _ =>
    match s.handler w with
    | .entry => (calling s.pool w).map Job.argument
    | .freeArg arg _ => some arg
    | _ => none
  | _ => none

/-- the arguments of the tasks that no worker has taken: in the queue, or thrown away by
`thread_pool_destroy` -/
def State.waiting (s : State) : Multiset Nat :=
  args (s.pool.accepted.drop s.pool.dequeued.length)

/-- where descriptor `k` is -/
def State.FdAt (s : State) (p : Place) (k : Nat) : Prop :=
  p.Holds s.mainFd s.waiting s.pool.created s.workerFd s.closed k

/-- where block `k` is -/
def State.PtrAt (s : State) (p : Place) (k : Nat) : Prop :=
  p.Holds s.mainPtr s.waiting s.pool.created s.workerPtr s.freed k

section
variable {minThreads maxThreads initial : Nat}

theorem Reachable.args_accepted (h : Reachable fl minThreads maxThreads initial s) :
    args s.pool.accepted = args s.pool.dequeued + s.waiting := by
  obtain ⟨l, hq⟩ := h.pool.queue
  have hfifo := hq.fifo
  rw [List.append_assoc] at hfifo
  unfold State.waiting args
  rw [hfifo, List.drop_left, List.map_append]
  rfl

theorem Reachable.fds (h : Reachable fl minThreads maxThreads initial s) :
    Balance (Multiset.range s.accepted) (args s.pool.dequeued) s.mainFd
      (args s.pool.dequeued + s.waiting) s.pool.created s.workerFd s.closed := by
  rw [← h.args_accepted]
  exact h.ledger.fds

theorem Reachable.ptrs (h : Reachable fl minThreads maxThreads initial s) :
    Balance s.allocated (args s.pool.dequeued) s.mainPtr
      (args s.pool.dequeued + s.waiting) s.pool.created s.workerPtr s.freed := by
  rw [← h.args_accepted]
  exact h.ledger.ptrs

theorem Reachable.fd_place (h : Reachable fl minThreads maxThreads initial s) {k : Nat}
    (hk : k < s.accepted) : ∃! p, s.FdAt p k :=
  h.fds.place (Multiset.nodup_range _) (Multiset.mem_range.mpr hk)

theorem Reachable.ptr_place (h : Reachable fl minThreads maxThreads initial s) {k : Nat}
    (hk : k ∈ s.allocated) : ∃! p, s.PtrAt p k :=
  h.ptrs.place h.alloc.nodup hk

theorem Reachable.handler_calling (h : Reachable fl minThreads maxThreads initial s)
    (hh : s.handler w ≠ .entry) : w < s.pool.created := by
  by_contra hge
  refine hh (h.handlers.entry w fun task start e => ?_)
  rw [(h.pool.created w).mpr (by omega)] at e
  cases e

/-- **What a statement uses is in the hands of its thread.** -/
theorem Reachable.descriptor_at (h : Reachable fl minThreads maxThreads initial s) {l : Label}
    {k : Nat} (hk : l.descriptor s = some k) : s.FdAt l.place k := by
  cases l with
  | signal => cases hk
  | worker w a => cases hk
  | main a =>
    show s.mainFd = some k
    simp only [Label.descriptor] at hk
    unfold State.mainFd
    cases e : s.main <;> rw [e] at hk <;> first | exact hk | cases hk
  | handler w a =>
    simp only [Label.descriptor] at hk
    have hne : s.handler w ≠ .entry := by
      intro e
      rw [e] at hk
      cases hk
    refine ⟨h.handler_calling hne, ?_⟩
    unfold State.workerFd
    cases e : s.handler w with
    | entry => exact absurd e hne
    | freeArg arg fd => rw [e] at hk; cases hk
    | process fd => rw [e] at hk; exact hk
    | actions fd acts =>
      rw [e] at hk
      cases acts with
      | nil => cases hk
      | cons act acts => exact hk

theorem Reachable.pointer_at (h : Reachable fl minThreads maxThreads initial s) {l : Label}
    {k : Nat} (hk : l.pointer s = some k) : s.PtrAt l.place k := by
  cases l with
  | signal => cases hk
  | worker w a => cases hk
  | main a =>
    show s.mainPtr = some k
    simp only [Label.pointer] at hk
    unfold State.mainPtr
    cases e : s.main <;> rw [e] at hk <;> first | exact hk | cases hk
  | handler w a =>
    simp only [Label.pointer] at hk
    cases e : s.handler w with
    | entry =>
      rw [e] at hk
      obtain ⟨job, hjob, harg⟩ := Option.map_eq_some_iff.mp hk
      obtain ⟨-, hruns⟩ := calling_spec hjob
      refine ⟨Pool.runs_created h.pool.created hruns, ?_⟩
      unfold State.workerPtr
      rw [e, hruns]
      exact congrArg some harg
    | freeArg arg fd =>
      refine ⟨h.handler_calling (by rw [e]; exact HandlerPc.noConfusion), ?_⟩
      unfold State.workerPtr
      rw [e] at hk ⊢
      exact hk
    | process fd => rw [e] at hk; cases hk
    | actions fd acts => rw [e] at hk; cases acts <;> cases hk

/-- what a statement uses is open, or allocated, and no other thread is about to use it -/
structure SafeUse (s : State) (l : Label) : Prop where
  accepted : ∀ k, l.descriptor s = some k → k < s.accepted ∧ k ∉ s.closed
  allocated : ∀ p, l.pointer s = some p → p ∈ s.allocated ∧ p ∉ s.freed
  alone : ∀ (l' : Label) k, l.descriptor s = some k ∧ l'.descriptor s = some k ∨
    l.pointer s = some k ∧ l'.pointer s = some k → l'.place = l.place

/-- **No descriptor is used after its `close`, no block after its `free`.**  In every state that any
interleaving of the main thread, the workers, the handlers and signals reaches: no descriptor has
been closed twice and no block freed twice, what the next statement of any thread reads, writes,
closes or frees has not been released, and no two threads are about to use the same. -/
theorem uses_safe (fl : ℚ → ℚ) (minThreads maxThreads initial : Nat) (s : State)
    (h : Reachable fl minThreads maxThreads initial s) :
    s.closed.Nodup ∧ s.freed.Nodup ∧ ∀ l, SafeUse s l := by
  have hplace : ∀ l : Label, l.place ≠ Place.returned ∧ l.place ≠ Place.queue := by
    intro l
    cases l <;> exact ⟨Place.noConfusion, Place.noConfusion⟩
  have hfd : ∀ (l : Label) k, l.descriptor s = some k →
      k < s.accepted ∧ ∀ p, s.FdAt p k → p = l.place := by
    intro l k hk
    have hat := h.descriptor_at hk
    have hlt := Multiset.mem_range.mp (h.fds.issued_of_holds hat)
    exact ⟨hlt, fun p hp => (h.fd_place hlt).unique hp hat⟩
  have hptr : ∀ (l : Label) k, l.pointer s = some k →
      k ∈ s.allocated ∧ ∀ p, s.PtrAt p k → p = l.place := by
    intro l k hk
    have hat := h.pointer_at hk
    have hmem : k ∈ s.allocated := h.ptrs.issued_of_holds hat
    exact ⟨hmem, fun p hp => (h.ptr_place hmem).unique hp hat⟩
  refine ⟨h.fds.returned_nodup (Multiset.nodup_range _), h.ptrs.returned_nodup h.alloc.nodup,
    fun l => ⟨fun k hk => ⟨(hfd l k hk).1, fun hc => ?_⟩,
      fun k hk => ⟨(hptr l k hk).1, fun hc => ?_⟩, fun l' k huse => ?_⟩⟩
  · exact (hplace l).1 ((hfd l k hk).2 .returned hc).symm
  · exact (hplace l).1 ((hptr l k hk).2 .returned hc).symm
  · rcases huse with ⟨hl, hl'⟩ | ⟨hl, hl'⟩
    · exact (hfd l k hl).2 _ (h.descriptor_at hl')
    · exact (hptr l k hl).2 _ (h.pointer_at hl')

end

/-- A handler is about to send its reply. -/
theorem uses_safe_serveRun :
    ∃ s, Reachable id 4 32 8 s ∧ (Label.handler 0 .run).descriptor s = some 0 ∧
      s.closed.Nodup ∧ s.freed.Nodup ∧ ∀ l, SafeUse s l := by
  have hrun : (exec (step id) (startState (Pool.startState 4 32 8 0))
      (acceptRun ++ serveRun.take 14)).map (fun s => (Label.handler 0 .run).descriptor s) =
        some (some 0) := by decide +kernel
  obtain ⟨s, hs, hv⟩ := Option.map_eq_some_iff.mp hrun
  have hreach : Reachable id 4 32 8 s := ⟨0, true, true, true, _, rfl, Reach.of_exec _ hs⟩
  exact ⟨s, hreach, hv, uses_safe id 4 32 8 s hreach⟩

/-! ## how many -/

section
variable {minThreads maxThreads initial : Nat}

/-- the number of workers that serve a connection -/
def State.servingCount (s : State) : Nat :=
  total s.pool.created fun v => if s.serving v then 1 else 0

/-- **The open connections, by the counters of the pool.**  Whenever nobody has `queue_mutex`: a
connection that has been accepted is closed, or counted by `queue_size`, or served by one worker, or
in the hands of the main thread. -/
theorem connections_counted (fl : ℚ → ℚ) (minThreads maxThreads initial : Nat) (s : State)
    (h : Reachable fl minThreads maxThreads initial s) (hfree : s.pool.owner = none) :
    (s.accepted : Int) = s.closed.length + s.pool.pool.queueSize + s.servingCount +
      s.mainFd.toList.length := by
  have hcard := h.fds.card
  have hsize := h.pool.counters.size
  have hwaiting : s.pool.accepted.length = s.pool.dequeued.length + Multiset.card s.waiting := by
    have hargs := congrArg Multiset.card h.args_accepted
    simpa [args] using hargs
  have hmain : Multiset.card (item s.mainFd) = s.mainFd.toList.length := by
    cases s.mainFd <;> rfl
  have hdebt : s.pool.sizeDebt = 0 := by
    unfold Pool.State.sizeDebt
    rw [hfree]
    rfl
  have hserving : total s.pool.created (fun v => if (s.workerFd v).isSome then 1 else 0) =
      s.servingCount := rfl
  rw [Multiset.card_range, hmain, Multiset.coe_card, hserving] at hcard
  rw [hdebt, hwaiting] at hsize
  push_cast at hsize
  omega

end

theorem connections_counted_acceptRun :
    ∃ s, Reachable id 4 32 8 s ∧ s.pool.pool.queueSize = 1 ∧
      (s.accepted : Int) = s.closed.length + s.pool.pool.queueSize + s.servingCount +
        s.mainFd.toList.length := by
  have hrun : (exec (step id) (startState (Pool.startState 4 32 8 0)) acceptRun).map
      (fun s => (s.pool.owner, s.pool.pool.queueSize)) = some (none, 1) := by decide +kernel
  obtain ⟨s, hs, hv⟩ := Option.map_eq_some_iff.mp hrun
  simp only [Prod.mk.injEq] at hv
  have hreach : Reachable id 4 32 8 s := ⟨0, true, true, true, _, rfl, Reach.of_exec _ hs⟩
  exact ⟨s, hreach, hv.2, connections_counted id 4 32 8 s hreach hv.1⟩

end Server
