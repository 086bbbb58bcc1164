import RobotDialog.Server.Ledger

/-!
# The server: what is closed when `cleanup_server` has returned

* `AllocInv`                   the blocks that were allocated and not freed;
* `Reachable.block_live`       a handler never reads a block that was freed;
* `Released`                   a connection whose descriptor is closed once and whose block is freed;
* `connections_released_iff`   every connection is released, exactly if no task was left in the queue
                               and no dropped worker is still serving one;
* `connection_leaked`          a connection that waits in the queue when the shutdown begins.
-/

set_option linter.unusedSimpArgs false

namespace Server
open Lts Family CString
open Pool (Ptr Job)

variable {fl : ℚ → ℚ} {s s' : State} {w : Nat}

/-! ## the blocks -/

structure AllocInv (s : State) : Prop where
  nodup : s.allocated.Nodup
  bound : ∀ k ∈ s.allocated, k < s.accepted
  fresh : ∀ n k, s.main = .mallocPtr n k → k < s.accepted ∧ k ∉ s.allocated
  live : ∀ k, k ∈ s.allocated → k ∉ s.freed → s.block k = some k

theorem AllocInv.start (p : Pool.State) : AllocInv (startState p) where
  nodup := List.nodup_nil
  bound k h := by cases h
  fresh n k h := by cases h
  live k h := by cases h

theorem AllocInv.same (h : AllocInv s) (ha : s'.allocated = s.allocated)
    (hn : s'.accepted = s.accepted) (hm : ∀ n k, s'.main = .mallocPtr n k → s.main = .mallocPtr n k)
    (hf : s'.freed = s.freed) (hb : s'.block = s.block) : AllocInv s' := by
  refine ⟨?_, ?_, fun n k e => ?_, ?_⟩
  · rw [ha]; exact h.nodup
  · rw [ha, hn]; exact h.bound
  · rw [ha, hn]; exact h.fresh n k (hm n k e)
  · rw [ha, hf, hb]; exact h.live

theorem AllocInv.freed (h : AllocInv s) {p : Nat} (ha : s'.allocated = s.allocated)
    (hn : s'.accepted = s.accepted) (hm : ∀ n k, s'.main = .mallocPtr n k → s.main = .mallocPtr n k)
    (hf : s'.freed = s.freed ++ [p]) (hb : s'.block = Function.update s.block p none) :
    AllocInv s' := by
  refine ⟨?_, ?_, fun n k e => ?_, fun k hk hkf => ?_⟩
  · rw [ha]; exact h.nodup
  · rw [ha, hn]; exact h.bound
  · rw [ha, hn]; exact h.fresh n k (hm n k e)
  · rw [hf, List.mem_append, List.mem_singleton, not_or] at hkf
    rw [hb, Function.update_of_ne hkf.2]
    exact h.live k (ha ▸ hk) hkf.1

theorem AllocInv.move (h : AllocInv s) (hm : Move fl s s') : AllocInv s' := by
  cases hm with
  | turn r pc hpc hpc' =>
    refine h.same rfl rfl (fun n k e => ?_) rfl rfl
    rw [show pc = .mallocPtr n k from e] at hpc'
    cases hpc'
  | accept n hpc =>
    refine ⟨h.nodup, fun k hk => ?_, fun m k e => ?_, h.live⟩
    · have := h.bound k hk
      show k < s.accepted + 1
      omega
    · cases e
      exact ⟨Nat.lt_succ_self _, fun hk => (h.bound _ hk).false⟩
  | malloc n k hpc =>
    obtain ⟨hlt, hnew⟩ := h.fresh n k hpc
    refine ⟨?_, fun j hj => ?_, fun _ _ e => (by cases e), fun j hj hjf => ?_⟩
    · refine List.nodup_append.mpr ⟨h.nodup, List.nodup_singleton k, ?_⟩
      intro a ha b hb hab
      rw [List.mem_singleton] at hb
      exact hnew (hb ▸ hab ▸ ha)
    · rcases List.mem_append.mp hj with hj | hj
      · exact h.bound j hj
      · rw [List.mem_singleton] at hj
        exact hj ▸ hlt
    · show Function.update s.block k (some k) j = some j
      by_cases e : j = k
      · subst e
        rw [Function.update_self]
      · rw [Function.update_of_ne e]
        rcases List.mem_append.mp hj with hj | hj
        · exact h.live j hj hjf
        · exact absurd (List.mem_singleton.mp hj) e
  | freePtr n k hpc => exact h.freed rfl rfl (fun _ _ e => by cases e) rfl rfl
  | freeArg w job arg fd hc hh => exact h.freed rfl rfl (fun _ _ e => e) rfl rfl
  | signal => exact h.same rfl rfl (fun _ _ e => e) rfl rfl
  | create a p hpc ha hp => exact h.same rfl rfl (fun _ _ e => e) rfl rfl
  | worker w a p hpc hp => exact h.same rfl rfl (fun _ _ e => e) rfl rfl
  | returns w a p task start fd hpc hh hp => exact h.same rfl rfl (fun _ _ e => e) rfl rfl
  | enter w job fd hc hh hb => exact h.same rfl rfl (fun _ _ e => e) rfl rfl
  | process w job fd c hc hh => exact h.same rfl rfl (fun _ _ e => e) rfl rfl
  | send w job fd type data acts hc hh => exact h.same rfl rfl (fun _ _ e => e) rfl rfl
  | closeFd w job fd acts hc hh => exact h.same rfl rfl (fun _ _ e => e) rfl rfl
  | _ => exact h.same rfl rfl (fun _ _ e => by cases e) rfl rfl

section
variable {minThreads maxThreads initial : Nat}

theorem Reachable.alloc (h : Reachable fl minThreads maxThreads initial s) : AllocInv s :=
  h.inv AllocInv (fun _ => .start _) fun _ _ _ hI hm => hI.move hm

theorem Ledger.ptr_live (h : Ledger s) (ha : AllocInv s) {l : List Job}
    (hl : s.pool.accepted = s.pool.dequeued ++ l) {k : Nat} (hw : w < s.pool.created)
    (hk : s.workerPtr w = some k) : k ∈ s.allocated ∧ k ∉ s.freed := by
  have hp := h.ptrs
  have hargs : args s.pool.accepted = args s.pool.dequeued + args l := by
    unfold args
    rw [hl, List.map_append]
    rfl
  unfold Balance at hp
  rw [hargs] at hp
  have hcount := congrArg (Multiset.count k) hp
  simp only [Multiset.count_add, Multiset.coe_count] at hcount
  have hjob : 0 < (jobs s.pool.created s.workerPtr).count k := by
    rw [Nat.pos_iff_ne_zero]
    exact fun h0 => jobs_none h0 w hw hk
  have hle := List.nodup_iff_count_le_one.mp ha.nodup k
  refine ⟨List.count_pos_iff.mp (by omega), fun hm => ?_⟩
  have := List.count_pos_iff.mpr hm
  omega

/-- **A handler never reads a block that was freed.** -/
theorem Reachable.block_live (h : Reachable fl minThreads maxThreads initial s) {job : Job}
    (hc : calling s.pool w = some job) (hh : s.handler w = .entry) :
    s.block job.argument = some job.argument := by
  obtain ⟨l, hq⟩ := h.pool.queue
  obtain ⟨-, hruns⟩ := calling_spec hc
  have hptr : s.workerPtr w = some job.argument := by
    unfold State.workerPtr
    rw [hh, hruns]
    rfl
  have hfifo := hq.fifo
  rw [List.append_assoc] at hfifo
  obtain ⟨h1, h2⟩ := h.ledger.ptr_live h.alloc hfifo (Pool.runs_created h.pool.created hruns) hptr
  exact h.alloc.live _ h1 h2

end

/-! ## the end of `cleanup_server` -/

/-- the descriptor was passed to `close` once, and the block to `free` once if it was allocated -/
def Released (s : State) (k : Nat) : Prop :=
  s.closed.count k = 1 ∧ s.freed.count k = if k ∈ s.allocated then 1 else 0

/-- worker `v` has taken a task and has still to close its connection -/
def State.serving (s : State) (v : Nat) : Bool := (s.workerFd v).isSome

section
variable {minThreads maxThreads initial : Nat}

theorem Reachable.destroyed (h : Reachable fl minThreads maxThreads initial s)
    (hret : s.main = .returned) : s.pool.main = .destroyed := by
  revert hret
  refine h.inv (fun s => s.main = .returned → s.pool.main = .destroyed) (fun _ e => by cases e)
    fun s s' _ hI hm e => ?_
  cases hm with
  | create a p hpc ha hp =>
    rw [show s.main = .returned from e] at hpc
    cases hpc
  | turn r pc hpc hpc' =>
    rw [show pc = .returned from e] at hpc'
    cases hpc'
  | destroyed p hpc hp hd => exact hd
  | worker w a p hpc hp => exact (Pool.WorkerMove.of_step hp).main_eq.trans (hI e)
  | returns w a p task start fd hpc hh hp => exact (Pool.WorkerMove.of_step hp).main_eq.trans (hI e)
  | signal => exact hI e
  | enter w job fd hc hh hb => exact hI e
  | freeArg w job arg fd hc hh => exact hI e
  | process w job fd c hc hh => exact hI e
  | send w job fd type data acts hc hh => exact hI e
  | closeFd w job fd acts hc hh => exact hI e
  | _ => cases e

theorem Reachable.leftover (h : Reachable fl minThreads maxThreads initial s)
    (hret : s.main = .returned) : s.pool.accepted = s.pool.dequeued ++ s.pool.drained := by
  obtain ⟨l, hq⟩ := h.pool.queue
  have hempty := h.pool.emptied (by rw [h.destroyed hret]; rfl)
  rw [hq.fifo, hq.linked.null_iff.mp hempty, List.map_nil, List.append_nil]

theorem Reachable.final (h : Reachable fl minThreads maxThreads initial s)
    (hret : s.main = .returned) :
    Multiset.range s.accepted = args s.pool.drained + jobs s.pool.created s.workerFd + s.closed ∧
      (s.allocated : Multiset Nat) =
        args s.pool.drained + jobs s.pool.created s.workerPtr + s.freed := by
  obtain ⟨hfds, hptrs⟩ := h.ledger
  have hargs : args s.pool.accepted = args s.pool.dequeued + args s.pool.drained := by
    unfold args
    rw [h.leftover hret, List.map_append]
    rfl
  have hfd : s.mainFd = none ∧ s.mainPtr = none := by
    unfold State.mainFd State.mainPtr
    rw [hret]
    exact ⟨rfl, rfl⟩
  unfold Balance at hfds hptrs
  rw [hargs, hfd.1, item_none] at hfds
  rw [hargs, hfd.2, item_none] at hptrs
  refine ⟨add_right_cancel (b := args s.pool.dequeued) ?_,
    add_right_cancel (b := args s.pool.dequeued) ?_⟩
  · rw [hfds]; abel
  · rw [hptrs]; abel

theorem Reachable.inSlot_idle (h : Reachable fl minThreads maxThreads initial s)
    (hret : s.main = .returned) {v : Nat} (hv : s.pool.inSlot v = true) : s.workerFd v = none := by
  obtain ⟨i, hi, hslot⟩ := Pool.inSlot_iff.mp hv
  have hj := h.pool.joins.ended i (by rw [h.destroyed hret]; exact hi) hi
  have hterm : (s.pool.workers v).pc.terminated = true := by
    unfold Pool.State.joinable at hj
    rwa [hslot] at hj
  have hruns : s.pool.runs v = none := by
    unfold Pool.State.runs
    cases e : (s.pool.workers v).pc <;> rw [e] at hterm <;> first | rfl | cases hterm
  have hentry : s.handler v = .entry := by
    refine h.handlers.entry v fun task start e => ?_
    rw [e] at hterm
    cases hterm
  unfold State.workerFd
  rw [hentry, hruns]
  rfl

theorem workerPtr_none {v : Nat} (h : s.workerFd v = none) : s.workerPtr v = none := by
  unfold State.workerFd at h
  unfold State.workerPtr
  cases e : s.handler v <;> rw [e] at h <;> first | exact h | rfl | cases h

theorem Reachable.not_held (h : Reachable fl minThreads maxThreads initial s)
    (hret : s.main = .returned) (hall : ∀ k, k < s.accepted → s.closed.count k = 1) (k : Nat) :
    (args s.pool.drained).count k = 0 ∧ (jobs s.pool.created s.workerFd).count k = 0 := by
  have hcount := congrArg (Multiset.count k) (h.final hret).1
  simp only [Multiset.count_add, Multiset.coe_count] at hcount
  by_cases hk : k < s.accepted
  · have h1 := hall k hk
    have hle := Multiset.nodup_iff_count_le_one.mp (Multiset.nodup_range s.accepted) k
    omega
  · have h0 : (Multiset.range s.accepted).count k = 0 :=
      Multiset.count_eq_zero.mpr fun hm => hk (Multiset.mem_range.mp hm)
    omega

theorem Reachable.workers_idle (h : Reachable fl minThreads maxThreads initial s)
    (hret : s.main = .returned)
    (hdrop : ∀ v, s.pool.dropped v = true → s.serving v = false) (v : Nat) :
    s.workerFd v = none := by
  by_cases hin : s.pool.inSlot v = true
  · exact h.inSlot_idle hret hin
  · by_cases hv : v < s.pool.created
    · have hs := hdrop v (by simp [Pool.State.dropped, hv, hin])
      unfold State.serving at hs
      simpa using hs
    · exact (worker_none h.pool.created h.handlers (by omega)).1

/-- **What is released when `cleanup_server` has returned.**  Every connection is closed exactly once
and its block freed exactly once, if and only if the workers had taken every task out of the queue
before the shutdown and no worker that a scale down dropped is still serving a connection. -/
theorem connections_released_iff (fl : ℚ → ℚ) (minThreads maxThreads initial : Nat) (s : State)
    (h : Reachable fl minThreads maxThreads initial s) (hret : s.main = .returned) :
    (∀ k, k < s.accepted → Released s k) ↔
      s.pool.dequeued = s.pool.accepted ∧
        ∀ v, s.pool.dropped v = true → s.serving v = false := by
  obtain ⟨hfds, hptrs⟩ := h.final hret
  have hleft := h.leftover hret
  constructor
  · intro hall
    have hnot := h.not_held hret fun k hk => (hall k hk).1
    constructor
    · have hnil : s.pool.drained = [] := by
        by_contra hne
        obtain ⟨j, tl, hj⟩ := List.exists_cons_of_ne_nil hne
        have h0 := (hnot j.argument).1
        unfold args at h0
        rw [hj, List.map_cons, Multiset.coe_count, List.count_cons_self] at h0
        omega
      rw [hleft, hnil, List.append_nil]
    · intro v hv
      simp only [Pool.State.dropped, Bool.and_eq_true, decide_eq_true_eq] at hv
      cases hfd : s.workerFd v with
      | none =>
        unfold State.serving
        rw [hfd]
        rfl
      | some k => exact absurd hfd (jobs_none (hnot k).2 v hv.1)
  · rintro ⟨hdeq, hdrop⟩ k hk
    have hnil : s.pool.drained = [] := by
      rw [hdeq] at hleft
      exact List.self_eq_append_right.mp hleft
    have hidle := h.workers_idle hret hdrop
    have hzero : jobs s.pool.created s.workerFd = 0 ∧ jobs s.pool.created s.workerPtr = 0 := by
      refine ⟨total_zero fun v => ?_, total_zero fun v => ?_⟩
      · rw [hidle v]; rfl
      · rw [workerPtr_none (hidle v)]; rfl
    rw [hnil, hzero.1] at hfds
    rw [hnil, hzero.2] at hptrs
    have hclosed : s.closed.count k = (Multiset.range s.accepted).count k := by
      rw [hfds]
      simp [args]
    have hfreed : s.freed.count k = s.allocated.count k := by
      rw [← Multiset.coe_count, ← Multiset.coe_count, hptrs]
      simp [args]
    constructor
    · rw [hclosed]
      exact Multiset.count_eq_one_of_mem (Multiset.nodup_range _) (Multiset.mem_range.mpr hk)
    · rw [hfreed]
      split
      · exact List.count_eq_one_of_mem h.alloc.nodup ‹_›
      · exact List.count_eq_zero.mpr ‹_›

end
/-! ## two runs with the limits of the server -/

/-- `init_server`, then one connection is accepted and its task goes into the queue -/
def acceptRun : List Label :=
  List.replicate 8 (.main (.create (.result true))) ++ [.main (.create .run), .main .run,
    .main .run, .main (.epoll (.ready 1)), .main .run, .main (.result true), .main (.result true),
    .main .run, .main (.add (.malloc (some 1))), .main (.add .run), .main (.add .run),
    .main (.add .run), .main (.add .run), .main (.add (.wake none)), .main (.add .run),
    .main (.add (.time 1)), .main .run]

/-- the client asks for a test reply -/
def testCalls : Calls where
  received := some ⟨2, 9, ascii "kind|it|x"⟩
  parse := parse
  generateAiResponse _ := none
  parseAgain := parse
  testResponse _ := ascii "Vai a zappare."
where
  parse := Wire.parseClientDialogMessage true

/-- worker 0 takes the task, handles the request and is back at its mutex -/
def serveRun : List Label :=
  List.replicate 10 (.worker 0 .run) ++ [.worker 0 (.clock ⟨0, 0⟩), .handler 0 .run,
    .handler 0 .run, .handler 0 (.calls testCalls), .handler 0 .run, .handler 0 .run,
    .worker 0 (.clock ⟨1, 0⟩)] ++ List.replicate 7 (.worker 0 .run)

/-- SIGINT, and `cleanup_server` up to its end; the workers see `shutdown` -/
def shutdownRun (leftover : Nat) : List Label :=
  [.signal, .main .run, .main .run, .main .run] ++ List.replicate 4 (.main .run) ++
    (List.range 8).flatMap (fun w => List.replicate 6 (.worker w .run)) ++
    List.replicate (35 + leftover) (.main .run)

theorem connections_released_served :
    ∃ s, Reachable id 4 32 8 s ∧ s.main = .returned ∧ s.accepted = 1 ∧ s.closed = [0] ∧
      ((∀ k, k < s.accepted → Released s k) ↔ s.pool.dequeued = s.pool.accepted ∧
        ∀ v, s.pool.dropped v = true → s.serving v = false) := by
  have hrun : (exec (step id) (startState (Pool.startState 4 32 8 0))
      (acceptRun ++ serveRun ++ shutdownRun 0)).map (fun s => (s.main, s.accepted, s.closed)) =
        some (.returned, 1, [0]) := by decide +kernel
  obtain ⟨s, hs, hv⟩ := Option.map_eq_some_iff.mp hrun
  simp only [Prod.mk.injEq] at hv
  have hreach : Reachable id 4 32 8 s := ⟨0, true, true, true, _, rfl, Reach.of_exec _ hs⟩
  exact ⟨s, hreach, hv.1, hv.2.1, hv.2.2, connections_released_iff id 4 32 8 s hreach hv.1⟩

/-- **A connection that nobody closes.**  It waits in the queue when the shutdown begins;
`thread_pool_destroy` throws its task away, its descriptor is not closed and its block not freed. -/
theorem connection_leaked :
    ∃ s, Reachable id 4 32 8 s ∧ s.main = .returned ∧ s.accepted = 1 ∧ s.closed = [] ∧
      s.allocated = [0] ∧ s.freed = [] ∧ ¬ Released s 0 := by
  have hrun : (exec (step id) (startState (Pool.startState 4 32 8 0))
      (acceptRun ++ shutdownRun 1)).map
        (fun s => (s.main, s.accepted, s.closed, s.allocated, s.freed)) =
        some (.returned, 1, [], [0], []) := by decide +kernel
  obtain ⟨s, hs, hv⟩ := Option.map_eq_some_iff.mp hrun
  simp only [Prod.mk.injEq] at hv
  obtain ⟨h1, h2, h3, h4, h5⟩ := hv
  refine ⟨s, ⟨0, true, true, true, _, rfl, Reach.of_exec _ hs⟩, h1, h2, h3, h4, h5, ?_⟩
  rintro ⟨hclosed, -⟩
  rw [h3] at hclosed
  cases hclosed

end Server
