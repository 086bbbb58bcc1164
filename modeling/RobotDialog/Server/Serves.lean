import RobotDialog.Server.Rank
import RobotDialog.Server.Shutdown

/-!
# The server: it answers everybody, and it stops

Runs in which spurious wakeups, signals and returns of `epoll_wait` come finitely often, and in which
every call of a handler returns: the receive, the parse, the AI call and each send are single steps.
A peer for which they do not return (`Wire.Stall`) keeps its worker, and is outside of these results.

* `Label.external`       the steps of the environment;
* `step_of_canMove`      a thread of the pool that can go on can do so in the server, in the handler
                         too;
* `Serving`, `Answered`  the server runs, and every connection has been answered and released;
* `connections_served`   every run of a server without signals gets there;
* `Stopping`             the server has seen a signal or left its loop;
* `shutdown_returns`     then `cleanup_server` returns.
-/

set_option linter.unusedSimpArgs false

namespace Server
open Lts Family CString
open Pool (Ptr Job NoOverlap Orderly)

variable {fl : ℚ → ℚ} {s s' : State} {w : Nat}

/-- a spurious wakeup, or a signal -/
def Label.interferes : Label → Bool
  | .signal => true
  | .worker _ .spurious => true
  | _ => false

/-- a step of the environment: `Label.interferes`, or `epoll_wait` returns -/
def Label.external : Label → Bool
  | .main (.epoll _) => true
  | l => l.interferes

theorem interferes_of_external {l : Label} (h : l.external = false) : l.interferes = false := by
  cases l with
  | signal => cases h
  | main a => rfl
  | worker w a => exact h
  | handler w a => rfl

/-! ## the threads that can go on -/

/-- A worker inside the function of its task can go on: no statement of a handler waits for another
thread, and none reads a freed block. -/
theorem handler_runs {minThreads maxThreads initial : Nat}
    (h : Reachable fl minThreads maxThreads initial s) {v : Nat} {task : Ptr}
    {start : Pool.Timespec} (hpc : (s.pool.workers v).pc = .callFunction task start) :
    ∃ l s', l.external = false ∧ SetcancelSucceeds s l ∧ step fl l s = some s' := by
  obtain ⟨ql, hq⟩ := h.pool.queue
  obtain ⟨t, ht⟩ := Option.ne_none_iff_exists'.mp
    (hq.owned (.worker v) task (by simp [Pool.State.task, hpc, Pool.WorkerPc.task])).1
  have hcall : calling s.pool v = some t.job := by
    unfold calling
    rw [hpc]
    show (s.pool.heap task).map Pool.Task.job = _
    rw [ht]
    rfl
  have hgo : ∀ a s', handlerStep s v a = some s' →
      ∃ l s', l.external = false ∧ SetcancelSucceeds s l ∧ step fl l s = some s' :=
    fun a s' hst => ⟨.handler v a, s', rfl, fun w e => (by cases e), hst⟩
  cases hh : s.handler v with
  | entry =>
    have hb := h.block_live hcall hh
    exact hgo .run _ (by simp only [handlerStep, hcall, hh, hb]; rfl)
  | freeArg arg fd => exact hgo .run _ (by simp only [handlerStep, hcall, hh]; rfl)
  | process fd => exact hgo (.calls testCalls) _ (by simp only [handlerStep, hcall, hh]; rfl)
  | actions fd acts =>
    cases acts with
    | nil =>
      have hret : ∃ s', workerStep s v (.clock start) = some s' :=
        ⟨_, by simp only [workerStep, Pool.workerStep, hpc, hh, ht]; rfl⟩
      obtain ⟨s', hst⟩ := hret
      exact ⟨.worker v (.clock start), s', rfl, fun w e => (by cases e), hst⟩
    | cons act acts =>
      cases act with
      | send type data => exact hgo .run _ (by simp only [handlerStep, hcall, hh]; rfl)
      | close => exact hgo .run _ (by simp only [handlerStep, hcall, hh]; rfl)

theorem step_of_canMove {minThreads maxThreads initial : Nat}
    (h : Reachable fl minThreads maxThreads initial s) {t : Pool.Thread} (ht : s.pool.canMove t) :
    ∃ l s', l.external = false ∧ SetcancelSucceeds s l ∧ step fl l s = some s' := by
  obtain ⟨ql, hq⟩ := h.pool.queue
  cases t with
  | worker v =>
    by_cases hin : ∃ task start, (s.pool.workers v).pc = .callFunction task start
    · obtain ⟨task, start, hpc⟩ := hin
      exact handler_runs h hpc
    · obtain ⟨a, p, h1, h2, hp⟩ := Pool.worker_runs hq h.pool.control ht.1 ht.2.1 ht.2.2
      refine ⟨.worker v a, s.setPool p, ?_, ?_, ?_⟩
      · cases a <;> first | rfl | exact absurd rfl h1
      · rintro u e
        cases e
        exact h2 rfl
      · show workerStep s v a = _
        unfold workerStep
        split
        · rename_i task start hpc
          exact absurd ⟨task, start, hpc⟩ hin
        · rw [hp]
          rfl
  | caller c =>
    have hadd : s.main.adding = true := by
      by_contra hno
      exact ht.1 (h.phase.callers_idle (by simpa using hno) c)
    have hc : c = 0 := by
      by_contra hne
      exact ht.1 (h.phase.others c hne)
    subst hc
    obtain ⟨a, p, -, hp⟩ := Pool.caller_runs fl hq ht.1 ht.2
    have hst : ∃ s', mainStep fl s (.add a) = some s' := by
      cases hpc : s.main with
      | inAddTask n k => exact ⟨_, by simp only [mainStep, hpc, hp]; rfl⟩
      | _ =>
        rw [hpc] at hadd
        cases hadd
    obtain ⟨s', hst⟩ := hst
    exact ⟨.main (.add a), s', rfl, fun w e => (by cases e), hst⟩
  | main => exact ht.elim

def MainPc.looping : MainPc → Bool
  | .loopTest | .epollWait | .events _ | .accept _ | .mallocPtr _ _ | .closeNoMemory _ _
  | .callAddTask _ _ | .inAddTask _ _ | .freePtr _ _ | .closeRejected _ _ => true
  | _ => false

def MainPc.closing : MainPc → Bool
  | .stopRunning | .callDestroy | .inDestroy | .returned => true
  | _ => false

/-- **Where the loop goes on**: it ends after a signal or a failed `epoll_wait`. -/
theorem mainStep_looping {a : MainAct} (hst : mainStep fl s a = some s')
    (hloop : s.main.looping = true) : s'.running = s.running ∧ (s'.main.looping = true ∨
      (s'.main.closing = true ∧ (s.running = false ∨ a = .epoll .failed))) := by
  unfold mainStep at hst
  split at hst
  case h_3 hpc =>
    split at hst <;> cases hst
    · exact ⟨rfl, .inl rfl⟩
    · exact ⟨rfl, .inr ⟨rfl, .inl (eq_false_of_ne_true ‹_›)⟩⟩
  case h_4 n hpc => split at hst <;> cases hst; exact ⟨rfl, .inl rfl⟩
  case h_6 hpc => cases hst; exact ⟨rfl, .inr ⟨rfl, .inr rfl⟩⟩
  case h_14 n k hpc =>
    obtain ⟨p, -, rfl⟩ := Option.map_eq_some_iff.mp hst
    exact ⟨rfl, .inl rfl⟩
  case h_15 n k pa hpc =>
    obtain ⟨p, -, rfl⟩ := Option.map_eq_some_iff.mp hst
    refine ⟨rfl, .inl ?_⟩
    split
    · rfl
    · split <;> rfl
  case h_21 => cases hst
  all_goals
    rename_i hpc
    rw [hpc] at hloop
    first
      | cases hst
        exact ⟨rfl, .inl rfl⟩
      | cases hloop

theorem mainStep_closing {a : MainAct} (hst : mainStep fl s a = some s')
    (hclose : s.main.closing = true) : s'.main.closing = true := by
  unfold mainStep at hst
  split at hst
  case h_18 hpc => cases hst; rfl
  case h_19 hpc =>
    obtain ⟨p, -, rfl⟩ := Option.map_eq_some_iff.mp hst
    rfl
  case h_20 hpc =>
    obtain ⟨p, -, rfl⟩ := Option.map_eq_some_iff.mp hst
    show (if p.main = .destroyed then MainPc.returned else .inDestroy).closing = true
    split <;> rfl
  case h_21 => cases hst
  all_goals
    rename_i hpc
    rw [hpc] at hclose
    cases hclose

theorem workerStep_main {a : Pool.WorkerAct} (hst : workerStep s w a = some s') :
    s'.main = s.main ∧ s'.running = s.running := by
  unfold workerStep at hst
  split at hst
  · split at hst
    · obtain ⟨p, -, rfl⟩ := Option.map_eq_some_iff.mp hst
      exact ⟨rfl, rfl⟩
    · cases hst
  · obtain ⟨p, -, rfl⟩ := Option.map_eq_some_iff.mp hst
    exact ⟨rfl, rfl⟩

/-- Outside of the pool and of `epoll_wait` the main thread waits for nobody. -/
theorem main_runs (fl : ℚ → ℚ) (hph : PhaseInv s) (hwait : s.main ≠ .epollWait)
    (hout : s.main.adding = false) (hmain : s.main.looping = true ∨ s.main = .stopRunning ∨
      s.main = .callDestroy) :
    ∃ l s', l.external = false ∧ SetcancelSucceeds s l ∧ step fl l s = some s' := by
  have hgo : ∀ a s', Label.external (.main a) = false → mainStep fl s a = some s' →
      ∃ l s', l.external = false ∧ SetcancelSucceeds s l ∧ step fl l s = some s' :=
    fun a s' ha hst => ⟨.main a, s', ha, fun w e => (by cases e), hst⟩
  cases hpc : s.main with
  | loopTest =>
    by_cases h : s.running = true
    · exact hgo .run _ rfl (by simp only [mainStep, hpc, if_pos h]; rfl)
    · exact hgo .run _ rfl (by simp only [mainStep, hpc, if_neg h]; rfl)
  | epollWait => exact absurd hpc hwait
  | events n =>
    cases n with
    | zero => exact hgo .run _ rfl (by simp only [mainStep, hpc]; rfl)
    | succ n => exact hgo .run _ rfl (by simp only [mainStep, hpc]; rfl)
  | accept n => exact hgo (.result false) _ rfl (by simp only [mainStep, hpc]; rfl)
  | mallocPtr n k => exact hgo (.result false) _ rfl (by simp only [mainStep, hpc]; rfl)
  | callAddTask n k =>
    have hready := hph.ready (by rw [hpc]; rfl)
    have hadd := @Pool.callerStep_addTask fl _ 0 (hph.outside hout) (by rw [hready]; rfl)
      handleClientTask k
    exact hgo .run _ rfl (by simp only [mainStep, hpc, hadd]; rfl)
  | callDestroy =>
    have hready := hph.ready (by rw [hpc]; rfl)
    exact hgo .run _ rfl (by simp only [mainStep, Pool.mainStep, hpc, hready]; rfl)
  | inAddTask n k =>
    rw [hpc] at hout
    cases hout
  | closeNoMemory n k => exact hgo .run _ rfl (by simp only [mainStep, hpc]; rfl)
  | freePtr n k => exact hgo .run _ rfl (by simp only [mainStep, hpc]; rfl)
  | closeRejected n k => exact hgo .run _ rfl (by simp only [mainStep, hpc]; rfl)
  | stopRunning => exact hgo .run _ rfl (by simp only [mainStep, hpc]; rfl)
  | _ =>
    rw [hpc] at hmain
    rcases hmain with h | h | h <;> cases h

/-- While the main thread is inside `thread_pool_add_task`, it or the thread that has the mutex can
go on. -/
theorem adding_canMove {minThreads maxThreads initial : Nat} (hph : PhaseInv s)
    (h : Pool.ReachableBy fl Orderly minThreads maxThreads initial s.pool)
    (hadd : s.main.adding = true) : ∃ t, s.pool.canMove t := by
  have hend : Pool.EndInv s.pool := (h.mono fun _ _ hG => hG.setcancel).ends
  cases howner : s.pool.owner with
  | none => exact ⟨.caller 0, (hph.inside hadd).1, .inl howner⟩
  | some t =>
    refine ⟨t, Pool.canMove_of_owner h.mutex hend howner ?_⟩
    rintro rfl
    have hholds : s.pool.main.holds = true := (h.mutex .main).mpr howner
    rw [hph.ready (by cases e : s.main <;> rw [e] at hadd <;> first | rfl | cases hadd)] at hholds
    cases hholds

/-! ## it answers everybody -/

/-- the runs in which no signal arrives and `epoll_wait` does not fail -/
structure Serving (s : State) (l : Label) : Prop where
  setcancel : SetcancelSucceeds s l
  noSignal : l ≠ .signal
  noFailure : l ≠ .main (.epoll .failed)

/-- the main thread waits for new connections, and every connection so far has been handled: its task
has been executed, its descriptor closed once and its block freed once -/
structure Answered (s : State) : Prop where
  waiting : s.main = .epollWait
  handled : s.pool.accepted.Perm s.pool.completed
  released : ∀ k, k < s.accepted → Released s k

section
variable {minThreads maxThreads initial : Nat}

theorem ReachableBy.looping (h : ReachableBy fl Serving minThreads maxThreads initial s) :
    (s.main = .initPool ∨ s.main = .initFailed) ∨ (s.running = true ∧ s.main.looping = true) := by
  obtain ⟨now, b₁, b₂, b₃, p₀, hc, hr⟩ := h
  refine hr.inv (fun s => (s.main = .initPool ∨ s.main = .initFailed) ∨
    (s.running = true ∧ s.main.looping = true)) (.inl (.inl rfl)) fun s l s' _ hI hG hst => ?_
  cases l with
  | signal => exact absurd rfl hG.noSignal
  | worker w a =>
    obtain ⟨h1, h2⟩ := workerStep_main hst
    rw [h1, h2]
    exact hI
  | handler w a =>
    obtain ⟨-, h1, h2⟩ := handlerStep_pool hst
    rw [h1, h2]
    exact hI
  | main a =>
    rcases hI with hinit | ⟨hrun, hloop⟩
    · have hst' : mainStep fl s a = some s' := hst
      unfold mainStep at hst'
      rcases hinit with hpc | hpc <;> rw [hpc] at hst' <;> cases a
      case inl.create pa =>
        obtain ⟨p, -, hst'⟩ := Option.bind_eq_some_iff.mp hst'
        split at hst' <;> cases hst'
        exact .inl (.inl hpc)
      case inl.run =>
        dsimp only at hst'
        split at hst'
        · cases hst'
          exact .inr ⟨rfl, rfl⟩
        · split at hst' <;> cases hst'
          exact .inl (.inr rfl)
      all_goals cases hst'
    · obtain ⟨hsame, hloop' | ⟨-, hoff | hfail⟩⟩ := mainStep_looping hst hloop
      · exact .inr ⟨hsame.trans hrun, hloop'⟩
      · rw [hrun] at hoff
        cases hoff
      · subst hfail
        exact absurd rfl hG.noFailure

/-- a run of a server in its loop -/
structure Looping (fl : ℚ → ℚ) (minThreads maxThreads initial : Nat) (s : State) : Prop where
  reach : ReachableBy fl Serving minThreads maxThreads initial s
  running : s.running = true
  looping : s.main.looping = true

theorem Looping.pool (h : Looping fl minThreads maxThreads initial s) :
    Pool.ReachableBy fl Orderly minThreads maxThreads initial s.pool :=
  h.reach.pool fun _ _ hG => hG.setcancel

theorem Looping.pool_ready (h : Looping fl minThreads maxThreads initial s) :
    s.pool.main = .ready := by
  have hloop := h.looping
  refine h.reach.reachable.phase.ready ?_
  cases e : s.main <;> rw [e] at hloop <;> first | rfl | cases hloop

/-- When every task has been executed, no worker has a connection in its hands. -/
theorem Looping.workers_idle (h : Looping fl minThreads maxThreads initial s)
    (hdone : Pool.AllDone s.pool) (v : Nat) :
    s.workerFd v = none ∧ s.workerPtr v = none := by
  obtain ⟨l, hq, hreach⟩ := h.pool.fifo
  have hwork : (s.pool.dequeued : Multiset Job) = s.pool.completed + s.pool.running :=
    (Fifo.Inv.of_reach hreach).work
  have hzero : s.pool.running = 0 := by
    rw [hdone.taken, Multiset.coe_eq_coe.mpr hdone.completed] at hwork
    exact (left_eq_add.mp hwork)
  have hruns : s.pool.runs v = none := by
    by_contra hne
    obtain ⟨j, hj⟩ := Option.ne_none_iff_exists'.mp hne
    have hcount : (jobs s.pool.created s.pool.runs).count j = 0 := by
      rw [show jobs s.pool.created s.pool.runs = s.pool.running from rfl, hzero]
      exact Multiset.count_zero j
    exact jobs_none hcount v (Pool.runs_created h.pool.created hj) hj
  have hentry : s.handler v = .entry := by
    refine h.reach.reachable.handlers.entry v fun task start hpc => ?_
    obtain ⟨t, ht⟩ := Option.ne_none_iff_exists'.mp
      (hq.owned (.worker v) task (by simp [Pool.State.task, hpc, Pool.WorkerPc.task])).1
    simp [Pool.State.runs, hpc, Pool.WorkerPc.executing, ht] at hruns
  unfold State.workerFd State.workerPtr
  rw [hentry, hruns]
  exact ⟨rfl, rfl⟩

/-- **When the pool has done everything, every connection has been released.** -/
theorem Looping.answered (h : Looping fl minThreads maxThreads initial s)
    (hdone : Pool.AllDone s.pool) (hpc : s.main = .epollWait) : Answered s := by
  obtain ⟨hfds, hptrs⟩ := h.reach.reachable.ledger
  have halloc := h.reach.reachable.alloc
  have hidle := h.workers_idle hdone
  have hmain := mainFd_idle (s := s) (by rw [hpc]; rfl)
  have hzero : jobs s.pool.created s.workerFd = 0 ∧ jobs s.pool.created s.workerPtr = 0 :=
    ⟨total_zero fun v => by rw [(hidle v).1]; rfl, total_zero fun v => by rw [(hidle v).2]; rfl⟩
  unfold Balance at hfds hptrs
  rw [hdone.taken, hmain.1, hzero.1, item_none, zero_add, add_zero, add_comm] at hfds
  rw [hdone.taken, hmain.2, hzero.2, item_none, zero_add, add_zero, add_comm] at hptrs
  have hclosed := add_left_cancel hfds
  have hfreed := add_left_cancel hptrs
  refine ⟨hpc, hdone.completed, fun k hk => ⟨?_, ?_⟩⟩
  · rw [← Multiset.coe_count, ← hclosed]
    exact Multiset.count_eq_one_of_mem (Multiset.nodup_range _) (Multiset.mem_range.mpr hk)
  · rw [← Multiset.coe_count, ← hfreed, Multiset.coe_count]
    split
    · exact List.count_eq_one_of_mem halloc.nodup ‹_›
    · exact List.count_eq_zero.mpr ‹_›

theorem Looping.progress (h : Looping fl minThreads maxThreads initial s) (hmin : 1 ≤ minThreads)
    (hnot : ¬ Answered s) :
    ∃ l s', l.external = false ∧ Serving s l ∧ step fl l s = some s' := by
  have hr := h.reach.reachable
  have hguard : (∃ l s', l.external = false ∧ SetcancelSucceeds s l ∧ step fl l s = some s') →
      ∃ l s', l.external = false ∧ Serving s l ∧ step fl l s = some s' := by
    rintro ⟨l, s', h1, h2, hst⟩
    exact ⟨l, s', h1, ⟨h2, (by rintro rfl; cases h1), (by rintro rfl; cases h1)⟩, hst⟩
  refine hguard ?_
  by_cases hdone : Pool.AllDone s.pool
  · refine main_runs fl hr.phase (fun hpc => hnot (h.answered hdone hpc)) ?_ (.inl h.looping)
    by_contra hadd
    exact (hr.phase.inside (by simpa using hadd)).1 (hdone.returned 0)
  · obtain ⟨t, ht⟩ := Pool.exists_canMove (h.pool.mono fun _ _ hG => hG.setcancel) h.pool_ready
      hmin hdone
    exact step_of_canMove hr ht

theorem Looping.next (h : Looping fl minThreads maxThreads initial s) (l : Label)
    (hG : Serving s l) (hst : Server.step fl l s = some s') :
    Looping fl minThreads maxThreads initial s' := by
  have hreach := h.reach.next l hG hst
  rcases hreach.looping with hinit | ⟨hrun, hloop⟩
  · exfalso
    have hloop := h.looping
    cases l with
    | signal => exact hG.noSignal rfl
    | worker w a =>
      rw [(workerStep_main hst).1] at hinit
      rcases hinit with e | e <;> rw [e] at hloop <;> cases hloop
    | handler w a =>
      rw [(handlerStep_pool hst).2.1] at hinit
      rcases hinit with e | e <;> rw [e] at hloop <;> cases hloop
    | main a =>
      obtain ⟨-, hl | ⟨hl, -⟩⟩ := mainStep_looping hst hloop <;>
        rcases hinit with e | e <;> rw [e] at hl <;> cases hl
  · exact ⟨hreach, hrun, hloop⟩

end

section
variable {most idle minThreads initial : Nat}

/-- **Every step that is not one of the environment lowers the rank.** -/
theorem own_rank (h : Reachable fl minThreads most initial s) (hinit : s.main ≠ .initPool)
    (hloop : s.main = .loopTest → s.running = true → idle < 3) (l : Label)
    (hl : l.external = false) (hst : step fl l s = some s') :
    s'.rank most idle < s.rank most idle := by
  obtain ⟨ql, hq⟩ := h.pool.queue
  have hC := h.pool.created
  cases l with
  | signal => cases hl
  | worker w a =>
    have ha : a ≠ .spurious := by
      rintro rfl
      cases hl
    exact worker_rank hC hq h.handlers hst (Pool.blocked_step (workerStep_pool hst) ha)
  | handler w a => exact handler_rank hC hst
  | main a =>
    have hwait : s.main ≠ .epollWait := by
      intro hpc
      have hst' : mainStep fl s a = some s' := hst
      unfold mainStep at hst'
      rw [hpc] at hst'
      cases a <;> first | cases hst' | cases hl
    exact main_rank h.phase hC hq h.pool.slots h.pool.limits.2 (fun hpc => (h.destroying hpc).1)
      hinit hloop hwait hst

theorem interferes_rank (h : Reachable fl minThreads most initial s) (l : Label)
    (hl : l.interferes = true) (hst : step fl l s = some s') :
    s'.rank most idle ≤ s.rank most idle + 3 := by
  cases l with
  | signal =>
    cases hst
    exact Nat.le_add_right _ _
  | worker w a =>
    have ha : a = .spurious := by
      cases a <;> first | rfl | cases hl
    subst ha
    have hp := workerStep_pool hst
    have hm := Pool.WorkerMove.of_step hp
    have hpool := Pool.rank_spurious 5 1 most h.pool.created hp
    have hpc : (s.pool.workers w).pc = .blocked := by
      unfold Pool.workerStep at hp
      cases e : (s.pool.workers w).pc <;> simp_all
    have hs' : s' = s.setPool (s.pool.goto w .woken) := by
      have hst' : workerStep s w .spurious = some s' := hst
      unfold workerStep Pool.workerStep at hst'
      simp only [hpc] at hst'
      exact (Option.some.inj hst').symm
    have hshares : s'.handlersRank = s.handlersRank := by
      refine handlersRank_pushed h.pool.created hm.created_eq.ge (fun v => ?_) (by rw [hs']; rfl)
      by_cases e : v = w
      · subst e
        rw [hpc, hs']
        simpa using Pool.WorkerPc.Pushed.wake rfl
      · exact hm.pushed e
    unfold State.rank
    rw [hshares, (workerStep_main hst).1]
    omega
  | main a => cases hl
  | handler w a => cases hl

theorem epoll_of_external (l : Label) (hl : l.external = true) (hno : l.interferes = false)
    (hst : step fl l s = some s') :
    s'.rank most idle + idle ≤ s.rank most idle + (64 * (11 * most + 52) + 4) := by
  cases l with
  | main a =>
    have hst' : mainStep fl s a = some s' := hst
    have hpc : s.main = .epollWait := by
      cases a with
      | epoll r =>
        unfold mainStep at hst'
        cases e : s.main with
        | epollWait => rfl
        | events n => cases n <;> rw [e] at hst' <;> cases hst'
        | _ => rw [e] at hst'; cases hst'
      | _ => cases hl
    exact epoll_rank hpc hst
  | signal => cases hno
  | worker w a => exact absurd (hno.symm.trans hl) Bool.false_ne_true
  | handler w a => cases hl

/-- **The server answers everybody.**  With at least one thread in the pool, no signal, no failure of
`epoll_wait`, and receives, AI calls and sends that return: whatever the interleaving of the main
thread, the workers and the handlers, no run with finitely many spurious wakeups and returns of
`epoll_wait` gets stuck or goes on for ever before the main thread waits for new connections and every
connection accepted so far has been handled, its descriptor closed exactly once and its block freed
exactly once. -/
theorem connections_served (fl : ℚ → ℚ) (minThreads maxThreads initial : Nat)
    (hmin : 1 ≤ minThreads) (s : State)
    (h : ReachableBy fl Serving minThreads maxThreads initial s)
    (hopen : s.main ≠ .initPool ∧ s.main ≠ .initFailed) (k : Nat) :
    Settles Label.external (step fl) Serving Answered k s := by
  have hstart : Looping fl minThreads maxThreads initial s := by
    rcases h.looping with hinit | ⟨hrun, hloop⟩
    · rcases hinit with e | e
      · exact absurd e hopen.1
      · exact absurd e hopen.2
    · exact ⟨h, hrun, hloop⟩
  refine Settles.of_rank (Looping fl minThreads maxThreads initial) (State.rank maxThreads 0)
    (64 * (11 * maxThreads + 52) + 4) (fun s h hnot => h.progress hmin hnot) ?_ ?_ hstart k
  · intro s l s' h _ hG hl hst
    refine ⟨h.next l hG hst, own_rank h.reach.reachable ?_ (fun _ _ => Nat.zero_lt_succ 2) l hl hst⟩
    intro e
    have hloop := h.looping
    rw [e] at hloop
    cases hloop
  · intro s l s' h _ hG hl hst
    refine ⟨h.next l hG hst, ?_⟩
    cases hi : l.interferes with
    | true =>
      have hrank : s'.rank maxThreads 0 ≤ s.rank maxThreads 0 + 3 :=
        interferes_rank h.reach.reachable l hi hst
      omega
    | false =>
      have hrank : s'.rank maxThreads 0 + 0 ≤
          s.rank maxThreads 0 + (64 * (11 * maxThreads + 52) + 4) := epoll_of_external l hl hi hst
      omega

end

/-- the test for `Serving`; without the label of a signal it is the one for `SetcancelSucceeds` -/
def allows (signals : Bool) (_ : State) : Label → Bool
  | .signal => signals
  | .main (.epoll .failed) => signals
  | .worker _ .setcancelFails => false
  | _ => true

theorem allows_setcancel {b : Bool} (s : State) (l : Label) (h : allows b s l = true) :
    SetcancelSucceeds s l := by
  rintro w rfl
  cases h

theorem allows_serving (s : State) (l : Label) (h : allows false s l = true) : Serving s l := by
  refine ⟨allows_setcancel s l h, ?_, ?_⟩
  · rintro rfl
    cases h
  · rintro rfl
    cases h

/-- One connection has been accepted, and its task waits in the queue. -/
theorem connections_served_acceptRun :
    ∃ s, ReachableBy id Serving 4 32 8 s ∧ s.accepted = 1 ∧ s.closed = [] ∧
      Settles Label.external (step id) Serving Answered 3 s := by
  have hrun : (exec (guarded (allows false) (step id)) (startState (Pool.startState 4 32 8 0))
      acceptRun).map (fun s => (s.main, s.accepted, s.closed)) = some (.loopTest, 1, []) := by
    decide +kernel
  obtain ⟨s, hs, hv⟩ := Option.map_eq_some_iff.mp hrun
  simp only [Prod.mk.injEq] at hv
  obtain ⟨hmain, hacc, hclosed⟩ := hv
  have hreach : ReachableBy id Serving 4 32 8 s :=
    ⟨0, true, true, true, _, rfl, Reach.of_guarded (fun _ => True) (allows false)
      (fun s l _ => allows_serving s l) (fun _ _ _ _ _ _ => trivial) trivial acceptRun hs⟩
  exact ⟨s, hreach, hacc, hclosed, connections_served id 4 32 8 (by decide) s hreach
    (by rw [hmain]; decide) 3⟩

/-! ## it stops -/

/-- a signal has arrived behind the `g_server.running = 1` of `init_server`, or the loop has ended; a
signal in front of that statement is overwritten by it -/
def State.stopping (s : State) : Prop :=
  s.main.closing = true ∨ (s.main.looping = true ∧ s.running = false)

section
variable {minThreads maxThreads initial : Nat}

/-- a run of a server that is stopping -/
structure Stopping (fl : ℚ → ℚ) (minThreads maxThreads initial : Nat) (s : State) : Prop where
  reach : ReachableBy fl SetcancelSucceeds minThreads maxThreads initial s
  stopping : s.stopping

theorem Stopping.pool (h : Stopping fl minThreads maxThreads initial s) :
    Pool.ReachableBy fl Orderly minThreads maxThreads initial s.pool :=
  h.reach.pool fun _ _ hG => hG

theorem Stopping.next (h : Stopping fl minThreads maxThreads initial s) (l : Label)
    (hG : SetcancelSucceeds s l) (hst : Server.step fl l s = some s') :
    Stopping fl minThreads maxThreads initial s' := by
  refine ⟨h.reach.next l hG hst, ?_⟩
  have hstop := h.stopping
  unfold State.stopping at hstop ⊢
  cases l with
  | signal =>
    cases hst
    exact hstop.imp id fun h => ⟨h.1, rfl⟩
  | worker w a =>
    obtain ⟨h1, h2⟩ := workerStep_main hst
    rw [h1, h2]
    exact hstop
  | handler w a =>
    obtain ⟨-, h1, h2⟩ := handlerStep_pool hst
    rw [h1, h2]
    exact hstop
  | main a =>
    rcases hstop with hclose | ⟨hloop, hoff⟩
    · exact .inl (mainStep_closing hst hclose)
    · obtain ⟨hsame, hl | ⟨hl, -⟩⟩ := mainStep_looping hst hloop
      · exact .inr ⟨hl, hsame.trans hoff⟩
      · exact .inl hl

theorem Stopping.progress (h : Stopping fl minThreads maxThreads initial s)
    (hnot : s.main ≠ .returned) :
    ∃ l s', l.interferes = false ∧ SetcancelSucceeds s l ∧ step fl l s = some s' := by
  have hr := h.reach.reachable
  have hext : (∃ l s', l.external = false ∧ SetcancelSucceeds s l ∧ step fl l s = some s') →
      ∃ l s', l.interferes = false ∧ SetcancelSucceeds s l ∧ step fl l s = some s' := by
    rintro ⟨l, s', h1, h2, hst⟩
    exact ⟨l, s', interferes_of_external h1, h2, hst⟩
  by_cases hwait : s.main = .epollWait
  · -- `epoll_wait` returns after a second at the latest
    refine ⟨.main (.epoll (.ready 0)), s.goto (.events 0), rfl, fun w e => (by cases e), ?_⟩
    simp only [step, mainStep, hwait]
    exact if_pos (Nat.zero_le _)
  · refine hext ?_
    by_cases hadd : s.main.adding = true
    · obtain ⟨t, ht⟩ := adding_canMove hr.phase h.pool hadd
      exact step_of_canMove hr ht
    · by_cases hin : s.main = .inDestroy
      · obtain ⟨hd, hnd⟩ := hr.destroying hin
        have hdest : Pool.Destroying fl minThreads maxThreads initial s.pool := ⟨h.pool, hd⟩
        rcases hdest.mover hnd with ⟨p, hp⟩ | ⟨t, ht⟩
        · have hst : ∃ s', step fl (.main .run) s = some s' :=
            ⟨_, by simp only [step, mainStep, hin, hp]; rfl⟩
          obtain ⟨s', hst⟩ := hst
          exact ⟨.main .run, s', rfl, fun w e => (by cases e), hst⟩
        · exact step_of_canMove hr ht
      · refine main_runs fl hr.phase hwait (by simpa using hadd) ?_
        rcases h.stopping with hclose | ⟨hloop, -⟩
        · cases e : s.main <;> rw [e] at hclose <;> simp_all [MainPc.closing]
        · exact .inl hloop

/-- **The server stops.**  Once SIGINT or SIGTERM has arrived behind `init_server`, or the loop has
ended, whatever the main thread, the workers and the handlers are doing, their receives, AI calls and
sends returning, no run with finitely many spurious wakeups and further signals gets stuck or goes on
for ever before `cleanup_server` has returned. -/
theorem shutdown_returns (fl : ℚ → ℚ) (minThreads maxThreads initial : Nat) (s : State)
    (h : ReachableBy fl SetcancelSucceeds minThreads maxThreads initial s) (hstop : s.stopping)
    (k : Nat) :
    Settles Label.interferes (step fl) SetcancelSucceeds (fun s => s.main = .returned) k s := by
  have hinit : ∀ {s}, Stopping fl minThreads maxThreads initial s → s.main ≠ .initPool := by
    intro s h e
    rcases h.stopping with hc | ⟨hc, -⟩ <;> rw [e] at hc <;> cases hc
  refine Settles.of_rank (Stopping fl minThreads maxThreads initial)
    (State.rank maxThreads (64 * (11 * maxThreads + 52) + 5)) 3
    (fun s h hnot => h.progress hnot) ?_ ?_ ⟨h, hstop⟩ k
  · intro s l s' h _ hG hl hst
    refine ⟨h.next l hG hst, ?_⟩
    cases he : l.external with
    | false =>
      refine own_rank h.reach.reachable (hinit h) (fun hpc hrun => ?_) l he hst
      rcases h.stopping with hc | ⟨-, hoff⟩
      · rw [hpc] at hc
        cases hc
      · rw [hrun] at hoff
        cases hoff
    | true =>
      have hrank : s'.rank maxThreads (64 * (11 * maxThreads + 52) + 5) +
          (64 * (11 * maxThreads + 52) + 5) ≤
          s.rank maxThreads (64 * (11 * maxThreads + 52) + 5) +
            (64 * (11 * maxThreads + 52) + 4) := epoll_of_external l he hl hst
      omega
  · intro s l s' h _ hG hl hst
    exact ⟨h.next l hG hst, interferes_rank h.reach.reachable l hl hst⟩

end

/-- The signal arrives while a connection waits in the queue. -/
theorem shutdown_returns_acceptRun :
    ∃ s, ReachableBy id SetcancelSucceeds 4 32 8 s ∧ s.accepted = 1 ∧ s.main ≠ .returned ∧
      Settles Label.interferes (step id) SetcancelSucceeds (fun s => s.main = .returned) 3 s := by
  have hrun : (exec (guarded (allows true) (step id)) (startState (Pool.startState 4 32 8 0))
      (acceptRun ++ [.signal])).map (fun s => (s.main, s.running, s.accepted)) =
        some (.loopTest, false, 1) := by
    decide +kernel
  obtain ⟨s, hs, hv⟩ := Option.map_eq_some_iff.mp hrun
  simp only [Prod.mk.injEq] at hv
  obtain ⟨hmain, hoff, hacc⟩ := hv
  have hreach : ReachableBy id SetcancelSucceeds 4 32 8 s :=
    ⟨0, true, true, true, _, rfl, Reach.of_guarded (fun _ => True) (allows true)
      (fun s l _ => allows_setcancel s l) (fun _ _ _ _ _ _ => trivial) trivial _ hs⟩
  refine ⟨s, hreach, hacc, by rw [hmain]; decide, shutdown_returns id 4 32 8 s hreach ?_ 3⟩
  exact .inr ⟨by rw [hmain]; rfl, hoff⟩

end Server
