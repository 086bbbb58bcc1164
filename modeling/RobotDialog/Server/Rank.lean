import RobotDialog.Pool.Completes
import RobotDialog.Server.Shutdown

/-!
# The server: what is left to do

The statements that the threads of the server can still execute before they all wait for a client:
those of the pool, of the handlers inside the functions of their tasks, and of the main thread.

* `SetcancelSucceeds`, `ReachableBy`   runs in which `pthread_setcancelstate` succeeds;
* `ReachableBy.pool`    the pool of such a run;
* `HandlerPc.rank`, `MainPc.rank`, `State.rank`   the shares and their sum;
* `worker_rank`, `handler_rank`, `main_rank`      a statement lowers it.
-/

set_option linter.unusedSimpArgs false

namespace Server
open Lts Family
open Pool (Ptr Job NoOverlap Orderly)

variable {fl : ℚ → ℚ} {s s' : State} {w : Nat}

/-! ## runs in which `pthread_setcancelstate` succeeds -/

def SetcancelSucceeds : State → Label → Prop := fun _ l => ∀ w, l ≠ .worker w .setcancelFails

def ReachableBy (fl : ℚ → ℚ) (G : State → Label → Prop) (minThreads maxThreads initial : Nat)
    (s : State) : Prop :=
  ∃ now mallocOk mutexOk condOk p₀,
    Pool.threadPoolCreateWithLimits minThreads maxThreads initial now mallocOk mutexOk condOk =
      some p₀ ∧ Reach (step fl) G (startState p₀) s

/-- A statement of the main thread is at most a statement of the pool's main thread or of its
caller. -/
theorem mainStep_pool (h : PhaseInv s) {a : MainAct} (hst : mainStep fl s a = some s') :
    s'.pool = s.pool ∨ ∃ pl, NoOverlap s.pool pl ∧ (∀ w b, pl ≠ .worker w b) ∧
      Pool.step fl pl s.pool = some s'.pool := by
  unfold mainStep at hst
  split at hst
  case h_1 pa hpc =>
    obtain ⟨p, hp, hst⟩ := Option.bind_eq_some_iff.mp hst
    split at hst <;> cases hst
    refine .inr ⟨.main pa, ?_, fun _ _ => by simp, hp⟩
    cases pa with
    | destroy => contradiction
    | _ => trivial
  case h_2 hpc =>
    split at hst
    · cases hst
      exact .inl rfl
    · split at hst <;> cases hst
      exact .inl rfl
  case h_3 hpc => split at hst <;> cases hst <;> exact .inl rfl
  case h_4 n hpc => split at hst <;> cases hst; exact .inl rfl
  case h_14 n k hpc =>
    obtain ⟨p, hp, rfl⟩ := Option.map_eq_some_iff.mp hst
    exact .inr ⟨.caller 0 (.addTask (some handleClientTask) k), h.ready (by rw [hpc]; rfl),
      fun _ _ => by simp, hp⟩
  case h_15 n k pa hpc =>
    obtain ⟨p, hp, rfl⟩ := Option.map_eq_some_iff.mp hst
    have hr := h.ready (by rw [hpc]; rfl)
    exact .inr ⟨.caller 0 pa, by cases pa <;> first | exact hr | trivial, fun _ _ => by simp, hp⟩
  case h_19 hpc =>
    obtain ⟨p, hp, rfl⟩ := Option.map_eq_some_iff.mp hst
    exact .inr ⟨.main .destroy, h.callers_idle (by rw [hpc]; rfl), fun _ _ => by simp, hp⟩
  case h_20 hpc =>
    obtain ⟨p, hp, rfl⟩ := Option.map_eq_some_iff.mp hst
    exact .inr ⟨.main .run, trivial, fun _ _ => by simp, hp⟩
  case h_21 => cases hst
  all_goals
    cases hst
    exact .inl rfl

theorem workerStep_pool {a : Pool.WorkerAct} (hst : workerStep s w a = some s') :
    Pool.workerStep s.pool w a = some s'.pool := by
  unfold workerStep at hst
  split at hst
  · split at hst
    · obtain ⟨p, hp, rfl⟩ := Option.map_eq_some_iff.mp hst
      exact hp
    · cases hst
  · obtain ⟨p, hp, rfl⟩ := Option.map_eq_some_iff.mp hst
    exact hp

theorem handlerStep_pool {a : HandlerAct} (hst : handlerStep s w a = some s') :
    s'.pool = s.pool ∧ s'.main = s.main ∧ s'.running = s.running := by
  unfold handlerStep at hst
  split at hst
  · cases hst
  · split at hst
    case h_1 =>
      obtain ⟨fd, -, rfl⟩ := Option.map_eq_some_iff.mp hst
      exact ⟨rfl, rfl, rfl⟩
    all_goals
      cases hst
      try exact ⟨rfl, rfl, rfl⟩

section
variable {G : State → Label → Prop} {minThreads maxThreads initial : Nat}

theorem ReachableBy.reachable (h : ReachableBy fl G minThreads maxThreads initial s) :
    Reachable fl minThreads maxThreads initial s := by
  obtain ⟨now, b₁, b₂, b₃, p₀, hc, hr⟩ := h
  exact ⟨now, b₁, b₂, b₃, p₀, hc, hr.mono fun _ _ _ => trivial⟩

theorem ReachableBy.next (h : ReachableBy fl G minThreads maxThreads initial s) (l : Label)
    (hG : G s l) (hst : Server.step fl l s = some s') :
    ReachableBy fl G minThreads maxThreads initial s' := by
  obtain ⟨now, b₁, b₂, b₃, p₀, hc, hr⟩ := h
  exact ⟨now, b₁, b₂, b₃, p₀, hc, hr.next l hG hst⟩

/-- **The pool of such a run** is used and destroyed by the main thread alone, and its
`pthread_setcancelstate` succeeds. -/
theorem ReachableBy.pool (hG : ∀ s l, G s l → SetcancelSucceeds s l)
    (h : ReachableBy fl G minThreads maxThreads initial s) :
    Pool.ReachableBy fl Orderly minThreads maxThreads initial s.pool := by
  obtain ⟨now, b₁, b₂, b₃, p₀, hc, hr⟩ := h
  refine hr.inv (fun s => Pool.ReachableBy fl Orderly minThreads maxThreads initial s.pool)
    ⟨now, b₁, b₂, b₃, p₀, hc, .start⟩ fun s l s' hs hI hl hst => ?_
  have hphase : PhaseInv s :=
    (ReachableBy.reachable (G := G) ⟨now, b₁, b₂, b₃, p₀, hc, hs⟩).phase
  have hsame : s'.pool = s.pool →
      Pool.ReachableBy fl Orderly minThreads maxThreads initial s'.pool := fun e => by
    rw [e]
    exact hI
  cases l with
  | signal =>
    cases hst
    exact hI
  | main a =>
    rcases mainStep_pool hphase hst with he | ⟨pl, hno, hworker, hp⟩
    · exact hsame he
    · exact hI.next pl ⟨hno, fun w e => hworker w _ e⟩ hp
  | worker w a =>
    refine hI.next (.worker w a) ⟨trivial, fun v e => ?_⟩ (workerStep_pool hst)
    cases e
    exact hG s _ hl w rfl
  | handler w a => exact hsame (handlerStep_pool hst).1

theorem Reachable.destroying (h : Reachable fl minThreads maxThreads initial s)
    (hpc : s.main = .inDestroy) :
    s.pool.main.destroying = true ∧ s.pool.main ≠ .destroyed := by
  revert hpc
  refine h.inv (fun s => s.main = .inDestroy →
    s.pool.main.destroying = true ∧ s.pool.main ≠ .destroyed) (fun _ e => by cases e)
    fun s s' hr hI hm e => ?_
  cases hm with
  | create a p hpc ha hp =>
    rw [show s.main = .inDestroy from e] at hpc
    cases hpc
  | turn r pc hpc hpc' =>
    rw [show pc = .inDestroy from e] at hpc'
    cases hpc'
  | callDestroy p hpc hp =>
    have hready := hr.phase.ready (by rw [hpc]; rfl)
    unfold Pool.mainStep at hp
    rw [hready] at hp
    cases hp
    exact ⟨rfl, by simp⟩
  | destroying p hpc hp hd =>
    have hwas := (hI hpc).1
    refine ⟨?_, hd⟩
    show p.main.destroying = true
    cases Pool.MainMove.of_step hp <;>
      first | rfl | exact hwas | simp_all [Pool.MainPc.destroying]
  | worker w a p hpc hp =>
    show p.main.destroying = true ∧ p.main ≠ .destroyed
    rw [(Pool.WorkerMove.of_step hp).main_eq]
    exact hI e
  | returns w a p task start fd hpc hh hp =>
    show p.main.destroying = true ∧ p.main ≠ .destroyed
    rw [(Pool.WorkerMove.of_step hp).main_eq]
    exact hI e
  | signal => exact hI e
  | enter w job fd hc hh hb => exact hI e
  | freeArg w job arg fd hc hh => exact hI e
  | process w job fd c hc hh => exact hI e
  | send w job fd type data acts hc hh => exact hI e
  | closeFd w job fd acts hc hh => exact hI e
  | _ => cases e

end

/-! ## the shares -/

/-- what `handle_client_task` has left; `process_single_request_and_close` makes at most two uses of
the descriptor -/
def HandlerPc.rank : HandlerPc → Nat
  | .entry => 5
  | .freeArg _ _ => 4
  | .process _ => 3
  | .actions _ acts => acts.length

/-- the worker is inside the function of its task -/
def inFunction : Pool.WorkerPc → Bool
  | .callFunction _ _ => true
  | _ => false

/-- what the handler of worker `v` has left -/
def State.share (s : State) (v : Nat) : Nat :=
  if inFunction (s.pool.workers v).pc = true then (s.handler v).rank else 0

def State.handlersRank (s : State) : Nat := total s.pool.created s.share

/-- what the main thread has left until it waits in `epoll_wait`, which counts `idle`, or returns;
an event can cost a whole call of `thread_pool_add_task` -/
def MainPc.rank (most idle : Nat) : MainPc → Nat
  | .events n => n * (11 * most + 52) + 4
  | .accept n => n * (11 * most + 52) + (11 * most + 55)
  | .mallocPtr n _ => n * (11 * most + 52) + (11 * most + 54)
  | .callAddTask n _ => n * (11 * most + 52) + (11 * most + 53)
  | .inAddTask n _ => n * (11 * most + 52) + 8
  | .freePtr n _ => n * (11 * most + 52) + 6
  | .closeRejected n _ => n * (11 * most + 52) + 5
  | .closeNoMemory n _ => n * (11 * most + 52) + 5
  | .epollWait => idle
  | .loopTest => 3
  | .stopRunning => 2
  | .callDestroy => 1
  | _ => 0

/-- **What is left to do** in a server whose pool has at most `most` threads. -/
def State.rank (most idle : Nat) (s : State) : Nat :=
  s.pool.rank 5 1 most + s.handlersRank + s.main.rank most idle

/-! ## the handlers -/

theorem process_length (c : Calls) : (processSingleRequestAndClose c).length ≤ 2 := by
  have htest : ∀ msg, (testCase c msg).length ≤ 2 := fun msg => by
    unfold testCase
    split <;> exact le_rfl
  unfold processSingleRequestAndClose
  split
  · exact Nat.le_succ 1
  · split
    · unfold aiCase
      split
      · exact le_rfl
      · split
        · exact le_rfl
        · split
          · exact le_rfl
          · exact htest _
    · split
      · exact htest _
      · exact le_rfl

theorem handlersRank_pushed (hC : Pool.CreatedInv s.pool) (hcr : s.pool.created ≤ s'.pool.created)
    (hp : ∀ v, (s.pool.workers v).pc.Pushed (s'.pool.workers v).pc) (hh : s'.handler = s.handler) :
    s'.handlersRank = s.handlersRank := by
  refine total_grow hcr (fun v => ?_) fun v hv => ?_
  · unfold State.share
    rw [hh, (hp v).view inFunction rfl rfl]
  · unfold State.share
    rw [(hC v).mpr hv]
    rfl

/-- The handler of worker `w` moves, or the worker enters or leaves the function. -/
theorem handlersRank_move {t : State} (hw : w < s.pool.created) (hcr : t.pool.created = s.pool.created)
    (hp : ∀ v, v ≠ w → (s.pool.workers v).pc.Pushed (t.pool.workers v).pc)
    (hh : ∀ v, v ≠ w → t.handler v = s.handler v) :
    t.handlersRank + s.share w = s.handlersRank + t.share w := by
  unfold State.handlersRank
  rw [hcr]
  refine total_move hw fun v hv => ?_
  unfold State.share
  rw [hh v hv, (hp v hv).view inFunction rfl rfl]

theorem handlerStep_spec {a : HandlerAct} (hst : handlerStep s w a = some s') :
    (∃ job, calling s.pool w = some job) ∧
      ∃ pc, s'.handler = Function.update s.handler w pc ∧ pc.rank < (s.handler w).rank := by
  unfold handlerStep at hst
  split at hst
  case h_1 => cases hst
  case h_2 job hc =>
    refine ⟨⟨job, hc⟩, ?_⟩
    split at hst
    case h_1 hh =>
      obtain ⟨fd, -, rfl⟩ := Option.map_eq_some_iff.mp hst
      exact ⟨_, rfl, by rw [hh]; exact Nat.lt_succ_self 4⟩
    case h_2 arg fd hh =>
      cases hst
      exact ⟨_, rfl, by rw [hh]; exact Nat.lt_succ_self 3⟩
    case h_3 fd c hh =>
      cases hst
      exact ⟨_, rfl, by rw [hh]; exact Nat.lt_succ_of_le (process_length c)⟩
    case h_4 fd type data acts hh =>
      cases hst
      exact ⟨_, rfl, by rw [hh]; exact Nat.lt_succ_self acts.length⟩
    case h_5 fd acts hh =>
      cases hst
      exact ⟨_, rfl, by rw [hh]; exact Nat.lt_succ_self acts.length⟩
    case h_6 => cases hst

/-- **A statement of a handler.** -/
theorem handler_rank {most idle : Nat} (hC : Pool.CreatedInv s.pool) {a : HandlerAct}
    (hst : handlerStep s w a = some s') : s'.rank most idle < s.rank most idle := by
  obtain ⟨hpool, hmain, -⟩ := handlerStep_pool hst
  obtain ⟨⟨job, hcall⟩, pc, hh, hlt⟩ := handlerStep_spec hst
  obtain ⟨⟨task, start, hpc⟩, hruns⟩ := calling_spec hcall
  have hsum := handlersRank_move (s := s) (t := s') (Pool.runs_created hC hruns) (by rw [hpool])
    (fun v _ => by rw [hpool]; exact .same) fun v hv => by rw [hh, Function.update_of_ne hv]
  have hold : s.share w = (s.handler w).rank := by
    unfold State.share
    rw [hpc]
    rfl
  have hnew : s'.share w = pc.rank := by
    unfold State.share
    rw [hpool, hpc, hh, Function.update_self]
    rfl
  unfold State.rank
  rw [hpool, hmain]
  omega

/-! ## the workers -/

theorem startClock_of_inFunction {p p' : Pool.State} (hm : Pool.WorkerMove p w p')
    (h : inFunction (p'.workers w).pc = true) : ∃ task, (p.workers w).pc = .startClock task := by
  cases hm with
  | startClock task t hpc => exact ⟨task, hpc⟩
  | cancelPass v hpc hd hv hb => simp [Function.update_of_ne hv.symm, inFunction] at h
  | _ => simp [inFunction] at h

/-- **A statement of a worker**, other than a spurious wakeup. -/
theorem worker_rank {most idle : Nat} {l : List (Ptr × Job)} (hC : Pool.CreatedInv s.pool)
    (hq : Pool.QueueInv s.pool l) (hentry : HandlerInv s) {a : Pool.WorkerAct}
    (hst : workerStep s w a = some s')
    (hsp : (s.pool.workers w).pc = .blocked → (s'.pool.workers w).pc ≠ .woken) :
    s'.rank most idle < s.rank most idle := by
  have hm := Pool.WorkerMove.of_step (workerStep_pool hst)
  have hpool := hm.rank_le 5 1 most hC hq hsp
  have hmain : s'.main = s.main ∧ ∀ v, v ≠ w → s'.handler v = s.handler v := by
    unfold workerStep at hst
    split at hst
    · split at hst
      · obtain ⟨p, -, rfl⟩ := Option.map_eq_some_iff.mp hst
        exact ⟨rfl, fun v hv => Function.update_of_ne hv _ _⟩
      · cases hst
    · obtain ⟨p, -, rfl⟩ := Option.map_eq_some_iff.mp hst
      exact ⟨rfl, fun _ _ => rfl⟩
  have hsum := handlersRank_move (s := s) (t := s') (hm.exists hC) hm.created_eq
    (fun v hv => hm.pushed hv) hmain.2
  have hshare : s'.share w + 1 ≤ s.share w + (s.pool.workers w).pc.price 5 := by
    by_cases hin : inFunction (s'.pool.workers w).pc = true
    · -- the call is paid for
      obtain ⟨task, hpc⟩ := startClock_of_inFunction hm hin
      have he : s'.handler w = .entry := by
        unfold workerStep at hst
        rw [hpc] at hst
        obtain ⟨p, -, rfl⟩ := Option.map_eq_some_iff.mp hst
        exact hentry.entry w fun task' start e => by rw [hpc] at e; cases e
      have hfive : s'.share w = 5 := by
        unfold State.share
        rw [if_pos hin, he]
        rfl
      rw [hpc]
      show _ ≤ _ + 6
      omega
    · have hnone : s'.share w = 0 := if_neg hin
      have hone : 1 ≤ (s.pool.workers w).pc.price 5 := by
        cases (s.pool.workers w).pc <;> simp [Pool.WorkerPc.price]
      omega
  unfold State.rank
  rw [hmain.1]
  omega

/-! ## the main thread -/

theorem rank_outside {most idle : Nat} (hp : s'.pool = s.pool) (hh : s'.handler = s.handler)
    (hlt : s'.main.rank most idle < s.main.rank most idle) :
    s'.rank most idle < s.rank most idle := by
  have hshares : s'.handlersRank = s.handlersRank := by
    unfold State.handlersRank State.share
    rw [hp, hh]
  unfold State.rank
  rw [hp, hshares]
  omega

/-- **A statement of the main thread**, once the pool has been created. -/
theorem main_rank {most idle : Nat} {l : List (Ptr × Job)} (hph : PhaseInv s)
    (hC : Pool.CreatedInv s.pool) (hq : Pool.QueueInv s.pool l) (hsl : Pool.SlotInv s.pool)
    (hmost : s.pool.pool.maxThreads = most)
    (hdestroy : s.main = .inDestroy → s.pool.main.destroying = true) (hinit : s.main ≠ .initPool)
    (hloop : s.main = .loopTest → s.running = true → idle < 3) (hwait : s.main ≠ .epollWait) {a : MainAct}
    (hst : mainStep fl s a = some s') : s'.rank most idle < s.rank most idle := by
  -- a statement inside the pool, `p` is the pool behind it
  have hinside : ∀ p pc, s.pool.created ≤ p.created →
      (∀ v, (s.pool.workers v).pc.Pushed (p.workers v).pc) →
      p.rank 5 1 most + pc.rank most idle < s.pool.rank 5 1 most + s.main.rank most idle →
      ((s.setPool p).goto pc).rank most idle < s.rank most idle := by
    intro p pc hcr hp hlt
    have hshares : ((s.setPool p).goto pc).handlersRank = s.handlersRank :=
      handlersRank_pushed hC hcr hp rfl
    show p.rank 5 1 most + ((s.setPool p).goto pc).handlersRank + pc.rank most idle <
      s.pool.rank 5 1 most + s.handlersRank + s.main.rank most idle
    omega
  unfold mainStep at hst
  split at hst
  case h_1 pa hpc => exact absurd hpc hinit
  case h_2 hpc => exact absurd hpc hinit
  case h_3 hpc =>
    split at hst <;> cases hst
    · have hidle := hloop hpc ‹_›
      refine rank_outside rfl rfl ?_
      rw [hpc]
      exact hidle
    · refine rank_outside rfl rfl ?_
      rw [hpc]
      exact Nat.lt_succ_self 2
  case h_4 n hpc => exact absurd hpc hwait
  case h_5 hpc => exact absurd hpc hwait
  case h_6 hpc => exact absurd hpc hwait
  case h_14 n k hpc =>
    obtain ⟨p, hp, rfl⟩ := Option.map_eq_some_iff.mp hst
    have hm := Pool.CallerMove.of_step hp
    have hrank : p.rank 5 1 most ≤ s.pool.rank 5 1 most + (11 * most + 5 + 37) :=
      hm.rank_begin Nat.zero_lt_one (hph.outside (by rw [hpc]; rfl))
    refine hinside p _ hm.created_le (hm.pushed hC) ?_
    rw [hpc]
    simp only [MainPc.rank]
    omega
  case h_15 n k pa hpc =>
    obtain ⟨p, hp, rfl⟩ := Option.map_eq_some_iff.mp hst
    have hm := Pool.CallerMove.of_step hp
    have hrank := hm.rank_lt (n := 5) (m := 1) hC hq hsl hmost Nat.zero_lt_one
      (hph.inside (by rw [hpc]; rfl)).1
    refine hinside p _ hm.created_le (hm.pushed hC) ?_
    rw [hpc]
    split
    · simp only [MainPc.rank]
      omega
    · split <;> simp only [MainPc.rank] <;> omega
  case h_19 hpc =>
    obtain ⟨p, hp, rfl⟩ := Option.map_eq_some_iff.mp hst
    have hm := Pool.MainMove.of_step hp
    have hrank := hm.rank_lt (n := 5) (m := 1) hq hmost (.inl (hph.ready (by rw [hpc]; rfl)))
    refine hinside p _ hm.created_le (hm.pushed hC) ?_
    rw [hpc]
    simp only [MainPc.rank]
    omega
  case h_20 hpc =>
    obtain ⟨p, hp, rfl⟩ := Option.map_eq_some_iff.mp hst
    have hm := Pool.MainMove.of_step hp
    have hrank := hm.rank_lt (n := 5) (m := 1) hq hmost (.inr (hdestroy hpc))
    refine hinside p _ hm.created_le (hm.pushed hC) ?_
    rw [hpc]
    split <;> simp only [MainPc.rank] <;> omega
  case h_21 => cases hst
  all_goals
    rename_i hpc
    cases hst
    refine rank_outside rfl rfl ?_
    rw [hpc]
    simp only [State.goto, State.close, State.free, MainPc.rank, Nat.succ_mul]
    omega

/-- **`epoll_wait` returns.** -/
theorem epoll_rank {most idle : Nat} (hpc : s.main = .epollWait) {a : MainAct}
    (hst : mainStep fl s a = some s') :
    s'.rank most idle + idle ≤ s.rank most idle + (64 * (11 * most + 52) + 4) := by
  have hreach : ∀ pc : MainPc, pc.rank most idle ≤ 64 * (11 * most + 52) + 4 →
      (s.goto pc).rank most idle + idle ≤ s.rank most idle + (64 * (11 * most + 52) + 4) := by
    intro pc hle
    show s.pool.rank 5 1 most + s.handlersRank + pc.rank most idle + idle ≤
      s.pool.rank 5 1 most + s.handlersRank + s.main.rank most idle + _
    rw [hpc]
    show _ ≤ s.pool.rank 5 1 most + s.handlersRank + idle + _
    omega
  unfold mainStep at hst
  rw [hpc] at hst
  cases a with
  | epoll r =>
    cases r with
    | ready n =>
      simp only [Option.ite_none_right_eq_some, Option.some.injEq] at hst
      obtain ⟨hn, rfl⟩ := hst
      exact hreach _ (Nat.add_le_add_right (Nat.mul_le_mul_right _ hn) 4)
    | interrupted =>
      cases hst
      exact hreach _ (by simp only [MainPc.rank]; omega)
    | failed =>
      cases hst
      exact hreach _ (by simp only [MainPc.rank]; omega)
  | _ => cases hst

end Server
