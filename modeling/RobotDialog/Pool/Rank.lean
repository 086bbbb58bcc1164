import RobotDialog.Pool.Effects

/-!
# The thread pool: what is left to do

A bound on the statements that the threads of a pool can still execute before they all wait: a
worker on its way to the queue has a few statements left, a task that waits in the queue costs a
whole turn of the loop of a worker, a caller may still add a task and create threads.

* `WorkerPc.rank`, `CallerPc.rank`, `MainPc.rank`   the share of one thread;
* `State.backlog`       the tasks in the queue;
* `State.rank`          the sum;
* `WorkerMove.rank_le`, `CallerMove.rank_lt`, `MainMove.rank_lt`   a statement lowers it;
* `WorkerMove.rank_spurious`, `CallerMove.rank_begin`   a spurious wakeup and a new call raise it by
                        a constant.
-/

set_option linter.unusedSimpArgs false

namespace Pool
open State Lts Family

variable {fl : ℚ → ℚ} {s s' : State} {w c : Nat} {l : List (Ptr × Job)}

/-! ## the shares -/

/-- what a worker has left until it sleeps or ends; the function of a task takes `n` statements of
its own -/
def WorkerPc.rank (n : Nat) : WorkerPc → Nat
  | .fixTail _ => n + 20
  | .decQueueSize _ => n + 19
  | .incActive _ => n + 18
  | .unlockTask _ => n + 17
  | .startClock _ => n + 16
  | .callFunction _ _ => 15
  | .lockStats _ _ => 14
  | .addCompleted _ _ => 13
  | .updateMin _ _ => 12
  | .updateMax _ _ => 11
  | .decActive _ => 10
  | .unlockStats _ => 9
  | .freeTask _ => 8
  | .lock => 7
  | .enableCancel | .woken => 6
  | .testQueue => 5
  | .condWait => 4
  | .blocked | .disableCancel => 3
  | .cancelled | .testShutdown => 2
  | .cleanup | .unlockShutdown | .unlinkHead => 1
  | .notCreated | .exited | .exitedLocked => 0

/-- what a caller has left, in a pool of at most `most` threads: a thread that it creates costs 11,
a task that it adds costs `n + 20` -/
def CallerPc.rank (n most : Nat) : CallerPc → Nat
  | .mallocTask _ => 11 * most + n + 37
  | .lockAdd _ => 11 * most + n + 36
  | .testShutdown _ => 11 * most + n + 35
  | .link _ => 11 * most + n + 34
  | .incQueueSize => 11 * most + 13
  | .signal => 11 * most + 12
  | .unlockAdd => 11 * most + 8
  | .scaleTime => 11 * most + 7
  | .scaleLock _ => 11 * most + 6
  | .scaleTest _ => 11 * most + 5
  | .scaleUp i new _ => 11 * (new - i) + 3
  | .scaleDown i new _ => (i + 1 - new).toNat + 4
  | .scaleStoreCount _ _ => 3
  | .scaleStoreTime _ => 2
  | .unlockReject _ => 2
  | .scaleUnlock | .freeReject _ => 1
  | .idle => 0

/-- what the main thread has left of `thread_pool_destroy` -/
def MainPc.rank (most : Nat) : MainPc → Nat
  | .ready => most + 8
  | .destroyLock => most + 7
  | .destroyShutdown => most + 6
  | .destroyBroadcast => most + 5
  | .destroyUnlock => most + 4
  | .destroyJoin i => most - i + 3
  | .destroyDrain => 2
  | .destroyFree => 1
  | _ => 0

/-- what the broadcast of `thread_pool_destroy` can cost for each worker -/
def MainPc.wakes : MainPc → Nat
  | .ready | .destroyLock | .destroyShutdown | .destroyBroadcast => 3
  | _ => 0

def State.backlog (s : State) : Nat := s.accepted.length - (s.dequeued.length + s.drained.length)

def State.workersRank (n : Nat) (s : State) : Nat :=
  total s.created fun v => (s.workers v).pc.rank n

/-- **What is left to do** in a pool of at most `most` threads that is used by the callers below
`m`. -/
def State.rank (n m most : Nat) (s : State) : Nat :=
  s.workersRank n + (n + 20) * s.backlog + total m (fun c => (s.callers c).pc.rank n most) +
    s.main.rank most + s.main.wakes * s.created

theorem QueueInv.backlog_eq (h : QueueInv s l) : s.backlog = l.length := by
  have hlen := congrArg List.length h.fifo
  rw [List.length_append, List.length_append, List.length_map] at hlen
  unfold State.backlog
  omega

/-! ## the workers -/

theorem workersRank_move {t : State} (n : Nat) (hw : w < s.created) (hcr : t.created = s.created)
    (h : ∀ v, v ≠ w → (t.workers v).pc = (s.workers v).pc) :
    t.workersRank n + (s.workers w).pc.rank n = s.workersRank n + (t.workers w).pc.rank n := by
  unfold State.workersRank
  rw [hcr]
  refine total_move (f := fun v => (s.workers v).pc.rank n) hw fun v hv => ?_
  show (t.workers v).pc.rank n = (s.workers v).pc.rank n
  rw [h v hv]

theorem workersRank_same (n : Nat) (hcr : s'.created = s.created)
    (h : ∀ v, (s'.workers v).pc = (s.workers v).pc) : s'.workersRank n = s.workersRank n := by
  unfold State.workersRank
  rw [hcr]
  exact total_congr fun v _ => by rw [h v]

theorem workersRank_create (n i : Nat) (s : State) :
    (s.createWorker i).workersRank n = s.workersRank n + 7 := by
  show total (s.created + 1) (fun v =>
    (Function.update s.workers s.created ⟨.lock, true, false⟩ v).pc.rank n) = _
  rw [total_succ, Function.update_self]
  congr 1
  exact total_congr fun v hv => by rw [Function.update_of_ne (Nat.ne_of_lt hv)]

theorem workersRank_broadcast (n : Nat) (s : State) :
    s.broadcast.workersRank n ≤ s.workersRank n + 3 * s.created := by
  refine total_le_add (f := fun v => (s.workers v).pc.rank n) fun v => ?_
  show (if (s.workers v).pc = .blocked then { s.workers v with pc := .woken }
    else s.workers v).pc.rank n ≤ (s.workers v).pc.rank n + 3
  split
  · rename_i hb
    rw [hb]
    exact le_rfl
  · exact Nat.le_add_right _ _

/-- what one statement at this program point costs: the call of a task's function is paid for in
advance -/
def WorkerPc.price (n : Nat) : WorkerPc → Nat
  | .startClock _ => n + 1
  | _ => 1

/-- **A statement of a worker**, other than a spurious wakeup. -/
theorem WorkerMove.rank_le (n m most : Nat) (hC : CreatedInv s) (hq : QueueInv s l)
    (hm : WorkerMove s w s')
    (hsp : (s.workers w).pc = .blocked → (s'.workers w).pc ≠ .woken) :
    s'.rank n m most + (s.workers w).pc.price n ≤ s.rank n m most := by
  have hw := hm.exists hC
  suffices h : s'.workersRank n + (n + 20) * s'.backlog + (s.workers w).pc.price n ≤
      s.workersRank n + (n + 20) * s.backlog by
    unfold State.rank
    rw [hm.callers_eq, hm.main_eq, hm.created_eq]
    omega
  have hsame : s'.accepted = s.accepted → s'.dequeued = s.dequeued → s'.drained = s.drained →
      s'.backlog = s.backlog := fun h1 h2 h3 => by
    unfold State.backlog
    rw [h1, h2, h3]
  have hcr := hm.created_eq
  cases hm with
  | unlinkHead task t hpc hh ht =>
    have hlink := hq.linked
    rw [hh] at hlink
    obtain ⟨k, l', hk, rfl, -⟩ := hlink.uncons
    have hone := hq.backlog_eq
    rw [List.length_cons] at hone
    have hless : ({ s.setPool { s.pool with queueHead := t.next } with
        dequeued := s.dequeued ++ [t.job] }.goto w (.fixTail task)).backlog = l'.length := by
      unfold State.backlog at hone ⊢
      simp only [goto, setWorker, setPool, List.length_append, List.length_singleton]
      omega
    have hsum := workersRank_move n hw hcr fun v hv => by simp [hv]
    rw [hless, hone, Nat.mul_succ]
    simp only [goto, setWorker, Function.update_self, hpc, WorkerPc.rank, WorkerPc.price] at hsum ⊢
    omega
  | cancelPass v hpc hd hv hb =>
    -- the request is acted upon, and a wakeup goes on to another sleeper
    have hb' : ((s.goto w .cancelled).workers v).pc = .blocked := by
      simpa [Function.update_of_ne hv] using hb
    have hvc : v < (s.goto w .cancelled).created := by
      by_contra hge
      rw [(hC v).mpr (by simpa using hge)] at hb
      cases hb
    have h1 := workersRank_move n (t := s.goto w .cancelled) hw rfl fun u hu => by simp [hu]
    have h2 := workersRank_move n (t := (s.goto w .cancelled).goto v .woken) hvc rfl
      fun u hu => by simp [hu]
    rw [hb'] at h2
    rw [hsame rfl rfl rfl]
    simp only [goto, setWorker, Function.update_self, hpc, WorkerPc.rank, WorkerPc.price] at h1 h2 ⊢
    omega
  | spurious hpc => exact absurd (by simp) (hsp hpc)
  | setcancelFails hpc =>
    have hsum := workersRank_move n hw hcr fun v hv => by simp [hv]
    rw [hsame rfl rfl rfl]
    rcases hpc with hpc | hpc <;>
      simp only [goto, setWorker, Function.update_self, hpc, WorkerPc.rank, WorkerPc.price]
        at hsum ⊢ <;> omega
  | _ =>
    have hsum := workersRank_move n hw hcr fun v hv => by simp [hv]
    rw [hsame rfl rfl rfl]
    simp only [goto, setWorker, setOwner, setPool, setHeap, Function.update_self, WorkerPc.rank,
      WorkerPc.price, *] at hsum ⊢
    omega

theorem rank_spurious (n m most : Nat) (hC : CreatedInv s)
    (hst : workerStep s w .spurious = some s') : s'.rank n m most ≤ s.rank n m most + 3 := by
  have hw : w < s.created := (WorkerMove.of_step hst).exists hC
  have hpc : (s.workers w).pc = .blocked := by
    unfold workerStep at hst
    cases e : (s.workers w).pc <;> simp_all
  have hs' : s' = s.goto w .woken := by
    unfold workerStep at hst
    rw [hpc] at hst
    exact (Option.some.inj hst).symm
  subst hs'
  have hsum := workersRank_move n (t := s.goto w .woken) hw rfl fun v hv => by simp [hv]
  have hnew : ((s.goto w .woken).workers w).pc = .woken := by simp
  rw [hpc, hnew] at hsum
  simp only [WorkerPc.rank] at hsum
  show (s.goto w .woken).workersRank n + (n + 20) * s.backlog +
    total m (fun c => (s.callers c).pc.rank n most) + s.main.rank most +
      s.main.wakes * s.created ≤ _
  unfold State.rank
  omega

/-! ## the callers -/

theorem scaleBranch_rank (fl : ℚ → ℚ) (n : Nat) (p : ThreadPool) (now : Int)
    (hp : p.threadCount ≤ p.maxThreads) :
    (scaleBranch fl p now).rank n p.maxThreads < 11 * p.maxThreads + 5 := by
  unfold scaleBranch
  split
  · have hle : scaleUpTarget p ≤ p.maxThreads := Nat.min_le_right _ _
    simp only [CallerPc.rank]
    omega
  · split
    · simp only [CallerPc.rank]
      omega
    · simp only [CallerPc.rank]
      omega

theorem MainPc.wakes_le (p : MainPc) : p.wakes ≤ 3 := by
  cases p <;> simp [MainPc.wakes]

/-- **A statement of a caller.** -/
theorem CallerMove.rank_lt {n m most : Nat} (hC : CreatedInv s) (hq : QueueInv s l)
    (hsl : SlotInv s) (hmost : s.pool.maxThreads = most) (hc : c < m)
    (hbusy : (s.callers c).pc ≠ .idle) (hm : CallerMove fl s c s') :
    s'.rank n m most < s.rank n m most := by
  have hcall := @total_move _ _ m c (fun d => (s.callers d).pc.rank n most)
    (fun d => (s'.callers d).pc.rank n most) hc fun d hd => by rw [hm.callers_of_ne hd]
  have hfifo := congrArg List.length hq.fifo
  rw [List.length_append, List.length_append, List.length_map] at hfifo
  -- `d` for a worker that wakes or starts, `e` for a thread that is created, `b` for a task
  have hgrow : ∀ d e b, s'.workersRank n = s.workersRank n + d → s'.created = s.created + e →
      s'.accepted.length = s.accepted.length + b →
      (s'.callers c).pc.rank n most + (d + 3 * e + (n + 20) * b) < (s.callers c).pc.rank n most →
      s'.rank n m most < s.rank n m most := fun d e b hd he hb hlt => by
    have hback : s'.backlog = s.backlog + b := by
      unfold State.backlog
      rw [hb, hm.dequeued_eq.1, hm.dequeued_eq.2]
      omega
    have hwakes : s.main.wakes * e ≤ 3 * e := Nat.mul_le_mul_right e s.main.wakes_le
    unfold State.rank
    rw [hd, hback, hm.main_eq, he, Nat.mul_add, Nat.mul_add]
    omega
  cases hm with
  | addNull hpc ho => exact absurd hpc hbusy
  | addTask f argument hpc ho => exact absurd hpc hbusy
  | autoScale hpc ho => exact absurd hpc hbusy
  | linkFirst task t hpc ht hh =>
    refine hgrow 0 0 1 rfl rfl (by simp) ?_
    simp only [callerGoto, Function.update_self, hpc, CallerPc.rank]
    omega
  | linkLast task tail t k hpc ht hh htail hk =>
    refine hgrow 0 0 1 rfl rfl (by simp) ?_
    simp only [callerGoto, Function.update_self, hpc, CallerPc.rank]
    omega
  | signal v hpc hb =>
    have hv : v < s.created := by
      by_contra hge
      rw [(hC v).mpr (by omega)] at hb
      cases hb
    have hsum := workersRank_move n (t := (s.callerGoto c .unlockAdd).goto v .woken) hv rfl
      fun u hu => by simp [hu]
    have hnew : (((s.callerGoto c .unlockAdd).goto v .woken).workers v).pc = .woken := by simp
    rw [hb, hnew] at hsum
    refine hgrow 3 0 0 (by simpa only [WorkerPc.rank, Nat.add_right_cancel_iff] using hsum) rfl rfl ?_
    simp only [goto, setWorker, callerGoto, Function.update_self, hpc, CallerPc.rank]
    omega
  | created i new now hpc hi =>
    refine hgrow 7 1 0 (workersRank_create n i s) rfl rfl ?_
    simp only [callerGoto, setPool, Function.update_self, hpc, CallerPc.rank]
    omega
  | scaleTest now hpc =>
    have hbranch := scaleBranch_rank fl n s.pool now hsl.bounds.2
    rw [hmost] at hbranch
    have hnew : ((s.callerGoto c (scaleBranch fl s.pool now)).callers c).pc =
        scaleBranch fl s.pool now := by simp
    refine hgrow 0 0 0 rfl rfl rfl ?_
    rw [hnew, hpc]
    show _ < 11 * most + 5
    omega
  | cancel i new v now hpc hi hv =>
    refine hgrow 0 0 0 (workersRank_same n rfl fun u => ?_) rfl rfl ?_
    · by_cases e : u = v
      · subst e
        simp
      · simp [e]
    · simp only [callerGoto, setWorker, Function.update_self, hpc, CallerPc.rank]
      omega
  | _ =>
    refine hgrow 0 0 0 rfl rfl rfl ?_
    simp only [callerGoto, finishCall, setOwner, setPool, setHeap, Function.update_self,
      CallerPc.rank, *]
    omega

/-- **A call begins.** -/
theorem CallerMove.rank_begin {n m most : Nat} (hc : c < m) (hidle : (s.callers c).pc = .idle)
    (hm : CallerMove fl s c s') : s'.rank n m most ≤ s.rank n m most + (11 * most + n + 37) := by
  have hcall := @total_move _ _ m c (fun d => (s.callers d).pc.rank n most)
    (fun d => (s'.callers d).pc.rank n most) hc fun d hd => by rw [hm.callers_of_ne hd]
  have hnone : (s.callers c).pc.rank n most = 0 := by
    rw [hidle]
    rfl
  have hrest : s'.workersRank n = s.workersRank n → s'.accepted = s.accepted →
      s'.created = s.created →
      (s'.callers c).pc.rank n most ≤ 11 * most + n + 37 →
      s'.rank n m most ≤ s.rank n m most + (11 * most + n + 37) := fun h1 h2 h3 h4 => by
    have hb : s'.backlog = s.backlog := by
      unfold State.backlog
      rw [h2, hm.dequeued_eq.1, hm.dequeued_eq.2]
    unfold State.rank
    rw [h1, hb, hm.main_eq, h3]
    omega
  cases hm with
  | addNull hpc ho => exact hrest rfl rfl rfl (by rw [hpc]; exact Nat.zero_le _)
  | addTask f argument hpc ho =>
    refine hrest rfl rfl rfl ?_
    simp only [Function.update_self, CallerPc.rank]
    exact le_rfl
  | autoScale hpc ho =>
    refine hrest rfl rfl rfl ?_
    simp only [callerGoto, Function.update_self, CallerPc.rank]
    omega
  | scaleTest now hpc =>
    rw [hpc] at hidle
    cases hidle
  | _ => simp_all

/-! ## the main thread -/

/-- **A statement of `thread_pool_destroy`.** -/
theorem MainMove.rank_lt {n m most : Nat} (hq : QueueInv s l) (hmost : s.pool.maxThreads = most)
    (hd : s.main = .ready ∨ s.main.destroying = true) (hm : MainMove s s') :
    s'.rank n m most < s.rank n m most := by
  have hcallers := hm.callers_eq
  have hsame : s'.workersRank n = s.workersRank n → s'.backlog = s.backlog →
      s'.created = s.created → s'.main.wakes = s.main.wakes → s'.main.rank most < s.main.rank most →
      s'.rank n m most < s.rank n m most := fun h1 h2 h3 h4 h5 => by
    unfold State.rank
    rw [h1, h2, h3, h4, hcallers]
    omega
  cases hm with
  | destroyBroadcast hpc =>
    have hsum := workersRank_broadcast n s
    show s.broadcast.workersRank n + (n + 20) * s.backlog +
      total m (fun c => (s.callers c).pc.rank n most) + (most + 4) + 0 * s.created < _
    simp only [State.rank, hpc, MainPc.rank, MainPc.wakes]
    omega
  | drain task t hpc hh ht =>
    have hlink := hq.linked
    rw [hh] at hlink
    obtain ⟨k, l', hk, rfl, -⟩ := hlink.uncons
    have hone := hq.backlog_eq
    rw [List.length_cons] at hone
    have hless : State.backlog { (s.setHeap task none).setPool { s.pool with queueHead := t.next }
        with drained := s.drained ++ [t.job] } = l'.length := by
      unfold State.backlog at hone ⊢
      simp only [setHeap, setPool, List.length_append, List.length_singleton]
      omega
    unfold State.rank
    rw [hless, hone, Nat.mul_succ]
    show s.workersRank n + (n + 20) * l'.length +
      total m (fun c => (s.callers c).pc.rank n most) + s.main.rank most +
        s.main.wakes * s.created < _
    omega
  | join i hpc hi hc ht =>
    refine hsame rfl rfl rfl (by rw [hpc]; rfl) ?_
    simp only [mainGoto, hpc, MainPc.rank]
    omega
  | skip i hpc hi hc =>
    refine hsame rfl rfl rfl (by rw [hpc]; rfl) ?_
    simp only [mainGoto, hpc, MainPc.rank]
    omega
  | joined i hpc hi =>
    refine hsame rfl rfl rfl (by rw [hpc]; rfl) ?_
    simp only [mainGoto, hpc, MainPc.rank]
    omega
  | destroyUnlock hpc =>
    refine hsame rfl rfl rfl (by rw [hpc]; rfl) ?_
    simp only [mainGoto, setOwner, hpc, MainPc.rank]
    omega
  | drained hpc hh => exact hsame rfl rfl rfl (by rw [hpc]; rfl) (by simp [hpc, MainPc.rank])
  | destroyFree hpc => exact hsame rfl rfl rfl (by rw [hpc]; rfl) (by simp [hpc, MainPc.rank])
  | destroy hpc => exact hsame rfl rfl rfl (by rw [hpc]; rfl) (by simp [hpc, MainPc.rank])
  | destroyLock hpc hfree =>
    exact hsame rfl rfl rfl (by rw [hpc]; rfl) (by simp [hpc, MainPc.rank])
  | destroyShutdown hpc => exact hsame rfl rfl rfl (by rw [hpc]; rfl) (by simp [hpc, MainPc.rank])
  | _ => simp_all [MainPc.destroying]

end Pool
