import RobotDialog.Pool.Bound
import Mathlib.Algebra.Order.Field.Basic
import Mathlib.Tactic.NormNum
import Mathlib.Tactic.Linarith

/-!
# The thread pool: the load

`active_threads` is counted by the workers, `thread_count` is set by the scaler.  A worker that a
scale down has dropped from its slot goes on with its task and may take another one; the load counts
it among the active threads, `thread_count` does not count it any more.

* `threadPoolGetLoadPercentage`  the load for the monitor, which loads the two fields without the
                                 mutex;
* `State.stray`, `State.occupied`   the active workers without and with a slot;
* `LoadInv`                      what a scale down knows of the load, and the bound;
* `load_sound`                   the load is at most one in every run whose workers take a task only
                                 when a slot is left for them;
* `ReachableBy.roomToTake`       a slot is left when no scale down drops a busy worker and no dropped
                                 worker takes a task;
* `load_exceeds`                 four active threads of three.
-/

set_option linter.unusedSimpArgs false

namespace Pool
open State Lts Finset

variable {fl : ℚ → ℚ} {s s' : State} {w c : Nat}

/-! ## the load -/

/-- `thread_pool_get_load_percentage` on the values that it loads -/
def loadPercentage (active : Int) (total : Nat) : Int :=
  if total = 0 then 0 else (active * 100).tdiv total

def threadPoolGetLoadPercentage : Option ThreadPool → Int
  | none => 0
  | some p => loadPercentage p.activeThreads p.threadCount

theorem loadPercentage_range {active : Int} {total : Nat} (h0 : 0 ≤ active) (h : active ≤ total) :
    0 ≤ loadPercentage active total ∧ loadPercentage active total ≤ 100 := by
  unfold loadPercentage
  split
  · omega
  · have hpos : (0 : Int) < total := by omega
    rw [Int.tdiv_eq_ediv_of_nonneg (by omega)]
    exact ⟨Int.ediv_nonneg (by omega) hpos.le, Int.ediv_le_of_le_mul hpos (by omega)⟩

/-- what is used of the `float` division: it is monotone, and exact for a half and for one -/
structure Rounding (fl : ℚ → ℚ) : Prop where
  mono : Monotone fl
  half : fl (1 / 2) = 1 / 2
  one : fl 1 = 1

theorem Rounding.id : Rounding id := ⟨monotone_id, rfl, rfl⟩

theorem Rounding.ratio_le_one (h : Rounding fl) {active : Int} {total : Nat} (hpos : 0 < total)
    (hle : active ≤ total) : fl (active / total) ≤ 1 := by
  have hratio : (active : ℚ) / total ≤ 1 := by
    rw [div_le_one (by exact_mod_cast hpos)]
    exact_mod_cast hle
  calc fl (active / total) ≤ fl 1 := h.mono hratio
    _ = 1 := h.one

theorem Rounding.lt_half (h : Rounding fl) {active : Int} {current : Nat} (hpos : 0 < current)
    (hb : loadBelow fl active current = true) : 2 * active < current := by
  unfold loadBelow at hb
  rw [if_neg (by omega)] at hb
  by_contra hge
  have hratio : (1 : ℚ) / 2 ≤ active / current := by
    rw [div_le_div_iff₀ (by norm_num) (by exact_mod_cast hpos)]
    have : (current : Int) ≤ 2 * active := by omega
    have : (current : ℚ) ≤ 2 * active := by exact_mod_cast this
    linarith
  have hfl := h.mono hratio
  rw [h.half] at hfl
  have hb' : fl (active / current) < scaleDownThreshold := of_decide_eq_true hb
  unfold scaleDownThreshold at hb'
  linarith

/-- **A scale down leaves slots for the active threads.** -/
theorem active_le_target (h : Rounding fl) {p : ThreadPool} (hdown : scalesDown fl p = true) :
    p.activeThreads ≤ scaleDownTarget p := by
  simp only [scalesDown, Bool.and_eq_true, decide_eq_true_eq] at hdown
  obtain ⟨⟨hb, -⟩, hgt⟩ := hdown
  have hhalf := h.lt_half (by omega) hb
  unfold scaleDownTarget
  omega

/-! ## active workers with and without a slot -/

/-- the active workers that no slot below `thread_count` refers to -/
def State.stray (s : State) : Nat :=
  ((range s.created).filter fun v => (s.workers v).pc.active = true ∧ s.inSlot v = false).card

/-- the slots below `thread_count` whose worker is active -/
def State.occupied (s : State) : Nat :=
  ((range s.created).filter fun v => (s.workers v).pc.active = true ∧ s.inSlot v = true).card

theorem active_split (s : State) : s.count WorkerPc.active = s.occupied + s.stray := by
  unfold State.count State.occupied State.stray
  rw [← card_filter_add_card_filter_not (fun v => s.inSlot v = true), filter_filter, filter_filter]
  simp only [Bool.not_eq_true]

/-- the guard of the runs in which a worker counts a task as active only if fewer active workers
are without a slot than there are slots whose worker is idle -/
def RoomToTake (s : State) : Label → Prop
  | .worker w .run => ∀ task, (s.workers w).pc = .incActive task →
      s.stray < s.pool.threadCount - s.occupied
  | _ => True

theorem room_iff (hcnt : CounterInv s) :
    s.pool.activeThreads + 1 ≤ s.pool.threadCount ↔
      s.stray < s.pool.threadCount - s.occupied := by
  have hactive := hcnt.active
  have hsplit := active_split s
  omega

/-! ## the invariant -/

/-- a scale down in progress has seen no more active threads than its target -/
def CallerPc.LoadOk (active : Int) : CallerPc → Prop
  | .scaleDown _ new _ | .scaleStoreCount new _ => active ≤ new
  | _ => True

theorem CallerPc.loadOk_of_not_holds {p : CallerPc} (h : p.holds = false) (active : Int) :
    p.LoadOk active := by
  cases p <;> trivial

structure LoadInv (s : State) : Prop where
  scale : ∀ d, (s.callers d).pc.LoadOk s.pool.activeThreads
  bound : s.pool.activeThreads ≤ s.pool.threadCount

theorem LoadInv.start (minThreads maxThreads initial : Nat) (now : Int) :
    LoadInv (startState minThreads maxThreads initial now) where
  scale _ := trivial
  bound := by
    show (0 : Int) ≤ initial
    omega

theorem loadOk_of_worker (hM : MutexInv s) (hw : (s.workers w).pc.holds = true) (d : Nat)
    (active : Int) : (s.callers d).pc.LoadOk active := by
  refine CallerPc.loadOk_of_not_holds ?_ active
  by_contra h
  have hd : s.holds (.caller d) = true := by simpa [holds] using h
  have hw' : s.holds (.worker w) = true := hw
  cases hM.excl hd hw'

theorem incActive_label {a : WorkerAct} {task : Ptr} (hpc : (s.workers w).pc = .incActive task)
    (hst : workerStep s w a = some s') : a = .run := by
  unfold workerStep at hst
  rw [hpc] at hst
  cases a with
  | run => rfl
  | _ => cases hst

theorem LoadInv.worker_step (hM : MutexInv s) (hcnt : CounterInv s) (h : LoadInv s)
    {a : WorkerAct} (hG : RoomToTake s (.worker w a)) (hst : workerStep s w a = some s') :
    LoadInv s' := by
  cases WorkerMove.of_step hst with
  | incActive task hpc =>
    have ha := incActive_label hpc hst
    subst ha
    have hroom := (room_iff hcnt).mpr (hG task hpc)
    exact ⟨fun d => loadOk_of_worker (w := w) hM (by rw [hpc]; rfl) d _, hroom⟩
  | decActive task hpc =>
    refine ⟨fun d => loadOk_of_worker (w := w) hM (by rw [hpc]; rfl) d _, ?_⟩
    have hb := h.bound
    show s.pool.activeThreads - 1 ≤ s.pool.threadCount
    omega
  | _ => exact ⟨h.scale, h.bound⟩

theorem scaleBranch_loadOk (hfl : Rounding fl) (p : ThreadPool) (now : Int) :
    (scaleBranch fl p now).LoadOk p.activeThreads := by
  unfold scaleBranch
  split
  · trivial
  · split
    · exact active_le_target hfl ‹_›
    · trivial

theorem LoadInv.caller_scale (h : LoadInv s) (hothers : ∀ d, d ≠ c → s'.callers d = s.callers d)
    (hactive : s'.pool.activeThreads = s.pool.activeThreads)
    (hc : (s'.callers c).pc.LoadOk s.pool.activeThreads) (d : Nat) :
    (s'.callers d).pc.LoadOk s'.pool.activeThreads := by
  rw [hactive]
  by_cases e : d = c
  · subst e
    exact hc
  · rw [hothers d e]
    exact h.scale d

theorem LoadInv.caller_step (hfl : Rounding fl) (h : LoadInv s) (hm : CallerMove fl s c s') :
    LoadInv s' := by
  have hc := h.scale c
  have hb := h.bound
  cases hm with
  | addNull hpc ho => exact ⟨h.scale, h.bound⟩
  | created i new now hpc hi =>
    refine ⟨h.caller_scale (c := c) (fun d e => by simp [e]) rfl (by simp [CallerPc.LoadOk]), ?_⟩
    show s.pool.activeThreads ≤ ((s.pool.threadCount + 1 : Nat) : Int)
    omega
  | scaleTest now hpc =>
    refine ⟨h.caller_scale (c := c) (fun d e => by simp [e]) rfl ?_, hb⟩
    simpa using scaleBranch_loadOk hfl s.pool now
  | cancel i new v now hpc hi hv =>
    rw [hpc] at hc
    exact ⟨h.caller_scale (c := c) (fun d e => by simp [e]) rfl
      (by simpa [CallerPc.LoadOk] using hc), hb⟩
  | scaleDownEnds i new now hpc =>
    rw [hpc] at hc
    exact ⟨h.caller_scale (c := c) (fun d e => by simp [e]) rfl
      (by simpa [CallerPc.LoadOk] using hc), hb⟩
  | scaleStoreCount new now hpc =>
    rw [hpc] at hc
    exact ⟨h.caller_scale (c := c) (fun d e => by simp [e]) rfl (by simp [CallerPc.LoadOk]), hc⟩
  | _ =>
    exact ⟨h.caller_scale (c := c) (fun d e => by simp [e]) rfl (by simp [CallerPc.LoadOk]), hb⟩

theorem LoadInv.main_step (h : LoadInv s) (hm : MainMove s s') : LoadInv s' := by
  cases hm <;> exact ⟨h.scale, h.bound⟩

theorem ReachableBy.load {minThreads maxThreads initial : Nat} (hfl : Rounding fl)
    (h : ReachableBy fl RoomToTake minThreads maxThreads initial s) : LoadInv s :=
  h.inv LoadInv (fun now _ _ => LoadInv.start _ _ _ now)
    fun s l s' hr hI hG hst => by
      cases l with
      | worker w a => exact hI.worker_step hr.mutex hr.counters hG hst
      | caller c a => exact hI.caller_step hfl (.of_step hst)
      | main a => exact hI.main_step (.of_step hst)

/-! ## where the room comes from -/

/-- the guard of the runs in which no scale down drops a busy worker from its slot, and no dropped
worker takes a task -/
structure KeepsBusy (s : State) (l : Label) : Prop where
  dropsIdle : ∀ c a new now, l = .caller c a → (s.callers c).pc = .scaleStoreCount new now →
    ∀ i v, new ≤ i → i < s.pool.threadCount → s.pool.threads i = some v →
      (s.workers v).pc.active = false
  takesInSlot : ∀ w a task, l = .worker w a → (s.workers w).pc = .incActive task →
    s.inSlot w = true

/-- every active worker has a slot; and a slot that the creation has not come to is empty -/
structure BusyInv (s : State) : Prop where
  slot : ∀ v, (s.workers v).pc.active = true → s.inSlot v = true
  empty : ∀ i n, s.main = .create i n → ∀ j, i ≤ j → s.pool.threads j = none

theorem BusyInv.start (minThreads maxThreads initial : Nat) (now : Int) :
    BusyInv (startState minThreads maxThreads initial now) where
  slot v h := by cases h
  empty i n h j hj := rfl

theorem WorkerPc.Pushed.was_active {p q : WorkerPc} (h : p.Pushed q) (hq : q.active = true) :
    p.active = true :=
  (h.view WorkerPc.active rfl rfl) ▸ hq

theorem WorkerMove.was_active (hm : WorkerMove s w s') (h : (s'.workers w).pc.active = true) :
    (s.workers w).pc.active = true ∨ ∃ task, (s.workers w).pc = .incActive task := by
  cases hm with
  | incActive task hpc => exact .inr ⟨task, hpc⟩
  | cancelPass x hpc hd hx hb =>
    have hne : w ≠ x := fun e => hx e.symm
    simp [hne, WorkerPc.active] at h
  | _ => simp_all [WorkerPc.active]

theorem inSlot_congr (ht : s'.pool.threads = s.pool.threads)
    (hn : s'.pool.threadCount = s.pool.threadCount) (v : Nat) : s'.inSlot v = s.inSlot v := by
  unfold State.inSlot
  rw [ht, hn]

theorem inSlot_create {i n v : Nat} (hn : s.pool.threadCount ≤ n)
    (hi : ∀ j, j < s.pool.threadCount → s.pool.threads j = some v → j ≠ i)
    (ht : s'.pool.threads = Function.update s.pool.threads i (some s.created))
    (hcount : s'.pool.threadCount = n) (h : s.inSlot v = true) : s'.inSlot v = true := by
  obtain ⟨j, hj, hv⟩ := inSlot_iff.mp h
  refine inSlot_iff.mpr ⟨j, by omega, ?_⟩
  rw [ht, Function.update_of_ne (hi j hj hv), hv]

theorem BusyInv.worker_step (h : BusyInv s) {a : WorkerAct} (hG : KeepsBusy s (.worker w a))
    (hst : workerStep s w a = some s') : BusyInv s' := by
  have hm := WorkerMove.of_step hst
  have ht : s'.pool.threads = s.pool.threads := by cases hm <;> rfl
  have hn : s'.pool.threadCount = s.pool.threadCount := by cases hm <;> rfl
  have hmain : s'.main = s.main := by cases hm <;> rfl
  refine ⟨fun v hv => ?_, fun i n hi => ?_⟩
  · rw [inSlot_congr ht hn]
    by_cases e : v = w
    · subst e
      rcases hm.was_active hv with hactive | ⟨task, hpc⟩
      · exact h.slot v hactive
      · exact hG.takesInSlot v a task rfl hpc
    · exact h.slot v ((hm.pushed e).was_active hv)
  · rw [ht]
    exact h.empty i n (hmain ▸ hi)

theorem BusyInv.caller_step (hC : CreatedInv s) (hcon : ControlInv s) (hsl : SlotInv s)
    (h : BusyInv s) {a : CallerAct} (hG : KeepsBusy s (.caller c a))
    (hst : callerStep fl s c a = some s') : BusyInv s' := by
  have hm := CallerMove.of_step hst
  have hwas : ∀ v, (s'.workers v).pc.active = true → s.inSlot v = true := fun v hv =>
    h.slot v ((hm.pushed hC v).was_active hv)
  have hopen := hm.not_creating hcon
  refine ⟨fun v hv => ?_, fun i n hi => ?_⟩
  · have hin := hwas v hv
    cases hm with
    | created i new now hpc hi =>
      have hscale := hsl.scale c
      rw [hpc] at hscale
      exact inSlot_create (Nat.le_succ _) (fun j hj _ => by have := hscale.1; omega) rfl rfl hin
    | scaleStoreCount new now hpc =>
      obtain ⟨i, hi, hslot⟩ := inSlot_iff.mp hin
      refine inSlot_iff.mpr ⟨i, ?_, hslot⟩
      by_contra hge
      have hidle := hG.dropsIdle c a new now rfl hpc i v (not_lt.mp hge) hi hslot
      have hactive : (s.workers v).pc.active = true := hv
      rw [hidle] at hactive
      cases hactive
    | _ => exact hin
  · have hmain : s'.main = s.main := by cases hm <;> rfl
    exact absurd (hmain ▸ hi) (MainPc.ne_create hopen i n)

theorem BusyInv.main_step (hC : CreatedInv s) (h : BusyInv s) (hm : MainMove s s') :
    BusyInv s' := by
  have hwas : ∀ v, (s'.workers v).pc.active = true → s.inSlot v = true := fun v hv =>
    h.slot v ((hm.pushed hC v).was_active hv)
  cases hm with
  | created i initial hpc hi =>
    have hempty := h.empty i initial hpc
    refine ⟨fun v hv => ?_, fun k n hk j hj => ?_⟩
    · refine inSlot_create le_rfl (fun j hj hslot e => ?_) rfl rfl (hwas v hv)
      rw [hempty j e.ge] at hslot
      cases hslot
    · obtain ⟨rfl, -⟩ := MainPc.create.inj hk
      show Function.update s.pool.threads i (some s.created) j = none
      rw [Function.update_of_ne (by omega)]
      exact hempty j (by omega)
  | drain task t hpc hq ht => exact ⟨hwas, h.empty⟩
  | _ => exact ⟨hwas, fun k n hk => by cases hk⟩

theorem ReachableBy.busy {minThreads maxThreads initial : Nat}
    (h : ReachableBy fl KeepsBusy minThreads maxThreads initial s) : BusyInv s :=
  h.inv BusyInv (fun now _ _ => BusyInv.start _ _ _ now) fun s l s' hr hI hG hst => by
    cases l with
    | worker w a => exact hI.worker_step hG hst
    | caller c a => exact hI.caller_step hr.created hr.control hr.slots hG hst
    | main a => exact hI.main_step hr.created (.of_step hst)

theorem occupied_lt (hin : s.inSlot w = true) (hidle : (s.workers w).pc.active = false) :
    s.occupied < s.pool.threadCount := by
  have hnot : w ∉ (range s.created).filter fun v =>
      (s.workers v).pc.active = true ∧ s.inSlot v = true := by
    rw [mem_filter, hidle]
    rintro ⟨-, h, -⟩
    cases h
  have hsub : insert w ((range s.created).filter fun v =>
      (s.workers v).pc.active = true ∧ s.inSlot v = true) ⊆
        (range s.pool.threadCount).image fun i => (s.pool.threads i).getD 0 := by
    intro v hv
    have hslot : s.inSlot v = true := by
      rcases mem_insert.mp hv with rfl | hv
      · exact hin
      · exact (mem_filter.mp hv).2.2
    obtain ⟨i, hi, he⟩ := inSlot_iff.mp hslot
    exact mem_image.mpr ⟨i, mem_range.mpr hi, by rw [he]; rfl⟩
  have hcard := (card_le_card hsub).trans card_image_le
  rw [card_insert_of_notMem hnot, card_range] at hcard
  exact hcard

/-- **Where the room comes from**: there is room as long as no scale down drops a busy worker and no
dropped worker takes a task. -/
theorem ReachableBy.roomToTake {minThreads maxThreads initial : Nat}
    (h : ReachableBy fl KeepsBusy minThreads maxThreads initial s) :
    ReachableBy fl RoomToTake minThreads maxThreads initial s := by
  refine h.guard fun s l s' hr hG hst => ?_
  unfold RoomToTake
  split
  · rename_i w
    intro task hpc
    have hstray : s.stray = 0 := by
      unfold State.stray
      rw [card_eq_zero, filter_eq_empty_iff]
      rintro v - ⟨hactive, hin⟩
      rw [hr.busy.slot v hactive] at hin
      cases hin
    have hroom := occupied_lt (hG.takesInSlot w .run task rfl hpc) (by rw [hpc]; rfl)
    omega
  · trivial

/-! ## two loads -/

/-- the guard of the runs in which no scale down stores its target -/
def KeepsCount (s : State) : Label → Prop
  | .caller c _ => ∀ new now, (s.callers c).pc ≠ .scaleStoreCount new now
  | _ => True

theorem threadCount_le (h : Reach (step fl) KeepsCount s s') :
    s.pool.threadCount ≤ s'.pool.threadCount := by
  refine h.inv (fun t => s.pool.threadCount ≤ t.pool.threadCount) le_rfl
    fun t l t' _ hI hG hst => ?_
  cases l with
  | worker w a => cases WorkerMove.of_step hst <;> exact hI
  | caller c a =>
    cases CallerMove.of_step hst with
    | created i new now hpc hi => exact hI.trans (Nat.le_succ _)
    | scaleStoreCount new now hpc => exact absurd hpc (hG new now)
    | _ => exact hI
  | main a => cases MainMove.of_step hst <;> exact hI

/-! ## the bound -/

/-- **The load is at most one** in every run whose workers count a task only while fewer active
workers are without a slot than there are slots whose worker is idle, and the percentage is between
0 and 100, also when a step that does not store a lower count falls between its two loads.  And this
is what it takes: a worker that counts its task keeps the bound exactly if there was room. -/
theorem load_sound (fl : ℚ → ℚ) (minThreads maxThreads initial : Nat) (hfl : Rounding fl)
    (hmin : 1 ≤ minThreads) :
    (∀ s, ReachableBy fl RoomToTake minThreads maxThreads initial s →
      s.pool.activeThreads ≤ s.pool.threadCount ∧
      fl (s.pool.activeThreads / s.pool.threadCount) ≤ 1 ∧
      0 ≤ threadPoolGetLoadPercentage (some s.pool) ∧
      threadPoolGetLoadPercentage (some s.pool) ≤ 100 ∧
      ∀ s', Reach (step fl) KeepsCount s s' →
        0 ≤ loadPercentage s.pool.activeThreads s'.pool.threadCount ∧
        loadPercentage s.pool.activeThreads s'.pool.threadCount ≤ 100) ∧
    ∀ s s' w task, Reachable fl minThreads maxThreads initial s →
      (s.workers w).pc = .incActive task → step fl (.worker w .run) s = some s' →
      (s'.pool.activeThreads ≤ s'.pool.threadCount ↔
        s.stray < s.pool.threadCount - s.occupied) := by
  constructor
  · intro s h
    have hbound := (h.load hfl).bound
    have hactive : 0 ≤ s.pool.activeThreads := by
      have := h.counters.active
      omega
    have hpos : 0 < s.pool.threadCount := by
      have h1 := h.slots.bounds.1
      have h2 := h.limits.1
      omega
    obtain ⟨hlow, hhigh⟩ := loadPercentage_range hactive hbound
    refine ⟨hbound, hfl.ratio_le_one hpos hbound, hlow, hhigh, fun s' hs' => ?_⟩
    have hle := threadCount_le hs'
    exact loadPercentage_range hactive (by omega)
  · intro s s' w task h hpc hst
    rw [← room_iff h.counters]
    simp only [step, workerStep, hpc, Option.some.injEq] at hst
    rw [← hst]
    rfl

/-- Worker 3 of four is busy when a scale down drops it. -/
def dropBusyRun : List Label :=
  List.replicate 4 (.main (.result true)) ++ [.main .run] ++ addTaskRun 1 100 1 ++ takeTaskRun 3 ++
    addTaskRun 2 200 2 ++ [.caller 0 .run, .caller 0 .run, .caller 0 (.result true),
    .caller 0 .run, .caller 0 .run, .caller 0 .run, .caller 0 .run]

/-- Two more tasks, and the three workers that have kept their slots take one each. -/
def allBusyRun : List Label :=
  dropBusyRun ++ addTaskRun 3 300 3 ++ addTaskRun 4 400 3 ++ takeTaskRun 0 ++ takeTaskRun 1 ++
    takeTaskRun 2

/-- **Four active threads of three**, 133 per cent. -/
theorem load_exceeds : ∃ s, Reachable id 1 4 4 s ∧ s.owner = none ∧
    s.pool.threadCount < s.pool.activeThreads ∧
    1 < id ((s.pool.activeThreads : ℚ) / s.pool.threadCount) ∧
    threadPoolGetLoadPercentage (some s.pool) = 133 := by
  have hrun : (exec (step id) (startState 1 4 4 0) allBusyRun).map (fun s =>
      (s.owner, s.pool.activeThreads, s.pool.threadCount)) = some (none, 4, 3) := by
    decide +kernel
  obtain ⟨s, hs, hv⟩ := Option.map_eq_some_iff.mp hrun
  simp only [Prod.mk.injEq] at hv
  obtain ⟨hfree, hactive, hcount⟩ := hv
  refine ⟨s, ⟨0, true, true, true, _, rfl, Reach.of_exec allBusyRun hs⟩, hfree, ?_, ?_, ?_⟩
  · rw [hactive, hcount]
    decide
  · rw [hactive, hcount]
    show (1 : ℚ) < (4 : Int) / (3 : Nat)
    norm_num
  · show loadPercentage s.pool.activeThreads s.pool.threadCount = 133
    rw [hactive, hcount]
    decide

def roomToTake (s : State) : Label → Bool
  | .worker w .run =>
    match (s.workers w).pc with
    | .incActive _ => decide (s.stray < s.pool.threadCount - s.occupied)
    | _ => true
  | _ => true

theorem roomToTake_sound (s : State) (l : Label) (h : roomToTake s l = true) : RoomToTake s l := by
  unfold roomToTake at h
  split at h
  · intro task hpc
    rw [hpc] at h
    exact of_decide_eq_true h
  · unfold RoomToTake
    split
    · simp_all
    · trivial

/-- The worker that was dropped and one with a slot are busy; and the worker that takes the task too
many. -/
theorem load_sound_dropped :
    (∃ s, ReachableBy id RoomToTake 1 4 4 s ∧ s.stray = 1 ∧ s.pool.activeThreads = 2 ∧
      threadPoolGetLoadPercentage (some s.pool) ≤ 100) ∧
    ∃ s s' : State, Reachable id 1 4 4 s ∧ step id (.worker 2 .run) s = some s' ∧
      (s'.pool.activeThreads ≤ s'.pool.threadCount ↔ s.stray < s.pool.threadCount - s.occupied) := by
  constructor
  · have hrun : (exec (guarded roomToTake (step id)) (startState 1 4 4 0)
        (dropBusyRun ++ takeTaskRun 0)).map (fun s => (s.stray, s.pool.activeThreads)) =
        some (1, 2) := by decide +kernel
    obtain ⟨s, hs, hv⟩ := Option.map_eq_some_iff.mp hrun
    have hreach : ReachableBy id RoomToTake 1 4 4 s :=
      ⟨0, true, true, true, _, rfl, Reach.of_guarded (fun _ => True) roomToTake
        (fun s l _ => roomToTake_sound s l) (fun _ _ _ _ _ _ => trivial) trivial _ hs⟩
    obtain ⟨hstray, hactive⟩ := Prod.mk.inj hv
    exact ⟨s, hreach, hstray, hactive,
      ((load_sound id 1 4 4 Rounding.id le_rfl).1 s hreach).2.2.2.1⟩
  · have hrun : (exec (step id) (startState 1 4 4 0) (allBusyRun.take (allBusyRun.length - 3))).bind
        (fun s => (step id (.worker 2 .run) s).map fun s' =>
          ((s.workers 2).pc, s'.pool.activeThreads)) = some (.incActive 4, 4) := by decide +kernel
    obtain ⟨s, hs, hv⟩ := Option.bind_eq_some_iff.mp hrun
    obtain ⟨s', hs', hv⟩ := Option.map_eq_some_iff.mp hv
    have hreach : Reachable id 1 4 4 s := ⟨0, true, true, true, _, rfl, Reach.of_exec _ hs⟩
    exact ⟨s, s', hreach, hs', (load_sound id 1 4 4 Rounding.id le_rfl).2 s s' 2 4 hreach
      (Prod.mk.inj hv).1 hs'⟩

end Pool
