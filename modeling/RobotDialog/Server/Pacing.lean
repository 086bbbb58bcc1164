import Mathlib.Tactic.Linarith
import RobotDialog.Server.Shutdown

/-!
# The pace of the scaling

`thread_pool_auto_scale` compares the time with `last_scale_time` before it takes `queue_mutex`, so
two callers could both find that a pass is due.  The server has one caller, its main thread, and
there the interval between two passes is kept, whatever the clock does.

* `CallerPc.Due`      a pass that is going on has read its time an interval after the last one;
* `CallerPc.fresh`    the threads that a pass that is going on may have created;
* `PacingInv`         the number of threads ever created is bounded by the passes, and those by time;
* `scaling_paced`     the bound for every run of the server.
-/

namespace Pool
open State Lts

variable {fl : ℚ → ℚ} {s s' : State} {w c : Nat} {initial : Nat} {t₀ : Int}

/-- a pass that is going on has read its time an interval after the last one -/
def CallerPc.Due (last : Int) : CallerPc → Prop
  | .scaleLock now | .scaleTest now | .scaleUp _ _ now | .scaleDown _ _ now
  | .scaleStoreCount _ now | .scaleStoreTime now => scaleInterval ≤ now - last
  | _ => True

/-- the threads above the minimum, while a pass that may have created them is going on -/
def CallerPc.fresh (p : ThreadPool) : CallerPc → Nat
  | .scaleUp _ _ _ | .scaleStoreTime _ => p.threadCount - p.minThreads
  | _ => 0

/-- the most that a pass can create -/
def ThreadPool.span (p : ThreadPool) : Nat := p.maxThreads - p.minThreads

/-- caller 0 is the only one inside of the pool -/
def State.Alone (s : State) : Prop := ∀ d, d ≠ 0 → (s.callers d).pc = .idle

/-- The pace of a pool that was created with `initial` threads at the time `t₀`. -/
structure PacingInv (initial : Nat) (t₀ : Int) (s : State) : Prop where
  due : ∀ d, (s.callers d).pc.Due s.pool.lastScaleTime
  later : t₀ ≤ s.pool.lastScaleTime
  creating : ∀ i n, s.main = .create i n → s.created = i ∧ i ≤ n ∧ n = initial
  paced : scaleInterval * s.created ≤ scaleInterval * initial +
    s.pool.span * (s.pool.lastScaleTime - t₀) +
    scaleInterval * (s.callers 0).pc.fresh s.pool

theorem PacingInv.start (minThreads maxThreads initial : Nat) (now : Int) :
    PacingInv initial now (startState minThreads maxThreads initial now) where
  due _ := trivial
  later := le_rfl
  creating i n h := by
    cases h
    exact ⟨rfl, Nat.zero_le _, rfl⟩
  paced := by
    show (2 : Int) * (0 : Nat) ≤
      2 * initial + (maxThreads - minThreads : Nat) * (now - now) + 2 * (0 : Nat)
    rw [sub_self]
    omega

theorem CallerPc.due_idle {d : Nat} (h : (s.callers d).pc = .idle) (last : Int) :
    (s.callers d).pc.Due last := by
  rw [h]
  trivial

theorem PacingInv.worker_step (h : PacingInv initial t₀ s) (hm : WorkerMove s w s') :
    PacingInv initial t₀ s' := by
  have hcallers := hm.callers_eq
  have hmain := hm.main_eq
  have hpool : s'.pool.lastScaleTime = s.pool.lastScaleTime ∧ s'.pool.span = s.pool.span ∧
      s'.pool.threadCount = s.pool.threadCount ∧ s'.pool.minThreads = s.pool.minThreads ∧
      s'.created = s.created := by
    cases hm <;> exact ⟨rfl, rfl, rfl, rfl, rfl⟩
  obtain ⟨hlast, hspan, hcount, hmin, hcreated⟩ := hpool
  have hfresh : (s'.callers 0).pc.fresh s'.pool = (s.callers 0).pc.fresh s.pool := by
    rw [hcallers]
    cases (s.callers 0).pc <;> simp only [CallerPc.fresh, hcount, hmin]
  refine ⟨?_, ?_, ?_, ?_⟩
  · rw [hcallers, hlast]
    exact h.due
  · rw [hlast]
    exact h.later
  · rw [hmain, hcreated]
    exact h.creating
  · rw [hcreated, hspan, hlast, hfresh]
    exact h.paced

theorem PacingInv.main_step (h : PacingInv initial t₀ s)
    (hm : MainMove s s') : PacingInv initial t₀ s' := by
  have hcallers := hm.callers_eq
  have hpool : s'.pool.lastScaleTime = s.pool.lastScaleTime ∧ s'.pool.span = s.pool.span ∧
      s'.pool.threadCount = s.pool.threadCount ∧ s'.pool.minThreads = s.pool.minThreads := by
    cases hm <;> exact ⟨rfl, rfl, rfl, rfl⟩
  obtain ⟨hlast, hspan, hcount, hmin⟩ := hpool
  have hfresh : (s'.callers 0).pc.fresh s'.pool = (s.callers 0).pc.fresh s.pool := by
    rw [hcallers]
    cases (s.callers 0).pc <;> simp only [CallerPc.fresh, hcount, hmin]
  have hgrow : 0 ≤ (s.pool.span : Int) * (s.pool.lastScaleTime - t₀) :=
    mul_nonneg (by omega) (by have := h.later; omega)
  have hcreated : s'.created = s.created ∧ (∀ i n, s'.main ≠ .create i n) ∨
      ∃ i n, s.main = .create i n ∧ s'.main = .create (i + 1) n ∧ i < n ∧
        s'.created = s.created + 1 := by
    cases hm with
    | created i n hpc hi => exact .inr ⟨i, n, hpc, rfl, hi, rfl⟩
    | drain task t hpc hq ht => exact .inl ⟨rfl, fun i n e => by cases hpc.symm.trans e⟩
    | _ => exact .inl ⟨rfl, fun i n e => by cases e⟩
  refine ⟨?_, ?_, ?_, ?_⟩
  · rw [hcallers, hlast]
    exact h.due
  · rw [hlast]
    exact h.later
  · intro j m hj
    rcases hcreated with ⟨-, hno⟩ | ⟨i, n, hi, hi', hlt, hone⟩
    · exact absurd hj (hno j m)
    · obtain ⟨h1, h2, h3⟩ := h.creating i n hi
      rw [hi', MainPc.create.injEq] at hj
      omega
  · rw [hspan, hlast, hfresh]
    rcases hcreated with ⟨hsame, -⟩ | ⟨i, n, hi, hi', hlt, hone⟩
    · rw [hsame]
      exact h.paced
    · obtain ⟨h1, h2, h3⟩ := h.creating i n hi
      rw [hone]
      unfold scaleInterval
      omega

theorem CallerMove.due (h : ∀ d, (s.callers d).pc.Due s.pool.lastScaleTime)
    (hm : CallerMove fl s c s') : (s'.callers c).pc.Due s'.pool.lastScaleTime := by
  have hc := h c
  cases hm with
  | addNull hpc ho => exact hc
  | scaleDue now hpc ht => simpa [CallerPc.Due] using ht
  | scaleLock now hpc hfree => simpa [CallerPc.Due, hpc] using hc
  | scaleTest now hpc =>
    rw [hpc] at hc
    simp only [callerGoto, Function.update_self, scaleBranch]
    split
    · exact hc
    · split <;> exact hc
  | created i new now hpc hi => simpa [CallerPc.Due, hpc] using hc
  | scaleUpEnds i new now hpc => simpa [CallerPc.Due, hpc] using hc
  | cancel i new v now hpc hi hv => simpa [CallerPc.Due, hpc] using hc
  | scaleDownEnds i new now hpc => simpa [CallerPc.Due, hpc] using hc
  | scaleStoreCount new now hpc => simpa [CallerPc.Due, hpc] using hc
  | _ => simp [CallerPc.Due]

/-- A caller that is outside of the pool can only begin a call. -/
theorem CallerMove.begins (hidle : (s.callers c).pc = .idle) (hm : CallerMove fl s c s') :
    s.main.opened = true ∧ s'.pool = s.pool ∧ s'.created = s.created := by
  cases hm with
  | addNull hpc ho => exact ⟨ho, rfl, rfl⟩
  | addTask f argument hpc ho => exact ⟨ho, rfl, rfl⟩
  | autoScale hpc ho => exact ⟨ho, rfl, rfl⟩
  | _ => simp_all

/-- What a step of a caller does to the number of threads and to the time of the last pass. -/
inductive Paced (s : State) (c : Nat) (s' : State) : Prop
  | creates (hfresh : (s.callers c).pc.fresh s.pool = s.pool.threadCount - s.pool.minThreads)
      (hfresh' : (s'.callers c).pc.fresh s'.pool = s.pool.threadCount + 1 - s.pool.minThreads)
      (hcreated : s'.created = s.created + 1) (hspan : s'.pool.span = s.pool.span)
      (hlast : s'.pool.lastScaleTime = s.pool.lastScaleTime)
  | ends (now : Int) (hfresh : (s.callers c).pc.fresh s.pool = s.pool.threadCount - s.pool.minThreads)
      (hdue : scaleInterval ≤ now - s.pool.lastScaleTime) (hcreated : s'.created = s.created)
      (hspan : s'.pool.span = s.pool.span) (hlast : s'.pool.lastScaleTime = now)
  | quiet (hfresh : (s.callers c).pc.fresh s.pool ≤ (s'.callers c).pc.fresh s'.pool)
      (hcreated : s'.created = s.created) (hspan : s'.pool.span = s.pool.span)
      (hlast : s'.pool.lastScaleTime = s.pool.lastScaleTime)

theorem CallerMove.paced (h : ∀ d, (s.callers d).pc.Due s.pool.lastScaleTime)
    (hm : CallerMove fl s c s') : Paced s c s' := by
  have hc := h c
  cases hm with
  | created i new now hpc hi =>
    refine .creates (by rw [hpc]; rfl) ?_ rfl rfl rfl
    simp only [callerGoto, Function.update_self, CallerPc.fresh]
    rfl
  | scaleUpEnds i new now hpc =>
    refine .quiet ?_ rfl rfl rfl
    rw [hpc]
    simp only [callerGoto, Function.update_self, CallerPc.fresh]
    exact le_rfl
  | scaleStoreTime now hpc =>
    rw [hpc] at hc
    exact .ends now (by rw [hpc]; rfl) hc rfl rfl rfl
  | _ =>
    refine .quiet ?_ rfl rfl rfl
    clear h hc
    simp [CallerPc.fresh, *]

theorem CallerMove.lastScaleTime (h : ∀ d, (s.callers d).pc.Due s.pool.lastScaleTime)
    (hm : CallerMove fl s c s') : s'.pool.lastScaleTime = s.pool.lastScaleTime ∨
      s.pool.lastScaleTime + scaleInterval ≤ s'.pool.lastScaleTime := by
  cases hm.paced h with
  | creates _ _ _ _ hlast => exact .inl hlast
  | ends now _ hdue _ _ hlast => exact .inr (by omega)
  | quiet _ _ _ hlast => exact .inl hlast

/-- A step of caller 0: what it adds to the threads it adds to the bound. -/
theorem PacingInv.paced_step (hS : SlotInv s) (h : PacingInv initial t₀ s)
    (hm : CallerMove fl s 0 s') :
    scaleInterval * s'.created ≤ scaleInterval * initial +
      s'.pool.span * (s'.pool.lastScaleTime - t₀) +
      scaleInterval * (s'.callers 0).pc.fresh s'.pool := by
  have hpaced := h.paced
  obtain ⟨hmin, hmax⟩ := hS.bounds
  cases hm.paced h.due with
  | creates hfresh hfresh' hcreated hspan hlast =>
    rw [hfresh] at hpaced
    rw [hfresh', hcreated, hspan, hlast]
    unfold scaleInterval at hpaced ⊢
    omega
  | ends now hfresh hdue hcreated hspan hlast =>
    rw [hfresh] at hpaced
    rw [hcreated, hspan, hlast]
    have hle : s.pool.threadCount - s.pool.minThreads ≤ s.pool.span := by
      unfold ThreadPool.span
      omega
    have hmul : (s.pool.span : Int) * (s.pool.lastScaleTime - t₀) + s.pool.span * scaleInterval ≤
        s.pool.span * (now - t₀) := by
      rw [← mul_add]
      exact mul_le_mul_of_nonneg_left (by omega) (Int.natCast_nonneg _)
    unfold scaleInterval at hpaced hmul ⊢
    omega
  | quiet hfresh hcreated hspan hlast =>
    rw [hcreated, hspan, hlast]
    unfold scaleInterval at hpaced ⊢
    omega

theorem PacingInv.caller_step (hcon : ControlInv s) (halone : s.Alone) (hS : SlotInv s)
    (h : PacingInv initial t₀ s) (hm : CallerMove fl s c s') : PacingInv initial t₀ s' := by
  have hother : ∀ d, d ≠ c → s'.callers d = s.callers d := fun d hd => hm.callers_of_ne hd
  have htime := hm.lastScaleTime h.due
  refine ⟨fun d => ?_, ?_, ?_, ?_⟩
  · by_cases hd : d = c
    · subst hd
      exact hm.due h.due
    · rw [hother d hd]
      by_cases hc : c = 0
      · subst hc
        exact CallerPc.due_idle (halone d hd) _
      · rw [(hm.begins (halone c hc)).2.1]
        exact h.due d
  · have := h.later
    unfold scaleInterval at htime
    omega
  · -- nobody is in a pool that is being created
    rw [hm.main_eq]
    intro i n hi
    have hcr : s.main.creating = true := by rw [hi]; rfl
    obtain ⟨hopen, -, -⟩ := hm.begins ((hcon.quiet hcr).1 c)
    rw [MainPc.not_opened_of_creating hcr] at hopen
    cases hopen
  · by_cases hc : c = 0
    · subst hc
      exact h.paced_step hS hm
    · obtain ⟨-, hpool, hcreated⟩ := hm.begins (halone c hc)
      rw [hpool, hcreated, hother 0 (Ne.symm hc)]
      exact h.paced

/-- **One step keeps the pace.** -/
theorem PacingInv.step (hcon : ControlInv s) (halone : s.Alone) (hS : SlotInv s)
    (h : PacingInv initial t₀ s) {l : Label} (hst : Pool.step fl l s = some s') :
    PacingInv initial t₀ s' ∧ (s'.pool.lastScaleTime = s.pool.lastScaleTime ∨
      s.pool.lastScaleTime + scaleInterval ≤ s'.pool.lastScaleTime) := by
  cases l with
  | worker w a =>
    have hm := WorkerMove.of_step hst
    refine ⟨h.worker_step hm, .inl ?_⟩
    cases hm <;> rfl
  | caller c a =>
    have hm := CallerMove.of_step hst
    exact ⟨h.caller_step hcon halone hS hm, hm.lastScaleTime h.due⟩
  | main a =>
    have hm := MainMove.of_step hst
    refine ⟨h.main_step hm, .inl ?_⟩
    cases hm <;> rfl

end Pool

namespace Server
open Lts
open Pool (PacingInv scaleInterval)

variable {fl : ℚ → ℚ} {s s' : State} {minThreads maxThreads initial : Nat} {now : Int}
  {mallocOk mutexOk condOk : Bool} {p₀ : Pool.State}

theorem pacing_step (hs : Reachable fl minThreads maxThreads initial s)
    (h : PacingInv initial now s.pool) {l : Label} (hst : step fl l s = some s') :
    PacingInv initial now s'.pool ∧ (s'.pool.pool.lastScaleTime = s.pool.pool.lastScaleTime ∨
      s.pool.pool.lastScaleTime + scaleInterval ≤ s'.pool.pool.lastScaleTime) := by
  have hpool := hs.pool
  rcases (Move.of_step hst).pool hs.phase with he | ⟨pl, -, hp⟩
  · rw [he]
    exact ⟨h, .inl rfl⟩
  · exact h.step hpool.control hs.phase.others hpool.slots hp

theorem Reachable.pacing
    (hc : Pool.threadPoolCreateWithLimits minThreads maxThreads initial now mallocOk mutexOk condOk =
      some p₀)
    (hr : Reach (step fl) Any (startState p₀) s) : PacingInv initial now s.pool := by
  obtain ⟨-, -, rfl⟩ := Pool.create_eq hc
  exact hr.inv (fun s => PacingInv initial now s.pool) (PacingInv.start _ _ _ now)
    fun s l s' hs h _ hst => (pacing_step ⟨now, _, _, _, _, hc, hs⟩ h hst).1

/-- **The pace of the scaling.**  In every run of the server, whatever the clock does: a time of the
last pass is followed by one that is an interval later or more, and the threads ever created are at
most the initial ones and `maxThreads - minThreads` for each interval that the time of the last pass
has gone on, and as many again for a pass that is going on. -/
theorem scaling_paced (fl : ℚ → ℚ) (minThreads maxThreads initial : Nat) (now : Int)
    (mallocOk mutexOk condOk : Bool) (p₀ : Pool.State) (s s' : State)
    (hc : Pool.threadPoolCreateWithLimits minThreads maxThreads initial now mallocOk mutexOk condOk =
      some p₀)
    (hr : Reach (step fl) Any (startState p₀) s) (hr' : Reach (step fl) Any s s') :
    (s'.pool.pool.lastScaleTime = s.pool.pool.lastScaleTime ∨
      s.pool.pool.lastScaleTime + scaleInterval ≤ s'.pool.pool.lastScaleTime) ∧
    scaleInterval * s.pool.created ≤ scaleInterval * (initial + (maxThreads - minThreads : Nat)) +
      (maxThreads - minThreads : Nat) * (s.pool.pool.lastScaleTime - now) := by
  have hs : Reachable fl minThreads maxThreads initial s := ⟨now, _, _, _, _, hc, hr⟩
  constructor
  · have hrun : Reach (step fl) Any (startState p₀) s' ∧
        (s'.pool.pool.lastScaleTime = s.pool.pool.lastScaleTime ∨
          s.pool.pool.lastScaleTime + scaleInterval ≤ s'.pool.pool.lastScaleTime) := by
      refine hr'.inv (fun t => Reach (step fl) Any (startState p₀) t ∧
        (t.pool.pool.lastScaleTime = s.pool.pool.lastScaleTime ∨
          s.pool.pool.lastScaleTime + scaleInterval ≤ t.pool.pool.lastScaleTime))
        ⟨hr, .inl rfl⟩ fun t l t' _ ht _ hst => ?_
      obtain ⟨hrt, hlast⟩ := ht
      have hone := (pacing_step ⟨now, _, _, _, _, hc, hrt⟩ (Reachable.pacing hc hrt) hst).2
      refine ⟨hrt.next l trivial hst, ?_⟩
      unfold scaleInterval at hlast hone ⊢
      omega
    exact hrun.2
  · have hpaced := (Reachable.pacing hc hr).paced
    have hbounds := hs.pool.slots.bounds
    obtain ⟨hmin, hmax⟩ := hs.pool.limits
    have hspan : s.pool.pool.span = maxThreads - minThreads := by
      unfold Pool.ThreadPool.span
      rw [hmin, hmax]
    have hfresh : (s.pool.callers 0).pc.fresh s.pool.pool ≤ maxThreads - minThreads := by
      cases (s.pool.callers 0).pc <;> simp only [Pool.CallerPc.fresh] <;> omega
    rw [hspan] at hpaced
    unfold scaleInterval at hpaced ⊢
    omega

/-- a connection is accepted and its task added, up to the test of the scale interval -/
def acceptTaskRun (p : Pool.Ptr) (now : Int) : List Label :=
  [.main .run, .main (.result true), .main (.result true), .main .run,
    .main (.add (.malloc (some p)))] ++ List.replicate 4 (.main (.add .run)) ++
    [.main (.add (.wake none)), .main (.add .run), .main (.add (.time now))]

/-- Twelve connections come at once, the only worker serves the first; the pass that begins with the
last one, ten seconds behind the creation, creates a second worker. -/
def scaleUpRun : List Label :=
  [.main (.create (.result true)), .main (.create .run), .main .run, .main .run,
    .main (.epoll (.ready 12))] ++ acceptTaskRun 1 1 ++ List.replicate 10 (.worker 0 .run) ++
    [.worker 0 (.clock ⟨0, 0⟩)] ++ (List.range 10).flatMap (fun k => acceptTaskRun (k + 2) 1) ++
    acceptTaskRun 12 10 ++ [.main (.add .run), .main (.add .run), .main (.add (.result true))]

theorem scaling_paced_scaleUpRun :
    ∃ s s' : State, s.pool.created = 2 ∧ s.pool.pool.lastScaleTime = 0 ∧
      s'.pool.pool.lastScaleTime = 10 ∧
      (s'.pool.pool.lastScaleTime = s.pool.pool.lastScaleTime ∨
        s.pool.pool.lastScaleTime + scaleInterval ≤ s'.pool.pool.lastScaleTime) ∧
      scaleInterval * s.pool.created ≤ scaleInterval * (1 + (2 - 1 : Nat)) +
        (2 - 1 : Nat) * (s.pool.pool.lastScaleTime - 0) := by
  have hrun : ((exec (step id) (startState (Pool.startState 1 2 1 0)) scaleUpRun).bind fun s =>
      (exec (step id) s (List.replicate 3 (.main (.add .run)))).map fun s' =>
        (s.pool.created, s.pool.pool.lastScaleTime, s'.pool.pool.lastScaleTime)) =
      some (2, 0, 10) := by decide +kernel
  obtain ⟨s, hs, hv⟩ := Option.bind_eq_some_iff.mp hrun
  obtain ⟨s', hs', hv⟩ := Option.map_eq_some_iff.mp hv
  simp only [Prod.mk.injEq] at hv
  obtain ⟨hcreated, hlast, hlast'⟩ := hv
  exact ⟨s, s', hcreated, hlast, hlast', scaling_paced id 1 2 1 0 true true true _ s s' rfl
    (Reach.of_exec _ hs) (Reach.of_exec _ hs')⟩

end Server
