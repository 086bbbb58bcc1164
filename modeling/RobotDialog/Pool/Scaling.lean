import RobotDialog.Pool.Step

/-!
# The thread pool: one scaling pass as a function

`thread_pool_auto_scale` as a function of what it sees: the clock, the two counters that the workers
and the other callers change, and the results of its `pthread_create` and `pthread_cancel` calls.

* `threadPoolAutoScale`   a pass: the pool it leaves and the calls it has made;
* `scalePasses`           a sequence of passes;
* `scaling_limits`        `thread_count` stays within the limits, the slots within the array, a pass
                          that scales makes progress;
* `autoScale_run`         the statements of a caller compute the function.
-/

namespace Pool
open State Lts

/-! ## a pass -/

def intMax : Nat := 2147483647

/-- a call of a pass: the slot and whether it succeeded -/
inductive ScaleCall where
  | create (slot : Int) (ok : Bool)           -- pthread_create(&threads[slot], ..)
  | cancel (slot : Int) (ok : Bool)           -- pthread_cancel(threads[slot])
  deriving DecidableEq, Repr

def ScaleCall.slot : ScaleCall → Int
  | .create i _ | .cancel i _ => i

def ScaleCall.ok : ScaleCall → Bool
  | .create _ b | .cancel _ b => b

/-- what a pass sees: `time(NULL)`, the two atomic counters, and the result of the call for each
slot -/
structure Observed where
  now : Int
  activeThreads : Int
  queueSize : Int
  ok : Int → Bool

/-- the pool with the counters as the pass loads them -/
def Observed.load (o : Observed) (p : ThreadPool) : ThreadPool :=
  { p with activeThreads := o.activeThreads, queueSize := o.queueSize }

/-- the pool behind a pass, the number of workers created so far, and the calls of the pass -/
structure Pass where
  pool : ThreadPool
  created : Nat
  calls : List ScaleCall

/-- a `pthread_create` for slot `i` has succeeded -/
def Pass.create (r : Pass) (i : Nat) : Pass where
  pool := { r.pool with
    threads := Function.update r.pool.threads i (some r.created)
    threadCount := r.pool.threadCount + 1 }
  created := r.created + 1
  calls := r.calls ++ [.create i true]

/-- `for (; i < new_thread_count; i++)` with `n` iterations left -/
def scaleUpLoop (ok : Int → Bool) : Nat → Nat → Pass → Pass
  | 0, _, r => r
  | n + 1, i, r =>
    if ok i then scaleUpLoop ok n (i + 1) (r.create i)
    else { r with calls := r.calls ++ [.create i false] }

/-- `for (; i >= new_thread_count; --i)` with `n` iterations left -/
def scaleDownLoop (ok : Int → Bool) : Nat → Int → List ScaleCall → List ScaleCall
  | 0, _, calls => calls
  | n + 1, i, calls =>
    if ok i then scaleDownLoop ok n (i - 1) (calls ++ [.cancel i true])
    else calls ++ [.cancel i false]

/-- the two branches of `thread_pool_auto_scale` -/
def scaleBranches (fl : ℚ → ℚ) (ok : Int → Bool) (p : ThreadPool) (created : Nat) : Pass :=
  if scalesUp fl p then
    scaleUpLoop ok (scaleUpTarget p - p.threadCount) p.threadCount ⟨p, created, []⟩
  else if scalesDown fl p then
    { pool := { p with threadCount := scaleDownTarget p }
      created := created
      calls := scaleDownLoop ok (p.threadCount - scaleDownTarget p) ((p.threadCount : Int) - 1) [] }
  else ⟨p, created, []⟩

def threadPoolAutoScale (fl : ℚ → ℚ) (o : Observed) (p : ThreadPool) (created : Nat) : Pass :=
  if o.now - p.lastScaleTime < scaleInterval then ⟨p, created, []⟩
  else
    let r := scaleBranches fl o.ok (o.load p) created
    { r with pool := { r.pool with lastScaleTime := o.now } }

/-- passes one after the other -/
def scalePasses (fl : ℚ → ℚ) : List Observed → ThreadPool → Nat → ThreadPool × Nat
  | [], p, created => (p, created)
  | o :: os, p, created =>
    let r := threadPoolAutoScale fl o p created
    scalePasses fl os r.pool r.created

/-- An idle pool of eight gives up the slots 7 and 6. -/
example : (threadPoolAutoScale id ⟨2, 0, 0, fun _ => true⟩ (startState 4 32 8 0).pool 8).calls =
    [.cancel 7 true, .cancel 6 true] := by decide +kernel

/-! ## the loops -/

theorem scaleUpLoop_count (ok : Int → Bool) (n i : Nat) (r : Pass) :
    r.pool.threadCount ≤ (scaleUpLoop ok n i r).pool.threadCount ∧
      (scaleUpLoop ok n i r).pool.threadCount ≤ r.pool.threadCount + n := by
  induction n generalizing i r with
  | zero => exact ⟨le_rfl, le_rfl⟩
  | succ n ih =>
    unfold scaleUpLoop
    split
    · obtain ⟨h1, h2⟩ := ih (i + 1) (r.create i)
      have hone : (r.create i).pool.threadCount = r.pool.threadCount + 1 := rfl
      omega
    · exact ⟨le_rfl, Nat.le_add_right _ _⟩

theorem scaleUpLoop_progress {ok : Int → Bool} {n i : Nat} (r : Pass) (hn : 0 < n)
    (hok : ok i = true) : r.pool.threadCount < (scaleUpLoop ok n i r).pool.threadCount := by
  obtain ⟨n, rfl⟩ : ∃ m, n = m + 1 := ⟨n - 1, by omega⟩
  unfold scaleUpLoop
  rw [if_pos hok]
  exact (scaleUpLoop_count ok n (i + 1) (r.create i)).1

theorem scaleUpLoop_limits (ok : Int → Bool) (n i : Nat) (r : Pass) :
    (scaleUpLoop ok n i r).pool.minThreads = r.pool.minThreads ∧
      (scaleUpLoop ok n i r).pool.maxThreads = r.pool.maxThreads := by
  induction n generalizing i r with
  | zero => exact ⟨rfl, rfl⟩
  | succ n ih =>
    unfold scaleUpLoop
    split
    · exact ih (i + 1) (r.create i)
    · exact ⟨rfl, rfl⟩

theorem scaleUpLoop_calls {ok : Int → Bool} {n i : Nat} {r : Pass} {call : ScaleCall}
    (h : call ∈ (scaleUpLoop ok n i r).calls) :
    call ∈ r.calls ∨ ∃ (j : Nat) (b : Bool), call = .create j b ∧ i ≤ j ∧ j < i + n := by
  induction n generalizing i r with
  | zero => exact .inl h
  | succ n ih =>
    unfold scaleUpLoop at h
    split at h
    · rcases ih h with h | ⟨j, b, hc, hi, hj⟩
      · rcases List.mem_append.mp h with h | h
        · exact .inl h
        · exact .inr ⟨i, true, List.mem_singleton.mp h, le_rfl, by omega⟩
      · exact .inr ⟨j, b, hc, by omega, by omega⟩
    · rcases List.mem_append.mp h with h | h
      · exact .inl h
      · exact .inr ⟨i, false, List.mem_singleton.mp h, le_rfl, by omega⟩

theorem scaleDownLoop_calls {ok : Int → Bool} {n : Nat} {i : Int} {calls : List ScaleCall}
    {call : ScaleCall} (h : call ∈ scaleDownLoop ok n i calls) :
    call ∈ calls ∨ ∃ (j : Int) (b : Bool), call = .cancel j b ∧ j ≤ i ∧ i - n < j := by
  induction n generalizing i calls with
  | zero => exact .inl h
  | succ n ih =>
    unfold scaleDownLoop at h
    split at h
    · rcases ih h with h | ⟨j, b, hc, hi, hj⟩
      · rcases List.mem_append.mp h with h | h
        · exact .inl h
        · exact .inr ⟨i, true, List.mem_singleton.mp h, Int.le_refl i, by omega⟩
      · exact .inr ⟨j, b, hc, by omega, by omega⟩
    · rcases List.mem_append.mp h with h | h
      · exact .inl h
      · exact .inr ⟨i, false, List.mem_singleton.mp h, Int.le_refl i, by omega⟩

/-! ## the targets -/

/-- `thread_count` is within the limits -/
def ThreadPool.InLimits (p : ThreadPool) : Prop :=
  p.minThreads ≤ p.threadCount ∧ p.threadCount ≤ p.maxThreads

/-- `(3 n + 1) / 2` is more than `n`, and so is the clamped target. -/
theorem scaleUpTarget_gt {fl : ℚ → ℚ} {p : ThreadPool} (hmin : 1 ≤ p.minThreads)
    (h : p.InLimits) (hup : scalesUp fl p = true) :
    p.threadCount < scaleUpTarget p ∧ scaleUpTarget p ≤ p.maxThreads := by
  simp only [scalesUp, Bool.and_eq_true, decide_eq_true_eq] at hup
  obtain ⟨hlow, -⟩ := h
  unfold scaleUpTarget
  omega

/-- `(3 n + 1) / 4` is less than `n` from two on, and so is the clamped target. -/
theorem scaleDownTarget_lt {fl : ℚ → ℚ} {p : ThreadPool} (hmin : 1 ≤ p.minThreads)
    (hdown : scalesDown fl p = true) :
    p.minThreads ≤ scaleDownTarget p ∧ scaleDownTarget p < p.threadCount := by
  simp only [scalesDown, Bool.and_eq_true, decide_eq_true_eq] at hdown
  unfold scaleDownTarget
  omega

/-! ## one pass -/

variable {fl : ℚ → ℚ} {ok : Int → Bool} {o : Observed} {p : ThreadPool} {created : Nat}

theorem scaleBranches_limits : (scaleBranches fl ok p created).pool.minThreads = p.minThreads ∧
    (scaleBranches fl ok p created).pool.maxThreads = p.maxThreads := by
  unfold scaleBranches
  split
  · exact scaleUpLoop_limits ok _ _ _
  · split <;> exact ⟨rfl, rfl⟩

theorem scaleBranches_inLimits (hmin : 1 ≤ p.minThreads) (h : p.InLimits) :
    (scaleBranches fl ok p created).pool.InLimits := by
  unfold ThreadPool.InLimits
  rw [scaleBranches_limits.1, scaleBranches_limits.2]
  unfold scaleBranches
  split
  · rename_i hup
    obtain ⟨hgt, hle⟩ := scaleUpTarget_gt hmin h hup
    obtain ⟨hlow, hhigh⟩ := scaleUpLoop_count ok (scaleUpTarget p - p.threadCount) p.threadCount
      ⟨p, created, []⟩
    have hroom : p.threadCount + (scaleUpTarget p - p.threadCount) ≤ p.maxThreads := by omega
    exact ⟨h.1.trans hlow, hhigh.trans hroom⟩
  · split
    · rename_i hdown
      obtain ⟨hge, hlt⟩ := scaleDownTarget_lt hmin hdown
      exact ⟨hge, hlt.le.trans h.2⟩
    · exact h

/-- The calls of a pass: creations from `thread_count` up to the maximum, or cancels from below
`thread_count` down to the minimum. -/
theorem scaleBranches_calls (hmin : 1 ≤ p.minThreads) (h : p.InLimits) {call : ScaleCall}
    (hc : call ∈ (scaleBranches fl ok p created).calls) :
    (∃ (i : Nat) (b : Bool), call = .create i b ∧ p.threadCount ≤ i ∧ i < p.maxThreads) ∨
      ∃ (i : Int) (b : Bool), call = .cancel i b ∧ p.minThreads ≤ i ∧ i < p.threadCount := by
  unfold scaleBranches at hc
  split at hc
  · rename_i hup
    obtain ⟨hgt, hle⟩ := scaleUpTarget_gt hmin h hup
    rcases scaleUpLoop_calls hc with hc | ⟨i, b, hc, hi, hj⟩
    · cases hc
    · exact .inl ⟨i, b, hc, hi, by omega⟩
  · split at hc
    · rename_i hdown
      obtain ⟨hge, hlt⟩ := scaleDownTarget_lt hmin hdown
      rcases scaleDownLoop_calls hc with hc | ⟨i, b, hc, hi, hj⟩
      · cases hc
      · exact .inr ⟨i, b, hc, by omega, by omega⟩
    · cases hc

theorem scaleBranches_up (hmin : 1 ≤ p.minThreads) (h : p.InLimits) (hup : scalesUp fl p = true)
    (hok : ok p.threadCount = true) :
    p.threadCount < (scaleBranches fl ok p created).pool.threadCount := by
  have hgt := (scaleUpTarget_gt hmin h hup).1
  unfold scaleBranches
  rw [if_pos hup]
  exact scaleUpLoop_progress ⟨p, created, []⟩ (by omega) hok

theorem scaleBranches_down (hmin : 1 ≤ p.minThreads) (hup : scalesUp fl p = false)
    (hdown : scalesDown fl p = true) :
    (scaleBranches fl ok p created).pool.threadCount < p.threadCount := by
  unfold scaleBranches
  rw [if_neg (by simp [hup]), if_pos hdown]
  exact (scaleDownTarget_lt hmin hdown).2

/-- the pass gets past the test of the interval -/
def Observed.due (o : Observed) (p : ThreadPool) : Prop := ¬ o.now - p.lastScaleTime < scaleInterval

theorem autoScale_of_not_due (h : ¬ o.due p) : threadPoolAutoScale fl o p created =
    ⟨p, created, []⟩ := by
  unfold threadPoolAutoScale
  rw [if_pos (not_not.mp h)]

theorem autoScale_of_due (h : o.due p) : threadPoolAutoScale fl o p created =
    { scaleBranches fl o.ok (o.load p) created with
      pool := { (scaleBranches fl o.ok (o.load p) created).pool with lastScaleTime := o.now } } := by
  unfold threadPoolAutoScale
  rw [if_neg h]

theorem autoScale_limits : (threadPoolAutoScale fl o p created).pool.minThreads = p.minThreads ∧
    (threadPoolAutoScale fl o p created).pool.maxThreads = p.maxThreads := by
  by_cases h : o.due p
  · rw [autoScale_of_due h]
    exact scaleBranches_limits (p := o.load p)
  · rw [autoScale_of_not_due h]
    exact ⟨rfl, rfl⟩

/-- **A pass keeps the limits**, whatever it sees. -/
theorem autoScale_inLimits (hmin : 1 ≤ p.minThreads) (hp : p.InLimits) :
    (threadPoolAutoScale fl o p created).pool.InLimits := by
  by_cases h : o.due p
  · rw [autoScale_of_due h]
    exact scaleBranches_inLimits (p := o.load p) hmin hp
  · rw [autoScale_of_not_due h]
    exact hp

/-! ## every sequence of passes -/

/-- what holds between two passes of a pool with these limits -/
def BetweenPasses (minThreads maxThreads : Nat) (p : ThreadPool) : Prop :=
  p.minThreads = minThreads ∧ p.maxThreads = maxThreads ∧ p.InLimits

theorem scalePasses_keep {minThreads maxThreads : Nat} (hmin : 1 ≤ minThreads)
    (os : List Observed) (h : BetweenPasses minThreads maxThreads p) :
    BetweenPasses minThreads maxThreads (scalePasses fl os p created).1 := by
  induction os generalizing p created with
  | nil => exact h
  | cons o os ih =>
    obtain ⟨h1, h2, h3⟩ := h
    refine ih ⟨autoScale_limits.1.trans h1, autoScale_limits.2.trans h2, ?_⟩
    exact autoScale_inLimits (by omega) h3

/-- **Within the limits, and making progress.**  After any sequence of passes, whatever each of them
sees: `thread_count` is within the limits and its products fit in an `int`.  And the next pass
writes and cancels only slots of the array, cancels no slot below the minimum, has more threads
behind it if it scales up and creates its first thread, and fewer if it scales down. -/
theorem scaling_limits (fl : ℚ → ℚ) (minThreads maxThreads initial : Nat) (now : Int)
    (os : List Observed) (hmin : 1 ≤ minThreads) (hinit : minThreads ≤ initial)
    (hmax : initial ≤ maxThreads) (hint : 3 * maxThreads + 1 ≤ intMax) :
    let p := (scalePasses fl os (startState minThreads maxThreads initial now).pool initial).1
    (minThreads ≤ p.threadCount ∧ p.threadCount ≤ maxThreads ∧ p.threadCount * 3 + 1 ≤ intMax) ∧
      ∀ (o : Observed) (created : Nat), let r := threadPoolAutoScale fl o p created
        (∀ call, call ∈ r.calls → 0 ≤ call.slot ∧ call.slot < maxThreads) ∧
        (∀ i b, ScaleCall.cancel i b ∈ r.calls → minThreads ≤ i) ∧
        (o.due p → scalesUp fl (o.load p) = true → o.ok p.threadCount = true →
          p.threadCount < r.pool.threadCount) ∧
        (o.due p → scalesUp fl (o.load p) = false → scalesDown fl (o.load p) = true →
          r.pool.threadCount < p.threadCount) := by
  intro p
  have hkeep : BetweenPasses minThreads maxThreads p :=
    scalePasses_keep hmin os ⟨rfl, rfl, hinit, hmax⟩
  obtain ⟨hpmin, hpmax, hp⟩ := hkeep
  obtain ⟨hlow, hhigh⟩ := id hp
  have hpmin' : 1 ≤ p.minThreads := by omega
  refine ⟨⟨by omega, by omega, by omega⟩, fun o created => ?_⟩
  by_cases hdue : o.due p
  · rw [autoScale_of_due hdue]
    have hcalls := @scaleBranches_calls fl o.ok (o.load p) created hpmin' hp
    refine ⟨fun call hc => ?_, fun i b hc => ?_, fun _ hup hok => ?_, fun _ hup hdown => ?_⟩
    · rcases hcalls hc with ⟨i, b, rfl, hi, hj⟩ | ⟨i, b, rfl, hi, hj⟩
      · have hj' : i < p.maxThreads := hj
        show (0 : Int) ≤ i ∧ (i : Int) < maxThreads
        omega
      · have hj' : i < p.threadCount := hj
        show 0 ≤ i ∧ i < maxThreads
        omega
    · rcases hcalls hc with ⟨j, b', hj, -, -⟩ | ⟨j, b', hj, hle, -⟩
      · cases hj
      · cases hj
        have hle' : (p.minThreads : Int) ≤ i := hle
        omega
    · exact scaleBranches_up (p := o.load p) hpmin' hp hup hok
    · exact scaleBranches_down (p := o.load p) hpmin' hup hdown
  · rw [autoScale_of_not_due hdue]
    refine ⟨fun call hc => ?_, fun i b hc => ?_, fun h => absurd h hdue, fun h => absurd h hdue⟩
    · cases hc
    · cases hc

/-- an idle pass, and a pass under load in which the creation for slot 8 fails -/
def twoPasses : List Observed := [⟨2, 0, 0, fun _ => true⟩, ⟨4, 6, 11, fun i => i != 8⟩]

/-- The limits of the server: eight threads, then six, then eight again; and an idle pass. -/
theorem scaling_limits_server :
    let p := (scalePasses id twoPasses (startState 4 32 8 0).pool 8).1
    p.threadCount = 8 ∧ 4 ≤ p.threadCount ∧
      (threadPoolAutoScale id ⟨6, 0, 0, fun _ => false⟩ p 10).pool.threadCount < p.threadCount := by
  intro p
  have h := scaling_limits id 4 32 8 0 twoPasses (by decide) (by decide) (by decide) (by decide)
  refine ⟨by decide +kernel, h.1.1, (h.2 ⟨6, 0, 0, fun _ => false⟩ 10).2.2.2 ?_ ?_ ?_⟩
  · show ¬ (6 - p.lastScaleTime < scaleInterval)
    decide +kernel
  · decide +kernel
  · decide +kernel

/-! ## the statements of a caller compute a pass -/

/-- what caller `c` does in a pass that makes `calls` and then runs `n` plain statements -/
def passLabels (c : Nat) (calls : List ScaleCall) (n : Nat) : List Label :=
  calls.map (fun call => .caller c (.result call.ok)) ++ List.replicate n (.caller c .run)

variable {s : State} {c : Nat} {now : Int}

theorem exec_passLabels_cons (call : ScaleCall) (calls : List ScaleCall) (n : Nat) :
    exec (step fl) s (passLabels c (call :: calls) n) =
      (step fl (.caller c (.result call.ok)) s).bind fun s' =>
        exec (step fl) s' (passLabels c calls n) := rfl

theorem exec_passLabels_nil (n : Nat) :
    exec (step fl) s (passLabels c [] (n + 1)) =
      (step fl (.caller c .run) s).bind fun s' => exec (step fl) s' (passLabels c [] n) := rfl

theorem scaleUp_run (ok : Int → Bool) (n i : Nat) (r : Pass)
    (hpc : (s.callers c).pc = .scaleUp i (i + n) now)
    (hr : r.pool = s.pool ∧ r.created = s.created) :
    ∃ calls m s', (scaleUpLoop ok n i r).calls = r.calls ++ calls ∧
      exec (step fl) s (passLabels c calls m) = some s' ∧
      (s'.callers c).pc = .scaleStoreTime now ∧ s'.pool = (scaleUpLoop ok n i r).pool ∧
      s'.created = (scaleUpLoop ok n i r).created := by
  obtain ⟨hpool, hcreated⟩ := hr
  induction n generalizing i r s with
  | zero =>
    refine ⟨[], 1, s.callerGoto c (.scaleStoreTime now), by simp [scaleUpLoop], ?_, by simp,
      hpool.symm, hcreated.symm⟩
    rw [exec_passLabels_nil]
    simp [step, callerStep, hpc, passLabels, exec_nil]
  | succ n ih =>
    have hi : i < i + (n + 1) := by omega
    unfold scaleUpLoop
    cases e : ok i with
    | true =>
      have hst : step fl (.caller c (.result true)) s =
          some (((s.createWorker i).setPool { (s.createWorker i).pool with
            threadCount := s.pool.threadCount + 1 }).callerGoto c
              (.scaleUp (i + 1) (i + (n + 1)) now)) := by
        simp [step, callerStep, hpc]
      obtain ⟨calls, m, s', hcalls, hexec, hpc', hpool', hcreated'⟩ :=
        ih (s := ((s.createWorker i).setPool { (s.createWorker i).pool with
          threadCount := s.pool.threadCount + 1 }).callerGoto c
            (.scaleUp (i + 1) (i + (n + 1)) now)) (i + 1) (r.create i)
          (by simp only [callerGoto, Function.update_self]; congr 1; omega)
          (by simp [Pass.create, hpool, hcreated]) (by simp [Pass.create, hcreated])
      rw [if_pos rfl]
      refine ⟨.create i true :: calls, m, s', ?_, ?_, hpc', hpool', hcreated'⟩
      · rw [hcalls]
        simp [Pass.create]
      · rw [exec_passLabels_cons]
        show (step fl (.caller c (.result true)) s).bind _ = _
        rw [hst]
        exact hexec
    | false =>
      rw [if_neg (by simp)]
      refine ⟨[.create i false], 0, s.callerGoto c (.scaleStoreTime now), rfl, ?_, by simp,
        hpool.symm, hcreated.symm⟩
      rw [exec_passLabels_cons]
      simp [step, callerStep, hpc, passLabels, exec_nil, ScaleCall.ok]

theorem scaleDown_run (ok : Int → Bool) (n : Nat) (i : Int) (new : Nat) (calls : List ScaleCall)
    (hpc : (s.callers c).pc = .scaleDown i new now) (hn : i + 1 = new + n)
    (hfilled : ∀ j : Nat, (j : Int) ≤ i → s.pool.threads j ≠ none) :
    ∃ calls' m s', scaleDownLoop ok n i calls = calls ++ calls' ∧
      exec (step fl) s (passLabels c calls' m) = some s' ∧
      (s'.callers c).pc = .scaleStoreCount new now ∧ s'.pool = s.pool ∧
      s'.created = s.created := by
  induction n generalizing i calls s with
  | zero =>
    refine ⟨[], 1, s.callerGoto c (.scaleStoreCount new now), by simp [scaleDownLoop], ?_,
      by simp, rfl, rfl⟩
    rw [exec_passLabels_nil]
    have hi : ¬ (new : Int) ≤ i := by omega
    simp [step, callerStep, hpc, passLabels, exec_nil, hi]
  | succ n ih =>
    have hi : (new : Int) ≤ i := by omega
    unfold scaleDownLoop
    cases e : ok i with
    | true =>
      obtain ⟨v, hv⟩ := Option.ne_none_iff_exists'.mp (hfilled i.toNat (by omega))
      have hst : step fl (.caller c (.result true)) s =
          some ((s.setWorker v { s.workers v with cancelPending := true }).callerGoto c
            (.scaleDown (i - 1) new now)) := by
        simp [step, callerStep, hpc, hi, hv]
      obtain ⟨calls', m, s', hcalls, hexec, hpc', hpool', hcreated'⟩ :=
        ih (s := (s.setWorker v { s.workers v with cancelPending := true }).callerGoto c
          (.scaleDown (i - 1) new now)) (i - 1) (calls ++ [.cancel i true]) (by simp)
          (by omega) (fun j hj => hfilled j (by omega))
      rw [if_pos rfl]
      refine ⟨.cancel i true :: calls', m, s', ?_, ?_, hpc', hpool', hcreated'⟩
      · rw [hcalls]
        simp
      · rw [exec_passLabels_cons]
        show (step fl (.caller c (.result true)) s).bind _ = _
        rw [hst]
        exact hexec
    | false =>
      rw [if_neg (by simp)]
      refine ⟨[.cancel i false], 0, s.callerGoto c (.scaleStoreCount new now), rfl, ?_, by simp,
        rfl, rfl⟩
      rw [exec_passLabels_cons]
      simp [step, callerStep, hpc, passLabels, exec_nil, ScaleCall.ok, hi]

/-- **The statements of a caller compute a pass.**  From the load test on, with the slots below
`thread_count` filled, the caller makes the calls of the pass with the results they have there, and
stands before the unlock with the pool of the pass. -/
theorem autoScale_run (o : Observed) (hpc : (s.callers c).pc = .scaleTest o.now)
    (hload : o.load s.pool = s.pool) (hdue : o.due s.pool)
    (hfilled : ∀ i, i < s.pool.threadCount → s.pool.threads i ≠ none) :
    ∃ m m' s', exec (step fl) s (.caller c .run ::
        (passLabels c (threadPoolAutoScale fl o s.pool s.created).calls m ++
          List.replicate m' (.caller c .run))) = some s' ∧
      (s'.callers c).pc = .scaleUnlock ∧
      s'.pool = (threadPoolAutoScale fl o s.pool s.created).pool ∧
      s'.created = (threadPoolAutoScale fl o s.pool s.created).created := by
  have hstart : ∀ ls, exec (step fl) s (.caller c .run :: ls) =
      exec (step fl) (s.callerGoto c (scaleBranch fl s.pool o.now)) ls := by
    intro ls
    rw [exec_cons]
    simp [step, callerStep, hpc]
  -- the last statement of every branch
  have hlast : ∀ s₁ : State, (s₁.callers c).pc = .scaleStoreTime o.now →
      exec (step fl) s₁ [.caller c .run] =
        some ((s₁.setPool { s₁.pool with lastScaleTime := o.now }).callerGoto c .scaleUnlock) := by
    intro s₁ h₁
    simp [exec, step, callerStep, h₁]
  rw [autoScale_of_due hdue, hload]
  unfold scaleBranches
  by_cases hup : scalesUp fl s.pool = true
  · have hbranch : scaleBranch fl s.pool o.now = .scaleUp s.pool.threadCount
        (s.pool.threadCount + (scaleUpTarget s.pool - s.pool.threadCount)) o.now := by
      have hle : s.pool.threadCount ≤ scaleUpTarget s.pool := by
        simp only [scalesUp, Bool.and_eq_true, decide_eq_true_eq] at hup
        unfold scaleUpTarget
        omega
      unfold scaleBranch
      rw [if_pos hup, Nat.add_sub_cancel' hle]
    rw [if_pos hup]
    obtain ⟨calls, m, s₁, hcalls, hexec, h₁, hpool, hcreated⟩ :=
      @scaleUp_run fl (s.callerGoto c (scaleBranch fl s.pool o.now)) c o.now o.ok
        (scaleUpTarget s.pool - s.pool.threadCount) s.pool.threadCount
        ⟨s.pool, s.created, []⟩ (by simp [hbranch]) ⟨rfl, rfl⟩
    refine ⟨m, 1, (s₁.setPool { s₁.pool with lastScaleTime := o.now }).callerGoto c .scaleUnlock,
      ?_, by simp, ?_, hcreated⟩
    · rw [hstart, hcalls, exec_append, List.nil_append, hexec]
      exact hlast s₁ h₁
    · simp [hpool]
  · rw [if_neg hup]
    by_cases hdown : scalesDown fl s.pool = true
    · have hbranch : scaleBranch fl s.pool o.now =
          .scaleDown ((s.pool.threadCount : Int) - 1) (scaleDownTarget s.pool) o.now := by
        unfold scaleBranch
        rw [if_neg hup, if_pos hdown]
      have hle : scaleDownTarget s.pool ≤ s.pool.threadCount := by
        simp only [scalesDown, Bool.and_eq_true, decide_eq_true_eq] at hdown
        unfold scaleDownTarget
        omega
      rw [if_pos hdown]
      obtain ⟨calls, m, s₁, hcalls, hexec, h₁, hpool, hcreated⟩ :=
        @scaleDown_run fl (s.callerGoto c (scaleBranch fl s.pool o.now)) c o.now o.ok
          (s.pool.threadCount - scaleDownTarget s.pool)
          ((s.pool.threadCount : Int) - 1) (scaleDownTarget s.pool) [] (by simp [hbranch])
          (by omega) (fun j hj => hfilled j (by omega))
      have hstore : exec (step fl) s₁ (List.replicate 2 (.caller c .run)) =
          some ((s₁.setPool { s₁.pool with
            threadCount := scaleDownTarget s.pool, lastScaleTime := o.now }).callerGoto
              c .scaleUnlock) := by
        simp [exec, step, callerStep, h₁]
      refine ⟨m, 2, (s₁.setPool { s₁.pool with
        threadCount := scaleDownTarget s.pool, lastScaleTime := o.now }).callerGoto c .scaleUnlock,
        ?_, by simp, ?_, hcreated⟩
      · rw [hstart, hcalls, exec_append, List.nil_append, hexec]
        exact hstore
      · simp [hpool]
    · have hbranch : scaleBranch fl s.pool o.now = .scaleStoreTime o.now := by
        unfold scaleBranch
        rw [if_neg hup, if_neg hdown]
      rw [if_neg hdown]
      refine ⟨0, 1, ((s.callerGoto c (.scaleStoreTime o.now)).setPool
        { s.pool with lastScaleTime := o.now }).callerGoto c .scaleUnlock, ?_, by simp, rfl, rfl⟩
      rw [hstart, hbranch]
      exact hlast _ (by simp)

end Pool
