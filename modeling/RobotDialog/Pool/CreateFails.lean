import RobotDialog.Pool.Counters
import RobotDialog.Pool.Wakeup

/-!
# The thread pool: a creation that fails

When a `pthread_create` of `thread_pool_create_with_limits` fails, the creating thread stores
`shutdown = 1` and broadcasts, both without `queue_mutex`, and joins the workers that it has
created.

* `CreationInv`           where a worker can be before the pool is published, and in which slot;
* `BroadcastClear`        no worker stands between its test of the queue and its wait when the
                          creating thread broadcasts;
* `AwakeInv`              then nobody sleeps behind the broadcast;
* `failedCreation_returns`  the creation returns -1, and without the condition it hangs;
* `failedCreation_hangs`  a worker asleep and the creating thread waiting for it.
-/

set_option linter.unusedSimpArgs false

namespace Pool
open State Lts

variable {fl : ℚ → ℚ} {s s' : State} {w c : Nat}

/-! ## workers of a pool that is being created -/

/-- the program points of a worker that has not taken a task and has not been cancelled -/
def WorkerPc.waiting : WorkerPc → Bool
  | .notCreated | .lock | .enableCancel | .testQueue | .condWait | .blocked | .woken
  | .disableCancel | .testShutdown | .unlockShutdown | .exited | .exitedLocked => true
  | _ => false

/-- the slots have been freed -/
def MainPc.freed : MainPc → Bool
  | .failFree | .createFailed => true
  | _ => false

structure CreationInv (s : State) : Prop where
  tame : s.main.creating = true → ∀ v, (s.workers v).pc.waiting = true ∧
    (s.workers v).cancelPending = false
  slots : s.main.creating = true → s.main.freed = false → ∀ v, v < s.created →
    ∃ k, k < s.main.filled s.pool.threadCount ∧ s.pool.threads k = some v

theorem CreationInv.start (minThreads maxThreads initial : Nat) (now : Int) :
    CreationInv (startState minThreads maxThreads initial now) where
  tame _ _ := ⟨rfl, rfl⟩
  slots _ _ v hv := absurd hv (Nat.not_lt_zero v)

theorem WorkerPc.Pushed.waiting {p q : WorkerPc} (h : p.Pushed q) (hp : p.waiting = true) :
    q.waiting = true := by
  cases h with
  | same => exact hp
  | wake => rfl
  | start => rfl

theorem CreationInv.not_deliverable (h : CreationInv s) (hcr : s.main.creating = true) (v : Nat) :
    ¬ s.deliverable v := by
  rintro ⟨-, hp⟩
  rw [(h.tame hcr v).2] at hp
  cases hp

theorem CreationInv.worker_step (hcon : ControlInv s) (h : CreationInv s)
    (hm : WorkerMove s w s') : CreationInv s' := by
  have hmain : s'.main = s.main := by cases hm <;> rfl
  have hthreads : s'.pool.threads = s.pool.threads ∧ s'.created = s.created ∧
      s'.pool.threadCount = s.pool.threadCount := by
    cases hm <;> exact ⟨rfl, rfl, rfl⟩
  obtain ⟨h1, h2, h3⟩ := hthreads
  refine ⟨fun hcr v => ?_, ?_⟩
  · rw [hmain] at hcr
    have htame := h.tame hcr
    refine ⟨?_, by rw [hm.pending_eq]; exact (htame v).2⟩
    by_cases e : v = w
    · subst e
      have hv := (htame v).1
      have hno := h.not_deliverable hcr v
      have hsees := hcon.sees v
      have hempty := (hcon.quiet hcr).2
      cases hm with
      | noShutdown hpc hs =>
        rw [hpc] at hsees
        exact absurd hempty (hsees hs)
      | unlinkHead task t hpc hq ht =>
        rw [hempty] at hq
        cases hq
      | cancelEarly hpc hd => exact absurd hd hno
      | cancelAsleep hpc hd => exact absurd hd hno
      | cancelPass x hpc hd hx hb => exact absurd hd hno
      | cancelLast hpc hd hn => exact absurd hd hno
      | _ => simp_all [WorkerPc.waiting]
    · exact (hm.pushed e).waiting (htame v).1
  · rw [hmain, h1, h2, h3]
    exact h.slots

theorem CreationInv.main_step (hC : CreatedInv s) (h : CreationInv s) (hm : MainMove s s') :
    CreationInv s' := by
  have hpush := hm.pushed hC
  refine ⟨fun hcr v => ?_, fun hcr hfr v hv => ?_⟩
  · have hwas : s.main.creating = true := by
      cases hm <;> simp_all [MainPc.creating]
    refine ⟨(hpush v).waiting (h.tame hwas v).1, ?_⟩
    cases hm with
    | created i initial hpc hi =>
      by_cases e : v = s.created
      · subst e
        simp
      · simpa [e] using (h.tame hwas v).2
    | failBroadcast i hpc => exact (broadcast_pending s v).trans (h.tame hwas v).2
    | destroyBroadcast hpc => cases hcr
    | _ => exact (h.tame hwas v).2
  · cases hm with
    | created i initial hpc hi =>
      have hv' : v < s.created + 1 := hv
      show ∃ k, k < i + 1 ∧ Function.update s.pool.threads i (some s.created) k = some v
      by_cases e : v = s.created
      · exact ⟨i, by omega, by rw [e, Function.update_self]⟩
      · obtain ⟨k, hk, hvk⟩ := h.slots (by rw [hpc]; rfl) (by rw [hpc]; rfl) v (by omega)
        rw [hpc] at hk
        have hk' : k < i := hk
        exact ⟨k, by omega, by rw [Function.update_of_ne (by omega)]; exact hvk⟩
    | createFails i initial hpc hi =>
      simpa [hpc, MainPc.filled] using h.slots (by rw [hpc]; rfl) (by rw [hpc]; rfl) v hv
    | failShutdown i hpc =>
      simpa [hpc, MainPc.filled] using h.slots (by rw [hpc]; rfl) (by rw [hpc]; rfl) v hv
    | failBroadcast i hpc =>
      simpa [hpc, MainPc.filled] using h.slots (by rw [hpc]; rfl) (by rw [hpc]; rfl) v hv
    | failJoin i j hpc hj ht =>
      simpa [hpc, MainPc.filled] using h.slots (by rw [hpc]; rfl) (by rw [hpc]; rfl) v hv
    | failJoined i j hpc hj => cases hfr
    | failFree hpc => cases hfr
    | drain task t hpc hq ht =>
      have hcr' : s.main.creating = true := hcr
      rw [hpc] at hcr'
      cases hcr'
    | _ => cases hcr

theorem CreationInv.step (hC : CreatedInv s) (hcon : ControlInv s) (h : CreationInv s) (l : Label)
    (hst : Pool.step fl l s = some s') : CreationInv s' := by
  cases l with
  | worker w a => exact h.worker_step hcon (.of_step hst)
  | caller c a =>
    have hm := CallerMove.of_step hst
    have hopen := hm.not_creating hcon
    have hmain : s'.main = s.main := by cases hm <;> rfl
    have hno : ¬ s'.main.creating = true := by
      rw [hmain, hopen]
      decide
    exact ⟨fun hcr => absurd hcr hno, fun hcr => absurd hcr hno⟩
  | main a => exact h.main_step hC (.of_step hst)

section
variable {G : State → Label → Prop} {minThreads maxThreads initial : Nat}

theorem ReachableBy.creation (h : ReachableBy fl G minThreads maxThreads initial s) :
    CreationInv s :=
  h.inv CreationInv (fun now _ _ => CreationInv.start _ _ _ now)
    fun _ l _ hr hI _ hst => hI.step hr.created hr.control l hst

end

/-! ## behind the broadcast -/

/-- `shutdown = 1` and the broadcast of a failed creation lie behind -/
def MainPc.joining : MainPc → Bool
  | .failJoin _ _ | .failFree | .createFailed => true
  | _ => false

theorem MainPc.creating_of_joining {p : MainPc} (h : p.joining = true) :
    p.creating = true ∧ p.shutDown = true := by
  cases p <;> first | exact ⟨rfl, rfl⟩ | cases h

/-- the guard of the runs in which, when the creating thread broadcasts, no worker has tested the
queue and is about to wait -/
def BroadcastClear (s : State) : Label → Prop
  | .main _ => ∀ i, s.main = .failBroadcast i → ∀ v, (s.workers v).pc ≠ .condWait
  | _ => True

/-- behind the broadcast nobody sleeps or is about to -/
def AwakeInv (s : State) : Prop :=
  s.main.joining = true → ∀ v, (s.workers v).pc ≠ .condWait ∧ (s.workers v).pc ≠ .blocked

theorem AwakeInv.worker_step (hcon : ControlInv s) (h : AwakeInv s) (hm : WorkerMove s w s') :
    AwakeInv s' := by
  intro hj v
  have hmain : s'.main = s.main := by cases hm <;> rfl
  rw [hmain] at hj
  have hsh : s.pool.shutdown = true := hcon.shutdown.trans (MainPc.creating_of_joining hj).2
  have hv := h hj v
  by_cases e : v = w
  · subst e
    cases hm with
    | queueEmpty hpc hq hs =>
      rw [hsh] at hs
      cases hs
    | sleep hpc => exact absurd hpc hv.1
    | cancelPass x hpc hd hx hb => simp [Function.update_of_ne hx.symm]
    | _ => simp
  · have hp := hm.pushed e
    generalize (s'.workers v).pc = q at hp ⊢
    cases hp with
    | same => exact hv
    | wake hb => simp
    | start hb => simp

theorem AwakeInv.main_step (h : AwakeInv s) (hm : MainMove s s')
    (hclear : ∀ i, s.main = .failBroadcast i → ∀ v, (s.workers v).pc ≠ .condWait) :
    AwakeInv s' := by
  intro hj v
  cases hm with
  | failBroadcast i hpc =>
    have hv := hclear i hpc v
    simp only [mainGoto, broadcast]
    split
    · simp
    · exact ⟨hv, ‹_›⟩
  | failJoin i j hpc hlt ht => exact h (by rw [hpc]; rfl) v
  | failJoined i j hpc hlt => exact h (by rw [hpc]; rfl) v
  | failFree hpc => exact h (by rw [hpc]; rfl) v
  | drain task t hpc hq ht =>
    have hj' : s.main.joining = true := hj
    rw [hpc] at hj'
    cases hj'
  | _ => cases hj

theorem AwakeInv.step (hcon : ControlInv s) (h : AwakeInv s) (l : Label) (hG : BroadcastClear s l)
    (hst : Pool.step fl l s = some s') : AwakeInv s' := by
  cases l with
  | worker w a => exact h.worker_step hcon (.of_step hst)
  | caller c a =>
    intro hj
    have hm := CallerMove.of_step hst
    have hmain : s'.main = s.main := by cases hm <;> rfl
    rw [hmain] at hj
    have hopen := hm.not_creating hcon
    rw [(MainPc.creating_of_joining hj).1] at hopen
    cases hopen
  | main a => exact h.main_step (.of_step hst) hG

section
variable {minThreads maxThreads initial : Nat}

theorem ReachableBy.awake (h : ReachableBy fl BroadcastClear minThreads maxThreads initial s) :
    AwakeInv s :=
  h.inv AwakeInv (fun now _ _ hj => by cases hj)
    fun _ l _ hr hI hG hst => hI.step hr.control l hG hst

end

/-! ## the way out -/

/-- the statements that a worker has left before it ends, once `shutdown` is set -/
def WorkerPc.exitRank : WorkerPc → Nat
  | .lock => 6
  | .enableCancel | .woken => 5
  | .testQueue => 4
  | .disableCancel => 3
  | .testShutdown => 2
  | .unlockShutdown => 1
  | _ => 0

/-- the statements that a failed creation has left -/
def MainPc.failRank : MainPc → Nat
  | .failJoin i j => i - j + 2
  | .failFree => 1
  | _ => 0

/-- the statements left before a failed creation returns -/
def State.failRank (s : State) : Nat :=
  Family.total s.created (fun v => (s.workers v).pc.exitRank) + s.main.failRank

/-- the guard of the runs in which a failed creation returns -/
def CleanFailure (s : State) (l : Label) : Prop := BroadcastClear s l ∧ SetcancelSucceeds s l

/-- behind the broadcast, in a run with the guard -/
structure Leaving (fl : ℚ → ℚ) (minThreads maxThreads initial : Nat) (s : State) : Prop where
  reach : ReachableBy fl CleanFailure minThreads maxThreads initial s
  joining : s.main.joining = true

section
variable {minThreads maxThreads initial : Nat}

theorem Leaving.awake (h : Leaving fl minThreads maxThreads initial s) (v : Nat) :
    (s.workers v).pc ≠ .condWait ∧ (s.workers v).pc ≠ .blocked :=
  (h.reach.mono fun _ _ hG => hG.1).awake h.joining v

theorem Leaving.shutdown (h : Leaving fl minThreads maxThreads initial s) :
    s.pool.shutdown = true :=
  h.reach.control.shutdown.trans (MainPc.creating_of_joining h.joining).2

theorem Leaving.worker_runs (h : Leaving fl minThreads maxThreads initial s) {v : Nat}
    (hv : v < s.created) (ht : (s.workers v).pc.terminated = false)
    (hfree : s.owner = none ∨ (s.workers v).pc.holds = true) :
    ∃ s', workerStep s v .run = some s' := by
  have hwait := (h.reach.creation.tame (MainPc.creating_of_joining h.joining).1 v).1
  have hawake := h.awake v
  have hnew : (s.workers v).pc ≠ .notCreated := fun hpc => by
    have := (h.reach.created v).mp hpc
    omega
  unfold workerStep
  cases e : (s.workers v).pc <;> simp_all [WorkerPc.waiting, WorkerPc.holds, WorkerPc.terminated,
    h.shutdown]

/-- **Nobody is stuck.** -/
theorem Leaving.progress (h : Leaving fl minThreads maxThreads initial s)
    (hP : ¬ s.main = .createFailed) : ∃ l s', CleanFailure s l ∧ step fl l s = some s' := by
  have hmainG : CleanFailure s (.main .run) := by
    refine ⟨fun i hi => ?_, fun w hw => by cases hw⟩
    have hj := h.joining
    rw [hi] at hj
    cases hj
  have hworker : ∀ v s', workerStep s v .run = some s' →
      ∃ l s', CleanFailure s l ∧ step fl l s = some s' := fun v s' hst =>
    ⟨.worker v .run, s', ⟨trivial, fun w hw => by cases hw⟩, hst⟩
  have hj := h.joining
  cases hpc : s.main with
  | failFree =>
    exact ⟨.main .run, s.mainGoto .createFailed, hmainG, by simp [step, mainStep, hpc]⟩
  | createFailed => exact absurd hpc hP
  | failJoin i j =>
    by_cases hlt : j < i
    · have hfilled := h.reach.slots.filled j (by rw [hpc]; exact hlt)
      obtain ⟨v, hv⟩ := Option.ne_none_iff_exists'.mp hfilled
      have hcr := h.reach.slots.stored j v hv
      cases ht : (s.workers v).pc.terminated with
      | true =>
        refine ⟨.main .run, s.mainGoto (.failJoin i (j + 1)), hmainG, ?_⟩
        simp [step, mainStep, hpc, hlt, joinable, hv, ht]
      | false =>
        -- the joined worker goes on, or the one that has the mutex
        cases howner : s.owner with
        | none =>
          obtain ⟨s', hst⟩ := h.worker_runs hcr ht (.inl howner)
          exact hworker v s' hst
        | some t =>
          have hholds := (h.reach.mutex t).mpr howner
          cases t with
          | worker u =>
            have hholds' : (s.workers u).pc.holds = true := hholds
            have hend := (h.reach.mono fun _ _ hG => hG.2).ends u
            have hu : (s.workers u).pc.terminated = false := by
              by_contra hterm
              have hno := hend.not_holds (by simpa using hterm)
              rw [hholds'] at hno
              cases hno
            have hucr : u < s.created := by
              by_contra hge
              rw [(h.reach.created u).mpr (by omega)] at hholds'
              cases hholds'
            obtain ⟨s', hst⟩ := h.worker_runs hucr hu (.inr hholds')
            exact hworker u s' hst
          | caller c =>
            have hidle := (h.reach.control.quiet (MainPc.creating_of_joining h.joining).1).1 c
            have hholds' : (s.callers c).pc.holds = true := hholds
            rw [hidle] at hholds'
            cases hholds'
          | main =>
            have hholds' : s.main.holds = true := hholds
            rw [hpc] at hholds'
            cases hholds'
    · exact ⟨.main .run, s.mainGoto .failFree, hmainG, by simp [step, mainStep, hpc, hlt]⟩
  | _ =>
    rw [hpc] at hj
    cases hj

theorem Leaving.worker_rank (h : Leaving fl minThreads maxThreads initial s)
    (hm : WorkerMove s w s') : s'.main = s.main ∧ s'.failRank < s.failRank := by
  have hmain : s'.main = s.main := by cases hm <;> rfl
  have hcreating := (MainPc.creating_of_joining h.joining).1
  have hno := h.reach.creation.not_deliverable hcreating
  refine ⟨hmain, ?_⟩
  have hothers : ∀ v, v ≠ w → (s'.workers v).pc.exitRank = (s.workers v).pc.exitRank := by
    intro v hv
    have hp := hm.pushed hv
    have hb := (h.awake v).2
    have hnew : (s.workers v).pc = .notCreated → (s'.workers v).pc = .notCreated := fun hpc => by
      refine (h.reach.created.worker_step hm v).mpr ?_
      rw [hm.created_eq]
      exact (h.reach.created v).mp hpc
    generalize (s'.workers v).pc = q at hp hnew ⊢
    cases hp with
    | same => rfl
    | wake hb' => exact absurd hb' hb
    | start hn => cases hnew hn
  have hself : (s'.workers w).pc.exitRank < (s.workers w).pc.exitRank := by
    have hwait := (h.reach.creation.tame hcreating w).1
    have hawake := h.awake w
    have hsh := h.shutdown
    cases hm with
    | cancelEarly hpc hd => exact absurd hd (hno w)
    | cancelAsleep hpc hd => exact absurd hd (hno w)
    | cancelPass x hpc hd hx hb => exact absurd hd (hno w)
    | cancelLast hpc hd hn => exact absurd hd (hno w)
    | setcancelFails hpc => rcases hpc with hpc | hpc <;> simp [hpc, WorkerPc.exitRank]
    | _ => simp_all [WorkerPc.exitRank, WorkerPc.waiting]
  have htotal : Family.total s.created (fun v => (s'.workers v).pc.exitRank) +
      (s.workers w).pc.exitRank = Family.total s.created (fun v => (s.workers v).pc.exitRank) +
        (s'.workers w).pc.exitRank :=
    Family.total_move (hm.exists h.reach.created) hothers
  unfold State.failRank
  rw [hmain, hm.created_eq]
  omega

theorem failRank_lt (hw : s'.workers = s.workers) (hcr : s'.created = s.created)
    (h : s'.main.failRank < s.main.failRank) : s'.failRank < s.failRank := by
  unfold State.failRank
  rw [hw, hcr]
  omega

/-- **Every statement brings the end nearer.** -/
theorem Leaving.step (h : Leaving fl minThreads maxThreads initial s) (l : Label)
    (hG : CleanFailure s l) (hst : Pool.step fl l s = some s') :
    Leaving fl minThreads maxThreads initial s' ∧ s'.failRank < s.failRank := by
  have hreach := h.reach.next l hG hst
  cases l with
  | worker w a =>
    obtain ⟨hmain, hrank⟩ := h.worker_rank (.of_step hst)
    exact ⟨⟨hreach, by rw [hmain]; exact h.joining⟩, hrank⟩
  | caller c a =>
    have hopen := (CallerMove.of_step hst).not_creating h.reach.control
    rw [(MainPc.creating_of_joining h.joining).1] at hopen
    cases hopen
  | main a =>
    have hj := h.joining
    cases MainMove.of_step hst with
    | failJoin i j hpc hlt ht =>
      refine ⟨⟨hreach, rfl⟩, failRank_lt rfl rfl ?_⟩
      rw [hpc]
      show i - (j + 1) + 2 < i - j + 2
      omega
    | failJoined i j hpc hlt =>
      refine ⟨⟨hreach, rfl⟩, failRank_lt rfl rfl ?_⟩
      rw [hpc]
      show 1 < i - j + 2
      omega
    | failFree hpc =>
      refine ⟨⟨hreach, rfl⟩, failRank_lt rfl rfl ?_⟩
      rw [hpc]
      exact Nat.zero_lt_one
    | drain task t hpc hq ht =>
      rw [hpc] at hj
      cases hj
    | _ => simp_all [MainPc.joining]

theorem Leaving.returns (h : Leaving fl minThreads maxThreads initial s) :
    Inevitable (Pool.step fl) CleanFailure (fun s => s.main = .createFailed) s :=
  Inevitable.of_rank (Leaving fl minThreads maxThreads initial) State.failRank
    (fun _ h hP => h.progress hP) (fun _ l _ h _ hG hst => h.step l hG hst) h

end

/-! ## the hang -/

/-- worker `v` sleeps, no wakeup is pending, and the creating thread waits for it or has still to -/
structure Stuck (s : State) (v : Nat) : Prop where
  asleep : (s.workers v).pc = .blocked
  waits : ∃ i j k, s.main = .failJoin i j ∧ j ≤ k ∧ k < i ∧ s.pool.threads k = some v

/-- the guard of the runs without spurious wakeups -/
def NoSpurious : State → Label → Prop := fun _ l => ∀ w, l ≠ .worker w .spurious

theorem Stuck.worker_step {v : Nat} (hI : CreationInv s) (h : Stuck s v) {a : WorkerAct}
    (ha : ∀ u, Label.worker w a ≠ .worker u .spurious) (hst : workerStep s w a = some s') :
    Stuck s' v := by
  obtain ⟨i, j, k, hmain, hjk, hki, hk⟩ := h.waits
  have hno := hI.not_deliverable (by rw [hmain]; rfl)
  have hm := WorkerMove.of_step hst
  refine ⟨?_, i, j, k, ?_, hjk, hki, ?_⟩
  · by_cases e : v = w
    · -- asleep, `v` makes no step of its own
      subst e
      unfold workerStep at hst
      rw [h.asleep] at hst
      cases a with
      | spurious => exact absurd rfl (ha v)
      | actCancel pass =>
        cases pass with
        | none =>
          simp only [Option.ite_none_right_eq_some] at hst
          exact absurd hst.1 (hno v)
        | some u => cases hst
      | _ => cases hst
    · cases hm with
      | cancelPass x hpc hd hx hb => exact absurd hd (hno w)
      | _ => simpa [e] using h.asleep
  · rw [← hmain]
    cases hm <;> rfl
  · rw [← hk]
    cases hm <;> rfl

theorem Stuck.main_step {v : Nat} (h : Stuck s v) (hm : MainMove s s') : Stuck s' v := by
  obtain ⟨i, j, k, hmain, hjk, hki, hk⟩ := h.waits
  cases hm with
  | failJoin i' j' hpc hlt ht =>
    rw [hmain] at hpc
    cases hpc
    refine ⟨h.asleep, i, j + 1, k, rfl, ?_, hki, hk⟩
    by_contra hle
    have hkj : k = j := by omega
    subst hkj
    simp [joinable, hk, h.asleep, WorkerPc.terminated] at ht
  | failJoined i' j' hpc hlt =>
    rw [hmain] at hpc
    cases hpc
    omega
  | drain task t hpc hq ht =>
    rw [hmain] at hpc
    cases hpc
  | _ => simp_all

section
variable {minThreads maxThreads initial : Nat}

/-- **A sleeper stays asleep**, and the creating thread does not return. -/
theorem Stuck.forever {v : Nat} {t : State} (hr : Reachable fl minThreads maxThreads initial s)
    (h : Stuck s v) (ht : Reach (step fl) NoSpurious s t) : Stuck t v := by
  suffices H : Reachable fl minThreads maxThreads initial t ∧ Stuck t v from H.2
  refine ht.inv (fun t => Reachable fl minThreads maxThreads initial t ∧ Stuck t v) ⟨hr, h⟩
    fun t l t' _ ⟨hr, h⟩ hG hst => ⟨hr.next l trivial hst, ?_⟩
  cases l with
  | worker w a => exact h.worker_step hr.creation hG hst
  | caller c a =>
    obtain ⟨i, j, k, hmain, -⟩ := h.waits
    have hopen := (CallerMove.of_step hst).not_creating hr.control
    rw [hmain] at hopen
    cases hopen
  | main a => exact h.main_step (.of_step hst)

/-- The broadcast reaches a worker before it sleeps. -/
theorem stuck_of_condWait {s₁ s₂ : State} {i v : Nat}
    (hr : Reachable fl minThreads maxThreads initial s) (hmain : s.main = .failBroadcast i)
    (hpc : (s.workers v).pc = .condWait) (hst₁ : step fl (.main .run) s = some s₁)
    (hst₂ : step fl (.worker v .run) s₁ = some s₂) :
    Reachable fl minThreads maxThreads initial s₂ ∧ Stuck s₂ v := by
  have hcr : v < s.created := by
    by_contra hge
    rw [(hr.created v).mpr (by omega)] at hpc
    cases hpc
  obtain ⟨k, hk, hv⟩ := hr.creation.slots (by rw [hmain]; rfl) (by rw [hmain]; rfl) v hcr
  rw [hmain] at hk
  refine ⟨(hr.next _ trivial hst₁).next _ trivial hst₂, ?_⟩
  simp only [step, mainStep, hmain, Option.some.injEq] at hst₁
  subst hst₁
  simp only [step, workerStep, mainGoto, broadcast, hpc, reduceCtorEq, if_false,
    Option.some.injEq] at hst₂
  subst hst₂
  exact ⟨by simp, i, 0, k, rfl, Nat.zero_le k, hk, hv⟩

/-- **A failed creation returns** if no worker is about to wait when the creating thread broadcasts:
it never joins a sleeper, and once it has broadcast it reaches its cleanup and returns -1 in every
run in which `pthread_setcancelstate` succeeds.  Otherwise the worker sleeps for ever, as far as it
depends on the program, and the creating thread with it. -/
theorem failedCreation_returns (fl : ℚ → ℚ) (minThreads maxThreads initial : Nat) :
    (∀ s v, ReachableBy fl BroadcastClear minThreads maxThreads initial s → ¬ Stuck s v) ∧
    (∀ s, ReachableBy fl CleanFailure minThreads maxThreads initial s → s.main.joining = true →
      Inevitable (step fl) CleanFailure (fun s => s.main = .createFailed) s) ∧
    ∀ s s₁ s₂ i v, Reachable fl minThreads maxThreads initial s → s.main = .failBroadcast i →
      (s.workers v).pc = .condWait → step fl (.main .run) s = some s₁ →
      step fl (.worker v .run) s₁ = some s₂ →
      ∀ t, Reach (step fl) NoSpurious s₂ t → Stuck t v ∧ t.main ≠ .createFailed := by
  refine ⟨fun s v h hs => ?_, fun s h hj => Leaving.returns ⟨h, hj⟩, ?_⟩
  · obtain ⟨i, j, k, hmain, -⟩ := hs.waits
    exact (h.awake (by rw [hmain]; rfl) v).2 hs.asleep
  · intro s s₁ s₂ i v hr hmain hpc hst₁ hst₂ t ht
    obtain ⟨hr₂, hs₂⟩ := stuck_of_condWait hr hmain hpc hst₁ hst₂
    have hstuck := hs₂.forever hr₂ ht
    refine ⟨hstuck, fun hfailed => ?_⟩
    obtain ⟨i', j, k, hmain', -⟩ := hstuck.waits
    rw [hfailed] at hmain'
    cases hmain'

end

/-- The creation of the second thread fails when worker 0 has run `n` statements. -/
def failRun (n : Nat) : List Label :=
  [.main (.result true)] ++ List.replicate n (.worker 0 .run) ++ [.main (.result false), .main .run]

/-- **The creating thread joins a worker that is asleep**, for ever. -/
theorem failedCreation_hangs : ∃ s, Reachable id 1 2 2 s ∧ s.main = .failJoin 1 0 ∧
    s.pool.threads 0 = some 0 ∧ (s.workers 0).pc = .blocked ∧
    ∀ t, Reach (step id) NoSpurious s t → Stuck t 0 := by
  have hrun : (exec (step id) (startState 1 2 2 0) (failRun 3 ++ [.main .run, .worker 0 .run])).map
      (fun s => (s.main, s.pool.threads 0, (s.workers 0).pc)) =
      some (.failJoin 1 0, some 0, .blocked) := by decide +kernel
  obtain ⟨s, hs, hv⟩ := Option.map_eq_some_iff.mp hrun
  simp only [Prod.mk.injEq] at hv
  obtain ⟨hmain, hslot, hpc⟩ := hv
  have hreach : Reachable id 1 2 2 s := ⟨0, true, true, true, _, rfl, Reach.of_exec _ hs⟩
  have hstuck : Stuck s 0 := ⟨hpc, 1, 0, 0, hmain, le_rfl, Nat.zero_lt_one, hslot⟩
  exact ⟨s, hreach, hmain, hslot, hpc, fun t ht => hstuck.forever hreach ht⟩

def cleanFailure (s : State) : Label → Bool
  | .main _ => (List.range s.created).all fun v => (s.workers v).pc != .condWait
  | .worker _ .setcancelFails => false
  | _ => true

theorem cleanFailure_sound (hC : CreatedInv s) (l : Label) (h : cleanFailure s l = true) :
    CleanFailure s l := by
  constructor
  · cases l with
    | main a =>
      intro i _ v
      simp only [cleanFailure, List.all_eq_true, List.mem_range, bne_iff_ne] at h
      by_cases hv : v < s.created
      · exact h v hv
      · rw [(hC v).mpr (by omega)]
        simp
    | _ => trivial
  · rintro w rfl
    cases h

theorem reach_of_cleanFailure {minThreads maxThreads initial : Nat} {now : Int} (ls : List Label)
    (h : exec (guarded cleanFailure (step fl)) (startState minThreads maxThreads initial now) ls =
      some s) : Reach (step fl) CleanFailure (startState minThreads maxThreads initial now) s :=
  Reach.of_guarded CreatedInv cleanFailure (fun _ l hC hl => cleanFailure_sound hC l hl)
    (fun _ l _ hC _ hst => hC.step l hst) (CreatedInv.start _ _ _ _) ls h

/-- Worker 0 sleeps when the creating thread broadcasts, and the creation returns; worker 0 is about
to wait, and the creation hangs. -/
theorem failedCreation_returns_asleep :
    (∃ s, ReachableBy id CleanFailure 1 2 2 s ∧ s.main = .failJoin 1 0 ∧ ¬ Stuck s 0 ∧
      Inevitable (step id) CleanFailure (fun s => s.main = .createFailed) s) ∧
    ∃ s, Reachable id 1 2 2 s ∧ Stuck s 0 := by
  constructor
  · have hrun : (exec (guarded cleanFailure (step id)) (startState 1 2 2 0)
        (failRun 4 ++ [.main .run])).map State.main = some (.failJoin 1 0) := by decide +kernel
    obtain ⟨s, hs, hmain⟩ := Option.map_eq_some_iff.mp hrun
    have hreach : ReachableBy id CleanFailure 1 2 2 s :=
      ⟨0, true, true, true, _, rfl, reach_of_cleanFailure _ hs⟩
    exact ⟨s, hreach, hmain,
      (failedCreation_returns id 1 2 2).1 s 0 (hreach.mono fun _ _ hG => hG.1),
      (failedCreation_returns id 1 2 2).2.1 s hreach (by rw [hmain]; rfl)⟩
  · have hrun : (exec (step id) (startState 1 2 2 0) (failRun 3)).bind (fun s =>
        (step id (.main .run) s).bind fun s₁ => (step id (.worker 0 .run) s₁).map fun _ =>
          (s.main, (s.workers 0).pc)) = some (.failBroadcast 1, .condWait) := by decide +kernel
    obtain ⟨s, hs, hv⟩ := Option.bind_eq_some_iff.mp hrun
    obtain ⟨s₁, hs₁, hv⟩ := Option.bind_eq_some_iff.mp hv
    obtain ⟨s₂, hs₂, hv⟩ := Option.map_eq_some_iff.mp hv
    obtain ⟨hmain, hpc⟩ := Prod.mk.inj hv
    have hreach : Reachable id 1 2 2 s := ⟨0, true, true, true, _, rfl, Reach.of_exec _ hs⟩
    have hstuck := (failedCreation_returns id 1 2 2).2.2 s s₁ s₂ 1 0 hreach hmain hpc hs₁ hs₂ s₂
      .start
    exact ⟨s₂, (hreach.next _ trivial hs₁).next _ trivial hs₂, hstuck.1⟩

end Pool
