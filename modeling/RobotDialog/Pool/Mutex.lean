import RobotDialog.Pool.Moves

/-!
# The thread pool: who has `queue_mutex`

The owner of the mutex is the thread whose program point lies between a lock and its unlock
(`MutexInv`).  Each move acquires the mutex, releases it or leaves it alone (`LockEffect`), and only
the moving thread enters or leaves a locked region.

* `CreatedInv`         the workers that exist are those with a number below `created`;
* `WorkerPc.Pushed`    what a move does to the program point of another worker;
* `LockEffect`         what a move of thread `t` does to the mutex;
* `MutexInv.step`      the owner is the thread inside a locked region;
* `Reachable`          the states of the runs of a pool, from its creation on;
* `Reachable.created`, `Reachable.mutex`   both invariants hold of every reachable state.
-/

set_option linter.unusedSimpArgs false

namespace Pool
open State Lts

variable {fl : ℚ → ℚ} {s s' : State} {w c : Nat}

/-! ## the workers that exist -/

def CreatedInv (s : State) : Prop := ∀ v, (s.workers v).pc = .notCreated ↔ s.created ≤ v

theorem CreatedInv.start (minThreads maxThreads initial : Nat) (now : Int) :
    CreatedInv (startState minThreads maxThreads initial now) := by
  intro v
  simp [startState]

theorem CreatedInv.worker_step (h : CreatedInv s) (hm : WorkerMove s w s') : CreatedInv s' := by
  intro v
  have hw := h w
  have hv := h v
  cases hm with
  | cancelPass u hpc hd hu hb =>
    have hu' := h u
    simp only [goto, setWorker, Function.update_apply]
    split <;> [skip; split] <;> simp_all
  | setcancelFails hpc =>
    rcases hpc with hpc | hpc <;> simp only [goto, setWorker, Function.update_apply] <;>
      split <;> simp_all
  | _ =>
    simp only [goto, setWorker, setOwner, setPool, setHeap, Function.update_apply]
    split <;> simp_all

theorem CreatedInv.create (h : CreatedInv s) (i : Nat) : CreatedInv (s.createWorker i) := by
  intro v
  have hv := h v
  simp only [createWorker, Function.update_apply]
  split
  · subst v; simp
  · rw [hv]; omega

theorem CreatedInv.broadcast (h : CreatedInv s) : CreatedInv s.broadcast := by
  intro v
  have hv := h v
  simp only [State.broadcast]
  split <;> simp_all

theorem CreatedInv.caller_step (h : CreatedInv s) (hm : CallerMove fl s c s') :
    CreatedInv s' := by
  cases hm with
  | created i new now hpc hi => exact h.create i
  | signal v hpc hb =>
    intro u
    have hu := h u
    have hv := h v
    simp only [goto, setWorker, callerGoto, Function.update_apply]
    split <;> simp_all
  | cancel i new v now hpc hi hv =>
    intro u
    have hu := h u
    simp only [setWorker, callerGoto, Function.update_apply]
    split <;> simp_all
  | _ => exact h

theorem CreatedInv.main_step (h : CreatedInv s) (hm : MainMove s s') : CreatedInv s' := by
  cases hm with
  | created i initial hpc hi => exact h.create i
  | failBroadcast i hpc => exact h.broadcast
  | destroyBroadcast hpc => exact h.broadcast
  | _ => exact h

theorem CreatedInv.step (h : CreatedInv s) (l : Label) (hs : step fl l s = some s') :
    CreatedInv s' := by
  cases l with
  | worker w a => exact h.worker_step (.of_step hs)
  | caller c a => exact h.caller_step (.of_step hs)
  | main a => exact h.main_step (.of_step hs)

/-! ## how a step moves the workers -/

/-- how the program point of a worker changes when another thread moves: a sleeper may wake, a
thread may start -/
inductive WorkerPc.Pushed (p : WorkerPc) : WorkerPc → Prop
  | same : Pushed p p
  | wake (h : p = .blocked) : Pushed p .woken
  | start (h : p = .notCreated) : Pushed p .lock

/-- A view of the program points under which a sleeper is like a thread that was woken, and a thread
that starts like one that does not exist. -/
theorem WorkerPc.Pushed.view {α : Type*} {p q : WorkerPc} (h : p.Pushed q) (f : WorkerPc → α)
    (hwake : f .woken = f .blocked) (hstart : f .lock = f .notCreated) : f q = f p := by
  cases h with
  | same => rfl
  | wake h => rw [h, hwake]
  | start h => rw [h, hstart]

theorem WorkerPc.Pushed.holds {p q : WorkerPc} (h : p.Pushed q) : q.holds = p.holds :=
  h.view WorkerPc.holds rfl rfl

theorem WorkerMove.pushed (hm : WorkerMove s w s') {v : Nat} (hv : v ≠ w) :
    (s.workers v).pc.Pushed (s'.workers v).pc := by
  cases hm with
  | cancelPass x hpc hd hx hb =>
    by_cases e : v = x
    · subst e; simpa using WorkerPc.Pushed.wake hb
    · simpa [e, hv] using WorkerPc.Pushed.same
  | _ => simpa [hv] using WorkerPc.Pushed.same

theorem pushed_create (hC : CreatedInv s) (i v : Nat) :
    (s.workers v).pc.Pushed ((s.createWorker i).workers v).pc := by
  by_cases e : v = s.created
  · subst e; simpa using WorkerPc.Pushed.start ((hC s.created).mpr le_rfl)
  · simpa [e] using WorkerPc.Pushed.same

theorem pushed_broadcast (s : State) (v : Nat) :
    (s.workers v).pc.Pushed (s.broadcast.workers v).pc := by
  by_cases e : (s.workers v).pc = .blocked
  · simpa [e] using WorkerPc.Pushed.wake rfl
  · simpa [e] using WorkerPc.Pushed.same

theorem CallerMove.pushed (hC : CreatedInv s) (hm : CallerMove fl s c s') (v : Nat) :
    (s.workers v).pc.Pushed (s'.workers v).pc := by
  cases hm with
  | created i new now hpc hi => exact pushed_create hC i v
  | signal x hpc hb =>
    by_cases e : v = x
    · subst e; simpa using WorkerPc.Pushed.wake hb
    · simpa [e] using WorkerPc.Pushed.same
  | cancel i new x now hpc hi hx =>
    by_cases e : v = x
    · subst e; simpa using WorkerPc.Pushed.same
    · simpa [e] using WorkerPc.Pushed.same
  | _ => exact .same

theorem MainMove.pushed (hC : CreatedInv s) (hm : MainMove s s') (v : Nat) :
    (s.workers v).pc.Pushed (s'.workers v).pc := by
  cases hm with
  | created i initial hpc hi => exact pushed_create hC i v
  | failBroadcast i hpc => exact pushed_broadcast s v
  | destroyBroadcast hpc => exact pushed_broadcast s v
  | _ => exact .same

/-! ## the effect of a move on the mutex -/

inductive LockEffect (s : State) (t : Thread) (s' : State) : Prop
  | acquire (hfree : s.owner = none) (ho : s'.owner = some t) (ht : s'.holds t = true)
  | release (hs : s.holds t = true) (ho : s'.owner = none) (ht : s'.holds t = false)
  | keep (ho : s'.owner = s.owner) (ht : s'.holds t = s.holds t)

/-- Only thread `t` enters or leaves a locked region. -/
def HoldsFrame (s : State) (t : Thread) (s' : State) : Prop :=
  ∀ u, u ≠ t → s'.holds u = s.holds u

theorem WorkerMove.lockEffect (hm : WorkerMove s w s') : LockEffect s (.worker w) s' := by
  cases hm with
  | lock hpc hfree => exact .acquire hfree rfl (by simp [holds, WorkerPc.holds])
  | wakeup hpc hfree => exact .acquire hfree rfl (by simp [holds, WorkerPc.holds])
  | lockCancelled hpc hfree => exact .acquire hfree rfl (by simp [holds, WorkerPc.holds])
  | lockStats task ms hpc hfree => exact .acquire hfree rfl (by simp [holds, WorkerPc.holds])
  | sleep hpc =>
    exact .release (by simp [holds, hpc, WorkerPc.holds]) rfl (by simp [holds, WorkerPc.holds])
  | cleanup hpc =>
    exact .release (by simp [holds, hpc, WorkerPc.holds]) rfl (by simp [holds, WorkerPc.holds])
  | unlockShutdown hpc =>
    exact .release (by simp [holds, hpc, WorkerPc.holds]) rfl (by simp [holds, WorkerPc.holds])
  | unlockTask task hpc =>
    exact .release (by simp [holds, hpc, WorkerPc.holds]) rfl (by simp [holds, WorkerPc.holds])
  | unlockStats task hpc =>
    exact .release (by simp [holds, hpc, WorkerPc.holds]) rfl (by simp [holds, WorkerPc.holds])
  | setcancelFails hpc =>
    exact .keep rfl (by rcases hpc with hpc | hpc <;> simp [holds, hpc, WorkerPc.holds])
  | cancelPass v hpc hd hv hb =>
    exact .keep rfl (by simp [holds, hpc, WorkerPc.holds, Function.update_of_ne hv.symm])
  | _ => exact .keep rfl (by simp [holds, WorkerPc.holds, *])

theorem WorkerMove.holdsFrame (hm : WorkerMove s w s') : HoldsFrame s (.worker w) s' := by
  intro u hu
  cases u with
  | worker v => exact (hm.pushed fun e => hu (e ▸ rfl)).holds
  | caller c => cases hm <;> rfl
  | main => cases hm <;> rfl

theorem scaleBranch_holds (fl : ℚ → ℚ) (p : ThreadPool) (now : Int) :
    (scaleBranch fl p now).holds = true := by
  unfold scaleBranch
  split
  · rfl
  · split <;> rfl

theorem CallerMove.lockEffect (hm : CallerMove fl s c s') : LockEffect s (.caller c) s' := by
  cases hm with
  | lockAdd task hpc hfree => exact .acquire hfree rfl (by simp [holds, CallerPc.holds])
  | scaleLock now hpc hfree => exact .acquire hfree rfl (by simp [holds, CallerPc.holds])
  | unlockReject task hpc =>
    exact .release (by simp [holds, hpc, CallerPc.holds]) rfl (by simp [holds, CallerPc.holds])
  | unlockAdd hpc =>
    exact .release (by simp [holds, hpc, CallerPc.holds]) rfl (by simp [holds, CallerPc.holds])
  | scaleUnlock hpc =>
    exact .release (by simp [holds, hpc, CallerPc.holds]) rfl (by simp [holds, CallerPc.holds])
  | scaleTest now hpc =>
    exact .keep rfl (by simp [holds, hpc, scaleBranch_holds]; rfl)
  | _ => exact .keep rfl (by simp [holds, CallerPc.holds, *])

theorem CallerMove.holdsFrame (hC : CreatedInv s) (hm : CallerMove fl s c s') :
    HoldsFrame s (.caller c) s' := by
  intro u hu
  cases u with
  | worker v => exact (hm.pushed hC v).holds
  | caller d =>
    have hd : d ≠ c := fun e => hu (e ▸ rfl)
    cases hm <;> simp [State.holds, hd]
  | main => cases hm <;> rfl

theorem MainMove.lockEffect (hm : MainMove s s') : LockEffect s .main s' := by
  cases hm with
  | destroyLock hpc hfree => exact .acquire hfree rfl rfl
  | destroyUnlock hpc => exact .release (by simp [holds, hpc, MainPc.holds]) rfl rfl
  | _ => exact .keep rfl (by simp [holds, MainPc.holds, *])

theorem MainMove.holdsFrame (hC : CreatedInv s) (hm : MainMove s s') : HoldsFrame s .main s' := by
  intro u hu
  cases u with
  | worker v => exact (hm.pushed hC v).holds
  | caller d => cases hm <;> rfl
  | main => exact absurd rfl hu

/-! ## the owner -/

/-- the owner of the mutex is the thread inside a locked region -/
def MutexInv (s : State) : Prop := ∀ t, s.holds t = true ↔ s.owner = some t

theorem MutexInv.start (minThreads maxThreads initial : Nat) (now : Int) :
    MutexInv (startState minThreads maxThreads initial now) := by
  intro t
  cases t <;> simp [startState, holds, WorkerPc.holds, CallerPc.holds, MainPc.holds]

theorem MutexInv.move {t : Thread} (h : MutexInv s) (he : LockEffect s t s')
    (hf : HoldsFrame s t s') : MutexInv s' := by
  intro u
  have hu := h u
  by_cases e : u = t
  · subst e
    cases he with
    | acquire _ ho ht => simp [ho, ht]
    | release _ ho ht => simp [ho, ht]
    | keep ho ht => rw [ho, ht, hu]
  · rw [hf u e, hu]
    cases he with
    | acquire hfree ho _ => simp [hfree, ho, Ne.symm e]
    | release hs ho _ => simp [(h t).mp hs, ho, Ne.symm e]
    | keep ho _ => rw [ho]

theorem MutexInv.step (hC : CreatedInv s) (h : MutexInv s) (l : Label)
    (hs : step fl l s = some s') : MutexInv s' := by
  cases l with
  | worker w a => exact h.move (WorkerMove.of_step hs).lockEffect (WorkerMove.of_step hs).holdsFrame
  | caller c a =>
    exact h.move (CallerMove.of_step hs).lockEffect ((CallerMove.of_step hs).holdsFrame hC)
  | main a => exact h.move (MainMove.of_step hs).lockEffect ((MainMove.of_step hs).holdsFrame hC)

theorem MutexInv.free (h : MutexInv s) (hf : s.owner = none) (t : Thread) :
    s.holds t = false := by
  cases e : s.holds t with
  | false => rfl
  | true => exact absurd ((h t).mp e) (by simp [hf])

theorem MutexInv.excl (h : MutexInv s) {t u : Thread} (ht : s.holds t = true)
    (hu : s.holds u = true) : t = u := by
  have h1 := (h t).mp ht
  have h2 := (h u).mp hu
  rw [h1] at h2
  exact Option.some.inj h2

/-! ## the reachable states -/

/-- the states of the runs of a pool whose steps satisfy `G`, from the thread loop of its
creation on -/
def ReachableBy (fl : ℚ → ℚ) (G : State → Label → Prop) (minThreads maxThreads initial : Nat)
    (s : State) : Prop :=
  ∃ now mallocOk mutexOk condOk s₀,
    threadPoolCreateWithLimits minThreads maxThreads initial now mallocOk mutexOk condOk = some s₀ ∧
      Reach (Pool.step fl) G s₀ s

/-- the states of all runs of a pool -/
abbrev Reachable (fl : ℚ → ℚ) (minThreads maxThreads initial : Nat) (s : State) : Prop :=
  ReachableBy fl Any minThreads maxThreads initial s

theorem create_eq {minThreads maxThreads initial : Nat} {now : Int} {b₁ b₂ b₃ : Bool} {s₀ : State}
    (h : threadPoolCreateWithLimits minThreads maxThreads initial now b₁ b₂ b₃ = some s₀) :
    minThreads ≤ initial ∧ initial ≤ maxThreads ∧
      s₀ = startState minThreads maxThreads initial now := by
  unfold threadPoolCreateWithLimits at h
  split at h
  · cases h
  · split at h
    · cases h
      exact ⟨by omega, by omega, rfl⟩
    · cases h

section
variable {G : State → Label → Prop} {minThreads maxThreads initial : Nat}

/-- **The invariant rule for pools.** -/
theorem ReachableBy.inv (I : State → Prop)
    (h0 : ∀ now, minThreads ≤ initial → initial ≤ maxThreads →
      I (startState minThreads maxThreads initial now))
    (hstep : ∀ s l s', ReachableBy fl G minThreads maxThreads initial s → I s → G s l →
      Pool.step fl l s = some s' → I s')
    (h : ReachableBy fl G minThreads maxThreads initial s) : I s := by
  obtain ⟨now, b₁, b₂, b₃, s₀, hc, hr⟩ := h
  obtain ⟨hmin, hmax, rfl⟩ := create_eq hc
  exact hr.inv I (h0 now hmin hmax) fun s l s' hs => hstep s l s' ⟨now, b₁, b₂, b₃, _, hc, hs⟩

theorem ReachableBy.next (h : ReachableBy fl G minThreads maxThreads initial s) (l : Label)
    (hG : G s l) (hst : Pool.step fl l s = some s') :
    ReachableBy fl G minThreads maxThreads initial s' := by
  obtain ⟨now, b₁, b₂, b₃, s₀, hc, hr⟩ := h
  exact ⟨now, b₁, b₂, b₃, s₀, hc, hr.next l hG hst⟩

theorem ReachableBy.guard {G' : State → Label → Prop}
    (hG : ∀ s l s', ReachableBy fl G minThreads maxThreads initial s → G s l →
      Pool.step fl l s = some s' → G' s l)
    (h : ReachableBy fl G minThreads maxThreads initial s) :
    ReachableBy fl G' minThreads maxThreads initial s := by
  obtain ⟨now, b₁, b₂, b₃, s₀, hc, hr⟩ := h
  exact ⟨now, b₁, b₂, b₃, s₀, hc,
    hr.guard fun s l s' hs => hG s l s' ⟨now, b₁, b₂, b₃, s₀, hc, hs⟩⟩

theorem ReachableBy.mono {G' : State → Label → Prop} (hG : ∀ s l, G s l → G' s l)
    (h : ReachableBy fl G minThreads maxThreads initial s) :
    ReachableBy fl G' minThreads maxThreads initial s :=
  h.guard fun s l _ _ hl _ => hG s l hl

theorem ReachableBy.created (h : ReachableBy fl G minThreads maxThreads initial s) :
    CreatedInv s :=
  h.inv CreatedInv (fun now _ _ => CreatedInv.start _ _ _ now) fun _ l _ _ hI _ hs => hI.step l hs

theorem ReachableBy.mutex (h : ReachableBy fl G minThreads maxThreads initial s) : MutexInv s :=
  h.inv MutexInv (fun now _ _ => MutexInv.start _ _ _ now)
    fun _ l _ hr hI _ hs => hI.step hr.created l hs

end
end Pool
