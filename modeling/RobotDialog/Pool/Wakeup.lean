import RobotDialog.Pool.Slots

/-!
# The thread pool: no lost wakeup

With at least one thread in the pool and a `pthread_setcancelstate` that does not fail, a task that
waits while the mutex is free has a worker that is on its way to the queue.

* `EndInv`              a worker only leaves the loop when it was cancelled or the pool shuts down;
* `SlotInv.first_live`  the worker in slot 0 is never cancelled;
* `WorkerPc.awake`      the worker will look at the queue before it sleeps or ends;
* `WakeInv`             while tasks wait, either a caller is about to signal or a worker is awake;
* `State.unlocking`     the thread is at a statement that releases the mutex;
* `noLostWakeup`        the headline result.
-/

set_option linter.unusedSimpArgs false

namespace Pool
open State Lts

variable {fl : ℚ → ℚ} {s s' : State} {w c : Nat}

/-- the guard of the runs in which `pthread_setcancelstate` succeeds -/
def SetcancelSucceeds : State → Label → Prop := fun _ l => ∀ w, l ≠ .worker w .setcancelFails

def setcancelSucceeds (_ : State) : Label → Bool
  | .worker _ .setcancelFails => false
  | _ => true

theorem reach_of_setcancelSucceeds {s₀ : State} (ls : List Label)
    (h : exec (guarded setcancelSucceeds (step fl)) s₀ ls = some s) :
    Reach (step fl) SetcancelSucceeds s₀ s := by
  refine Reach.of_guarded (fun _ => True) setcancelSucceeds ?_ (fun _ _ _ _ _ _ => trivial)
    trivial ls h
  rintro s l _ hl w rfl
  cases hl

/-! ## how a worker ends -/

/-- what a worker on its way out says about its cancellation and about `shutdown` -/
def WorkerPc.EndOk (pending shutdown : Bool) : WorkerPc → Prop
  | .cancelled | .cleanup => pending = true
  | .unlockShutdown => shutdown = true
  | .exited => pending = true ∨ shutdown = true
  | .exitedLocked => False
  | _ => True

/-- no worker has ended without a reason -/
def EndInv (s : State) : Prop :=
  ∀ v, (s.workers v).pc.EndOk (s.workers v).cancelPending s.pool.shutdown

theorem EndInv.start (minThreads maxThreads initial : Nat) (now : Int) :
    EndInv (startState minThreads maxThreads initial now) :=
  fun _ => trivial

theorem WorkerPc.Pushed.endOk {p q : WorkerPc} {b b' d d' : Bool} (h : p.Pushed q)
    (hp : p.EndOk b d) (hb : b = true → b' = true) (hd : d = true → d' = true) : q.EndOk b' d' := by
  cases h with
  | same => cases p <;> simp_all [WorkerPc.EndOk]; tauto
  | wake => trivial
  | start => trivial

theorem EndInv.worker_step (h : EndInv s) {a : WorkerAct} (ha : a ≠ .setcancelFails)
    (hst : workerStep s w a = some s') : EndInv s' := by
  have hm := WorkerMove.of_step hst
  have hp := hm.pending_eq
  have hsh : s'.pool.shutdown = s.pool.shutdown := by cases hm <;> rfl
  intro v
  rw [hp, hsh]
  by_cases e : v = w
  · subst e
    have hv := h v
    cases hm with
    | setcancelFails hpc =>
      -- the only label that leads here is excluded
      unfold workerStep at hst
      rcases hpc with hpc | hpc <;> rw [hpc] at hst <;> cases a <;>
        simp_all [Function.update_eq_iff]
    | cancelEarly hpc hd => simpa [WorkerPc.EndOk] using hd.2
    | cancelAsleep hpc hd => simpa [WorkerPc.EndOk] using hd.2
    | cancelPass x hpc hd hx hb => simpa [WorkerPc.EndOk, Function.update_of_ne hx.symm] using hd.2
    | cancelLast hpc hd hn => simpa [WorkerPc.EndOk] using hd.2
    | lockCancelled hpc hfree => simpa [WorkerPc.EndOk, hpc] using hv
    | cleanup hpc =>
      rw [hpc] at hv
      simpa [WorkerPc.EndOk] using Or.inl hv
    | seeShutdown hpc hs => simpa [WorkerPc.EndOk] using hs
    | unlockShutdown hpc =>
      rw [hpc] at hv
      simpa [WorkerPc.EndOk] using Or.inr hv
    | _ => simp [WorkerPc.EndOk]
  · exact (hm.pushed e).endOk (h v) id id

theorem EndInv.pushed (hC : CreatedInv s) (h : EndInv s)
    (hpush : ∀ v, (s.workers v).pc.Pushed (s'.workers v).pc)
    (hpending : ∀ v, v < s.created → (s.workers v).cancelPending = true →
      (s'.workers v).cancelPending = true)
    (hsh : s.pool.shutdown = true → s'.pool.shutdown = true) : EndInv s' := by
  intro v
  by_cases hv : v < s.created
  · exact (hpush v).endOk (h v) (hpending v hv) hsh
  · have hpc := (hC v).mpr (by omega)
    have hp := hpush v
    rw [hpc] at hp
    cases hq : (s'.workers v).pc <;> rw [hq] at hp <;> trivial

theorem CallerMove.pending_mono (hm : CallerMove fl s c s') {v : Nat} (hv : v < s.created)
    (hp : (s.workers v).cancelPending = true) : (s'.workers v).cancelPending = true := by
  cases hm with
  | created i new now hpc hi => simpa [hv.ne] using hp
  | signal x hpc hx =>
    by_cases e : v = x
    · subst e; simpa using hp
    · simpa [e] using hp
  | cancel i new x now hpc hi hx =>
    by_cases e : v = x
    · subst e; simp
    · simpa [e] using hp
  | _ => exact hp

theorem EndInv.step (hC : CreatedInv s) (h : EndInv s) (l : Label) (hl : SetcancelSucceeds s l)
    (hst : step fl l s = some s') : EndInv s' := by
  cases l with
  | worker w a => exact h.worker_step (fun e => hl w (e ▸ rfl)) hst
  | caller c a =>
    have hm := CallerMove.of_step hst
    refine h.pushed hC (hm.pushed hC) (fun v hv => hm.pending_mono hv) ?_
    cases hm <;> exact id
  | main a =>
    have hm := MainMove.of_step hst
    refine h.pushed hC (hm.pushed hC) (fun v hv hp => by rw [hm.pending_eq hv.ne]; exact hp) ?_
    cases hm <;> first | exact id | exact fun _ => rfl

/-! ## the worker in slot 0 -/

/-- A pool with at least one thread always has a worker that nobody has cancelled. -/
theorem SlotInv.first_live (h : SlotInv s) (hC : CreatedInv s) (he : EndInv s)
    (hmin : 1 ≤ s.pool.minThreads) (hopen : s.main.creating = false)
    (hsh : s.pool.shutdown = false) :
    ∃ v, s.pool.threads 0 = some v ∧ (s.workers v).cancelPending = false ∧
      (s.workers v).pc ≠ .notCreated ∧ (s.workers v).pc.EndOk false false := by
  have hb := h.bounds
  obtain ⟨v, hv⟩ := Option.ne_none_iff_exists'.mp
    (h.filled 0 (by rw [MainPc.filled_eq hopen]; omega))
  have hclean : (s.workers v).cancelPending = false := by
    refine h.clean 0 v hv (by omega) fun c => ?_
    have hc := h.scale c
    cases hpc : (s.callers c).pc with
    | scaleDown j new now =>
      rw [hpc] at hc
      obtain ⟨hj, _, hnew⟩ := hc
      show ((0 : Nat) : Int) ≤ j
      omega
    | scaleStoreCount new now =>
      rw [hpc] at hc
      exact Nat.lt_of_lt_of_le hmin hc.1
    | _ => trivial
  refine ⟨v, hv, hclean, ?_, ?_⟩
  · intro hpc
    have := h.stored 0 v hv
    have := (hC v).mp hpc
    omega
  · have := he v
    rw [hclean, hsh] at this
    exact this

/-! ## waiting tasks have a worker that comes -/

/-- the worker looks at the queue before it sleeps or ends -/
def WorkerPc.awake : WorkerPc → Bool
  | .notCreated | .condWait | .blocked | .cancelled | .cleanup | .exited | .exitedLocked => false
  | _ => true

/-- the caller has linked a task and not signalled yet -/
def CallerPc.aboutToSignal : CallerPc → Bool
  | .incQueueSize | .signal => true
  | _ => false

def WakeInv (s : State) : Prop :=
  s.pool.shutdown = false → s.pool.queueHead ≠ none →
    (∃ c, (s.callers c).pc.aboutToSignal = true) ∨ ∃ v, (s.workers v).pc.awake = true

theorem WorkerPc.Pushed.awake {p q : WorkerPc} (h : p.Pushed q) (hp : p.awake = true) :
    q.awake = true := by
  cases h with
  | same => exact hp
  | wake => rfl
  | start => rfl

theorem first_awake (hC : CreatedInv s) (hcon : ControlInv s) (hsl : SlotInv s) (he : EndInv s)
    (hmin : 1 ≤ s.pool.minThreads) (hsh : s.pool.shutdown = false)
    (hq : s.pool.queueHead ≠ none) :
    ∃ v, (s.workers v).cancelPending = false ∧
      ((s.workers v).pc = .blocked ∨ (s.workers v).pc.awake = true) := by
  have hopen : s.main.creating = false := by
    by_contra hcr
    exact hq (hcon.quiet (by simpa using hcr)).2
  obtain ⟨v, _, hclean, hnew, hend⟩ := hsl.first_live hC he hmin hopen hsh
  refine ⟨v, hclean, ?_⟩
  have hsee := hcon.sees v
  cases hpc : (s.workers v).pc <;>
    simp_all [WorkerPc.EndOk, WorkerPc.awake, WorkerPc.Sees]

theorem anyBlocked_of_blocked (hC : CreatedInv s) {v : Nat} (hv : (s.workers v).pc = .blocked) :
    s.anyBlocked = true := by
  have hlt : v < s.created := by
    by_contra h
    rw [(hC v).mpr (by omega)] at hv
    cases hv
  unfold State.anyBlocked
  rw [List.any_eq_true]
  exact ⟨v, List.mem_range.mpr hlt, by rw [hv]; rfl⟩

theorem WakeInv.worker_step (hC : CreatedInv s) (hcon : ControlInv s) (hsl : SlotInv s)
    (he : EndInv s) (hmin : 1 ≤ s.pool.minThreads) (h : WakeInv s) (hm : WorkerMove s w s')
    (he' : EndInv s') : WakeInv s' := by
  intro hsh hq
  have hcallers : s'.callers = s.callers := by cases hm <;> rfl
  have hsh' : s.pool.shutdown = false := by
    rw [← hsh]
    cases hm <;> rfl
  by_cases haw : (s'.workers w).pc.awake = true
  · exact .inr ⟨w, haw⟩
  -- the mover will not look at the queue: it found it empty, it was cancelled, or it ended
  have hhead : s'.pool.queueHead = s.pool.queueHead := by
    cases hm <;> simp_all [WorkerPc.awake]
  rw [hhead] at hq
  have hkeep : (s.workers w).pc.awake = false → WakeInv s →
      (∃ c, (s'.callers c).pc.aboutToSignal = true) ∨
      ∃ v, (s'.workers v).pc.awake = true := by
    intro hwas h
    rcases h hsh' hq with ⟨d, hd⟩ | ⟨v, hv⟩
    · exact .inl ⟨d, by rw [hcallers]; exact hd⟩
    · have hvw : v ≠ w := fun e => by rw [e, hwas] at hv; cases hv
      exact .inr ⟨v, (hm.pushed hvw).awake hv⟩
  have hsee := hcon.sees w
  have hend := he w
  have hend' := he' w
  cases hm with
  | queueEmpty hpc hq' hs => exact absurd hq' hq
  | sleep hpc =>
    rw [hpc] at hsee
    exact absurd hsee hq
  | cancelPass v hpc hd hv hb => exact .inr ⟨v, by simp [WorkerPc.awake]⟩
  | cancelLast hpc hd hn =>
    obtain ⟨v, hclean, hv⟩ := first_awake hC hcon hsl he hmin hsh' hq
    have hvw : v ≠ w := by
      rintro rfl
      rw [hd.2] at hclean
      cases hclean
    rcases hv with hv | hv
    · have hC' : CreatedInv (s.goto w .cancelled) := hC.worker_step (.cancelLast hpc hd hn)
      have hb : ((s.goto w .cancelled).workers v).pc = .blocked := by simpa [hvw] using hv
      rw [anyBlocked_of_blocked hC' hb] at hn
      cases hn
    · exact .inr ⟨v, by simpa [hvw] using hv⟩
  | setcancelFails hpc => simp [WorkerPc.EndOk] at hend'
  | unlockShutdown hpc =>
    rw [hpc] at hend
    rw [show s.pool.shutdown = true from hend] at hsh'
    cases hsh'
  | cancelEarly hpc hd => exact hkeep (by rw [hpc]; rfl) h
  | spurious hpc => exact hkeep (by rw [hpc]; rfl) h
  | cancelAsleep hpc hd => exact hkeep (by rw [hpc]; rfl) h
  | lockCancelled hpc hfree => exact hkeep (by rw [hpc]; rfl) h
  | cleanup hpc => exact hkeep (by rw [hpc]; rfl) h
  | _ => simp [WorkerPc.awake] at haw

theorem WakeInv.caller_step (hC : CreatedInv s) (hcon : ControlInv s) (hsl : SlotInv s)
    (he : EndInv s) (hmin : 1 ≤ s.pool.minThreads) (h : WakeInv s)
    (hm : CallerMove fl s c s') : WakeInv s' := by
  intro hsh hq
  have hpush := hm.pushed hC
  have hsh' : s.pool.shutdown = false := by
    rw [← hsh]
    cases hm <;> rfl
  -- a move of a caller that is not about to signal and does not touch the queue
  have hkeep : s'.pool.queueHead = s.pool.queueHead → (s.callers c).pc.aboutToSignal = false →
      (∀ d, d ≠ c → s'.callers d = s.callers d) →
      (∃ c, (s'.callers c).pc.aboutToSignal = true) ∨ ∃ v, (s'.workers v).pc.awake = true := by
    intro hhead hwas hothers
    rw [hhead] at hq
    rcases h hsh' hq with ⟨d, hd⟩ | ⟨v, hv⟩
    · have hdc : d ≠ c := fun e => by rw [e, hwas] at hd; cases hd
      exact .inl ⟨d, by rw [hothers d hdc]; exact hd⟩
    · exact .inr ⟨v, (hpush v).awake hv⟩
  cases hm with
  | linkFirst task t hpc ht hq' => exact .inl ⟨c, by simp [CallerPc.aboutToSignal]⟩
  | linkLast task tail t n hpc ht hq' htail hn => exact .inl ⟨c, by simp [CallerPc.aboutToSignal]⟩
  | incQueueSize hpc => exact .inl ⟨c, by simp [CallerPc.aboutToSignal]⟩
  | signal v hpc hb => exact .inr ⟨v, by simp [WorkerPc.awake]⟩
  | signalNobody hpc hnone =>
    obtain ⟨v, _, hv⟩ := first_awake hC hcon hsl he hmin hsh' hq
    rcases hv with hv | hv
    · rw [anyBlocked_of_blocked hC hv] at hnone
      cases hnone
    · exact .inr ⟨v, hv⟩
  | addNull hpc ho => exact h hsh' hq
  | _ =>
    refine hkeep rfl ?_ fun d hd => by simp [hd]
    simp [CallerPc.aboutToSignal, *]

theorem WakeInv.main_step (hC : CreatedInv s) (hcon : ControlInv s) (h : WakeInv s)
    (hm : MainMove s s') : WakeInv s' := by
  intro hsh hq
  have hpush := hm.pushed hC
  have hkeep : s.pool.shutdown = false → s'.pool.queueHead = s.pool.queueHead →
      s'.callers = s.callers →
      (∃ c, (s'.callers c).pc.aboutToSignal = true) ∨ ∃ v, (s'.workers v).pc.awake = true := by
    intro hsh' hhead hc
    rw [hhead] at hq
    rcases h hsh' hq with ⟨d, hd⟩ | ⟨v, hv⟩
    · exact .inl ⟨d, by rw [hc]; exact hd⟩
    · exact .inr ⟨v, (hpush v).awake hv⟩
  cases hm with
  | failShutdown i hpc => cases hsh
  | destroyShutdown hpc => cases hsh
  | drain task t hpc hq' ht =>
    have hsh' : s.pool.shutdown = true := by rw [hcon.shutdown, hpc]; rfl
    rw [show s.pool.shutdown = false from hsh] at hsh'
    cases hsh'
  | _ => exact hkeep hsh rfl rfl

theorem WakeInv.step (hC : CreatedInv s) (hcon : ControlInv s) (hsl : SlotInv s) (he : EndInv s)
    (hmin : 1 ≤ s.pool.minThreads) (h : WakeInv s) (l : Label) (hl : SetcancelSucceeds s l)
    (hst : step fl l s = some s') : WakeInv s' := by
  have he' := he.step hC l hl hst
  cases l with
  | worker w a => exact h.worker_step hC hcon hsl he hmin (.of_step hst) he'
  | caller c a => exact h.caller_step hC hcon hsl he hmin (CallerMove.of_step hst)
  | main a => exact h.main_step hC hcon (.of_step hst)

/-! ## every run -/

section
variable {minThreads maxThreads initial : Nat}

theorem ReachableBy.ends (h : ReachableBy fl SetcancelSucceeds minThreads maxThreads initial s) :
    EndInv s :=
  h.inv EndInv (fun now _ _ => EndInv.start _ _ _ now)
    fun _ l _ hr hI hl hs => hI.step hr.created l hl hs

theorem ReachableBy.wake (h : ReachableBy fl SetcancelSucceeds minThreads maxThreads initial s)
    (hmin : 1 ≤ minThreads) : WakeInv s :=
  h.inv WakeInv (fun now _ _ _ hq => absurd rfl hq)
    fun _ l _ hr hI hl hs =>
      hI.step hr.created hr.control hr.slots hr.ends (by rw [hr.limits.1]; exact hmin) l hl hs

end

/-- the worker is at a statement that releases the mutex -/
def WorkerPc.unlocking : WorkerPc → Bool
  | .condWait | .cleanup | .unlockShutdown | .unlockTask _ | .unlockStats _ => true
  | _ => false

/-- the caller is at a statement that releases the mutex -/
def CallerPc.unlocking : CallerPc → Bool
  | .unlockReject _ | .unlockAdd | .scaleUnlock => true
  | _ => false

/-- thread `t` is at a statement that releases the mutex -/
def State.unlocking (s : State) : Thread → Bool
  | .worker w => (s.workers w).pc.unlocking
  | .caller c => (s.callers c).pc.unlocking
  | .main => s.main == .destroyUnlock

theorem holds_of_unlocking {t : Thread} (h : s.unlocking t = true) : s.holds t = true := by
  cases t with
  | worker w =>
    have h' : (s.workers w).pc.unlocking = true := h
    show (s.workers w).pc.holds = true
    cases e : (s.workers w).pc <;> first | rfl | (rw [e] at h'; cases h')
  | caller c =>
    have h' : (s.callers c).pc.unlocking = true := h
    show (s.callers c).pc.holds = true
    cases e : (s.callers c).pc <;> first | rfl | (rw [e] at h'; cases h')
  | main =>
    have h' : s.main = .destroyUnlock := by simpa [State.unlocking] using h
    show s.main.holds = true
    rw [h']
    rfl

/-- the thread that a label moves -/
def Label.thread : Label → Thread
  | .worker w _ => .worker w
  | .caller c _ => .caller c
  | .main _ => .main

/-- A step that takes the mutex away from somebody takes it away from the moving thread. -/
theorem release_own (hM : MutexInv s) (l : Label) (hst : step fl l s = some s')
    (hne : s'.owner ≠ s.owner) : s.owner = none ∨ s.owner = some l.thread := by
  have he : LockEffect s l.thread s' := by
    cases l with
    | worker w a => exact (WorkerMove.of_step hst).lockEffect
    | caller c a => exact (CallerMove.of_step hst).lockEffect
    | main a => exact (MainMove.of_step hst).lockEffect
  cases he with
  | acquire hfree ho ht => exact .inl hfree
  | release hs ho ht => exact .inr ((hM _).mp hs)
  | keep ho ht => exact absurd ho hne

theorem CallerPc.holds_of_aboutToSignal {p : CallerPc} (h : p.aboutToSignal = true) :
    p.holds = true := by
  cases p <;> first | rfl | cases h

theorem WorkerPc.live_of_awake {p : WorkerPc} (h : p.awake = true) : p.live = true := by
  cases p <;> first | rfl | cases h

theorem WorkerPc.EndOk.not_holds {p : WorkerPc} {b d : Bool} (h : p.EndOk b d)
    (ht : p.terminated = true) : p.holds = false := by
  cases p <;> first | rfl | exact h.elim | cases ht

/-- **No lost wakeup.**  In a pool created with at least one thread: when the mutex is free before
shutdown and tasks wait, some live worker is neither asleep nor cancelled; a worker that has ended
never has the mutex; and only its owner releases the mutex. -/
theorem noLostWakeup (fl : ℚ → ℚ) (minThreads maxThreads initial : Nat) (s : State)
    (hmin : 1 ≤ minThreads)
    (h : ReachableBy fl SetcancelSucceeds minThreads maxThreads initial s) :
    (s.pool.shutdown = false → ¬ (s.owner = none ∧ s.pool.queueHead ≠ none ∧
        ∀ v, (s.workers v).pc.live = true → (s.workers v).pc = .blocked)) ∧
      (s.pool.shutdown = false → s.owner = none → s.pool.queueHead ≠ none →
        ∃ v, (s.workers v).pc.awake = true) ∧
      (∀ v, (s.workers v).pc.terminated = true → s.owner ≠ some (.worker v)) ∧
      (∀ t, s.unlocking t = true → s.owner = some t) ∧
      ∀ l s', step fl l s = some s' → s'.owner ≠ s.owner →
        s.owner = none ∨ s.owner = some l.thread := by
  have hM := h.mutex
  have hawake : s.pool.shutdown = false → s.owner = none → s.pool.queueHead ≠ none →
      ∃ v, (s.workers v).pc.awake = true := by
    intro hsh hfree hq
    rcases h.wake hmin hsh hq with ⟨c, hc⟩ | hv
    · -- a caller about to signal has the mutex
      have hholds : (s.callers c).pc.holds = false := hM.free hfree (.caller c)
      rw [CallerPc.holds_of_aboutToSignal hc] at hholds
      cases hholds
    · exact hv
  refine ⟨?_, hawake, ?_, ?_, fun l s' hst => release_own hM l hst⟩
  · rintro hsh ⟨hfree, hq, hall⟩
    obtain ⟨v, hv⟩ := hawake hsh hfree hq
    rw [hall v (WorkerPc.live_of_awake hv)] at hv
    cases hv
  · intro v hv ho
    have hholds : (s.workers v).pc.holds = true := (hM (.worker v)).mpr ho
    rw [(h.ends v).not_holds hv] at hholds
    cases hholds
  · exact fun t ht => (hM t).mp (holds_of_unlocking ht)

/-- a worker falls asleep, a task is added and the worker is woken -/
def wakeRun : List Label :=
  [.main (.result true), .main .run,
   .worker 0 .run, .worker 0 .run, .worker 0 .run, .worker 0 .run,
   .caller 0 (.addTask (some 7) 100), .caller 0 (.malloc (some 1)), .caller 0 .run, .caller 0 .run,
   .caller 0 .run, .caller 0 .run, .caller 0 (.wake (some 0)), .caller 0 .run]

theorem noLostWakeup_wakeRun :
    ∃ s, ReachableBy id SetcancelSucceeds 1 1 1 s ∧ s.owner = none ∧
      s.pool.queueHead ≠ none ∧ ∃ v, (s.workers v).pc.awake = true := by
  have hrun : (exec (guarded setcancelSucceeds (step id)) (startState 1 1 1 0) wakeRun).map
      (fun s => (s.owner, s.pool.queueHead, s.pool.shutdown)) = some (none, some 1, false) := by
    decide +kernel
  obtain ⟨s, hs, hv⟩ := Option.map_eq_some_iff.mp hrun
  simp only [Prod.mk.injEq] at hv
  obtain ⟨hfree, hhead, hsh⟩ := hv
  have hq : s.pool.queueHead ≠ none := by rw [hhead]; simp
  have hreach : ReachableBy id SetcancelSucceeds 1 1 1 s :=
    ⟨0, true, true, true, _, rfl, reach_of_setcancelSucceeds wakeRun hs⟩
  exact ⟨s, hreach, hfree, hq, (noLostWakeup id 1 1 1 s le_rfl hreach).2.1 hsh hfree hq⟩

end Pool
