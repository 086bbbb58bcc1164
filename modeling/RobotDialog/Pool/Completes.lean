import RobotDialog.Pool.Progress

/-!
# The thread pool: what always comes to an end

Runs in which spurious wakeups and new calls come finitely often.  The functions of the tasks return:
a worker at `callFunction` can always go on.

* `InUse m`             the callers below `m` use the pool, and nobody destroys it;
* `AllDone`             every call has returned, the queue is empty, no worker holds a task, every task
                        has been executed;
* `tasks_completed`     every run gets there;
* `Orderly`             the pool is destroyed when nobody uses it any more;
* `RousedInv`           behind the broadcast of `thread_pool_destroy` nobody sleeps;
* `Destroyed`           the pool is freed, the workers in the slots have ended, the queue is empty;
* `destroy_returns`     every run of `thread_pool_destroy` gets there.
-/

set_option linter.unusedSimpArgs false

namespace Pool
open State Lts Heap

variable {fl : ℚ → ℚ} {s s' : State} {w c : Nat} {l : List (Ptr × Job)}

/-! ## a pool in use -/

/-- the callers below `m` use the pool, nobody destroys it, and `pthread_setcancelstate` succeeds -/
structure InUse (m : Nat) (s : State) (lb : Label) : Prop where
  setcancel : SetcancelSucceeds s lb
  callers : ∀ c a, lb = .caller c a → c < m
  kept : lb ≠ .main .destroy

/-- every call has returned, no task waits, no worker holds one, the workers have taken the tasks in
the order in which they were accepted, and every accepted task has been executed once -/
structure AllDone (s : State) : Prop where
  returned : ∀ c, (s.callers c).pc = .idle
  empty : s.pool.queueHead = none
  free : ∀ v, (s.workers v).pc.task = none
  taken : s.dequeued = s.accepted
  completed : s.accepted.Perm s.completed

section
variable {m minThreads maxThreads initial : Nat}

theorem ReachableBy.others_idle (h : ReachableBy fl (InUse m) minThreads maxThreads initial s) :
    ∀ c, m ≤ c → (s.callers c).pc = .idle := by
  refine h.inv (fun s => ∀ c, m ≤ c → (s.callers c).pc = .idle) (fun _ _ _ _ _ => rfl)
    fun s lb s' _ hI hG hst c hc => ?_
  cases lb with
  | worker w a =>
    rw [(WorkerMove.of_step hst).callers_eq]
    exact hI c hc
  | caller d a =>
    have hd := hG.callers d a rfl
    rw [(CallerMove.of_step hst).callers_of_ne (by omega)]
    exact hI c hc
  | main a =>
    rw [(MainMove.of_step hst).callers_eq]
    exact hI c hc

theorem WorkerPc.task_of_not_live {pc : WorkerPc} (h : ¬ pc.live = true) : pc.task = none := by
  cases pc with
  | notCreated => rfl
  | exited => rfl
  | exitedLocked => rfl
  | _ => exact absurd rfl h

/-- **When nobody can go on, everything is done**: the callers are idle and the workers that are
left sleep. -/
theorem AllDone.of_idle (h : ReachableBy fl SetcancelSucceeds minThreads maxThreads initial s)
    (hready : s.main = .ready) (hmin : 1 ≤ minThreads) (hidle : ∀ c, (s.callers c).pc = .idle)
    (hasleep : ∀ v, (s.workers v).pc.live = true → (s.workers v).pc = .blocked) : AllDone s := by
  have hsh : s.pool.shutdown = false := by
    rw [h.control.shutdown, hready]
    rfl
  have hempty : s.pool.queueHead = none := by
    by_contra hq
    -- otherwise a worker is on its way to the queue
    rcases h.wake hmin hsh hq with ⟨c, hc⟩ | ⟨v, hv⟩
    · rw [hidle c] at hc
      cases hc
    · rw [hasleep v (WorkerPc.live_of_awake hv)] at hv
      cases hv
  obtain ⟨l, hq, hreach⟩ := h.fifo
  have hl : l = [] := hq.linked.null_iff.mp hempty
  have horder := hq.fifo
  rw [hl, hq.kept (by rw [hready]; rfl), List.append_nil, List.map_nil, List.append_nil] at horder
  have hrunning : s.running = 0 := by
    refine Family.total_zero fun v => ?_
    cases e : s.runs v with
    | none => rfl
    | some j =>
      have hb := hasleep v (runs_live e)
      simp [State.runs, hb, WorkerPc.executing] at e
  have hwork : (s.dequeued : Multiset Job) = s.completed + s.running :=
    (Fifo.Inv.of_reach hreach).work
  rw [hrunning, add_zero] at hwork
  refine ⟨hidle, hempty, fun v => ?_, horder.symm, ?_⟩
  · by_cases hlive : (s.workers v).pc.live = true
    · rw [hasleep v hlive]
      rfl
    · exact WorkerPc.task_of_not_live hlive
  · rw [horder]
    exact Multiset.coe_eq_coe.mp hwork

/-- **Somebody can go on** until everything is done. -/
theorem exists_canMove (h : ReachableBy fl SetcancelSucceeds minThreads maxThreads initial s)
    (hready : s.main = .ready) (hmin : 1 ≤ minThreads) (hnot : ¬ AllDone s) :
    ∃ t, s.canMove t := by
  cases howner : s.owner with
  | some t =>
    refine ⟨t, canMove_of_owner h.mutex h.ends howner ?_⟩
    rintro rfl
    have hholds : s.main.holds = true := (h.mutex .main).mpr howner
    rw [hready] at hholds
    cases hholds
  | none =>
    by_cases hidle : ∀ c, (s.callers c).pc = .idle
    · by_cases hasleep : ∀ v, (s.workers v).pc.live = true → (s.workers v).pc = .blocked
      · exact absurd (AllDone.of_idle h hready hmin hidle hasleep) hnot
      · push Not at hasleep
        obtain ⟨v, hlive, hawake⟩ := hasleep
        exact ⟨.worker v, hlive, hawake, .inl howner⟩
    · push Not at hidle
      obtain ⟨c, hc⟩ := hidle
      exact ⟨.caller c, hc, .inl howner⟩

/-- a run of a pool in use, behind its creation -/
structure Operating (fl : ℚ → ℚ) (m minThreads maxThreads initial : Nat) (s : State) : Prop where
  reach : ReachableBy fl (InUse m) minThreads maxThreads initial s
  ready : s.main = .ready

theorem Operating.progress (h : Operating fl m minThreads maxThreads initial s) (hmin : 1 ≤ minThreads)
    (hnot : ¬ AllDone s) :
    ∃ lb s', lb.interferes = false ∧ InUse m s lb ∧ step fl lb s = some s' := by
  obtain ⟨l, hq⟩ := h.reach.queue
  obtain ⟨t, ht⟩ := exists_canMove (h.reach.mono fun _ _ hG => hG.setcancel) h.ready hmin hnot
  obtain ⟨lb, s', h1, h2, h3, hst⟩ := step_of_canMove fl hq h.reach.control ht
  refine ⟨lb, s', h1, ⟨h2, ?_, ?_⟩, hst⟩
  · rintro c a rfl
    by_contra hge
    subst h3
    exact ht.1 (h.reach.others_idle c (by omega))
  · rintro rfl
    subst h3
    exact ht

theorem Operating.next (h : Operating fl m minThreads maxThreads initial s) (lb : Label)
    (hG : InUse m s lb) (hst : Pool.step fl lb s = some s') :
    Operating fl m minThreads maxThreads initial s' := by
  refine ⟨h.reach.next lb hG hst, ?_⟩
  cases lb with
  | worker w a => exact (WorkerMove.of_step hst).main_eq.trans h.ready
  | caller c a => exact (CallerMove.of_step hst).main_eq.trans h.ready
  | main a =>
    have hst' : mainStep s a = some s' := hst
    unfold mainStep at hst'
    rw [h.ready] at hst'
    cases a <;> first | exact absurd rfl hG.kept | cases hst'

/-- **Every accepted task is executed, and every call returns**, in a pool created with at least one
thread that is not destroyed: whatever the interleaving of any number of callers and workers, no run
with finitely many spurious wakeups and new calls gets stuck or goes on for ever before the queue is
empty and each accepted task has been executed exactly once. -/
theorem tasks_completed (fl : ℚ → ℚ) (m minThreads maxThreads initial : Nat)
    (hmin : 1 ≤ minThreads) (s : State)
    (h : ReachableBy fl (InUse m) minThreads maxThreads initial s) (hready : s.main = .ready)
    (k : Nat) : Settles Label.interferes (step fl) (InUse m) AllDone k s := by
  refine Settles.of_rank (Operating fl m minThreads maxThreads initial)
    (State.rank 0 m maxThreads) (11 * maxThreads + 0 + 37)
    (fun s h hnot => h.progress hmin hnot) ?_ ?_ ⟨h, hready⟩ k
  · intro s lb s' h _ hG hl hst
    obtain ⟨l, hq⟩ := h.reach.queue
    exact ⟨h.next lb hG hst, (step_rank h.reach.created hq h.reach.slots h.reach.limits.2 lb
      hG.callers (fun _ _ => .inl h.ready) hst).1 hl⟩
  · intro s lb s' h _ hG hl hst
    obtain ⟨l, hq⟩ := h.reach.queue
    exact ⟨h.next lb hG hst, (step_rank h.reach.created hq h.reach.slots h.reach.limits.2 lb
      hG.callers (fun _ _ => .inl h.ready) hst).2⟩

end

def inUse (m : Nat) (_ : State) : Label → Bool
  | .worker _ .setcancelFails => false
  | .caller c _ => decide (c < m)
  | .main .destroy => false
  | _ => true

theorem inUse_sound {m : Nat} (s : State) (lb : Label) (h : inUse m s lb = true) :
    InUse m s lb := by
  refine ⟨?_, ?_, ?_⟩
  · rintro w rfl
    cases h
  · rintro c a rfl
    exact of_decide_eq_true h
  · rintro rfl
    cases h

theorem tasks_completed_wakeRun :
    ∃ s, ReachableBy id (InUse 1) 1 1 1 s ∧ s.accepted = [⟨0, 7, 100⟩] ∧ s.completed = [] ∧
      Settles Label.interferes (step id) (InUse 1) AllDone 3 s := by
  have hrun : (exec (guarded (inUse 1) (step id)) (startState 1 1 1 0) wakeRun).map
      (fun s => (s.main, s.accepted, s.completed)) = some (.ready, [⟨0, 7, 100⟩], []) := by
    decide +kernel
  obtain ⟨s, hs, hv⟩ := Option.map_eq_some_iff.mp hrun
  simp only [Prod.mk.injEq] at hv
  obtain ⟨hmain, hacc, hcomp⟩ := hv
  have hreach : ReachableBy id (InUse 1) 1 1 1 s :=
    ⟨0, true, true, true, _, rfl, Reach.of_guarded (fun _ => True) (inUse 1)
      (fun s lb _ => inUse_sound s lb) (fun _ _ _ _ _ _ => trivial) trivial wakeRun hs⟩
  exact ⟨s, hreach, hacc, hcomp, tasks_completed id 1 1 1 1 le_rfl s hreach hmain 3⟩

/-! ## a pool that is destroyed -/

/-- the pool is destroyed when nobody uses it any more, and `pthread_setcancelstate` succeeds -/
structure Orderly (s : State) (lb : Label) : Prop where
  alone : NoOverlap s lb
  setcancel : SetcancelSucceeds s lb

/-- the broadcast of `thread_pool_destroy` lies behind -/
def MainPc.roused : MainPc → Bool
  | .destroyUnlock | .destroyJoin _ | .destroyDrain | .destroyFree | .destroyed => true
  | _ => false

/-- behind the broadcast nobody sleeps or is about to -/
def RousedInv (s : State) : Prop :=
  s.main.roused = true → ∀ v, (s.workers v).pc ≠ .condWait ∧ (s.workers v).pc ≠ .blocked

theorem MainPc.shutDown_of_roused {p : MainPc} (h : p.roused = true) : p.shutDown = true := by
  cases p <;> first | rfl | cases h

theorem MainPc.destroying_of_roused {p : MainPc} (h : p.roused = true) : p.destroying = true := by
  cases p <;> first | rfl | cases h

theorem WorkerMove.roused (hm : WorkerMove s w s') (hsh : s.pool.shutdown = true)
    (h : ∀ v, (s.workers v).pc ≠ .condWait ∧ (s.workers v).pc ≠ .blocked) (v : Nat) :
    (s'.workers v).pc ≠ .condWait ∧ (s'.workers v).pc ≠ .blocked := by
  have hv := h v
  by_cases e : v = w
  · subst e
    cases hm with
    | queueEmpty hpc hq hs =>
      rw [hsh] at hs
      cases hs
    | sleep hpc => exact absurd hpc hv.1
    | cancelPass x hpc hd hx hb => exact absurd hb (h x).2
    | _ => simp
  · have hp := hm.pushed e
    generalize (s'.workers v).pc = q at hp ⊢
    cases hp with
    | same => exact hv
    | wake hb => simp
    | start hb => simp

theorem RousedInv.step (hM : MutexInv s) (hcon : ControlInv s) (h : RousedInv s)
    (hjoin : JoinInv s) (lb : Label) (hG : NoOverlap s lb) (hst : Pool.step fl lb s = some s') :
    RousedInv s' := by
  intro hr
  cases lb with
  | worker w a =>
    have hm := WorkerMove.of_step hst
    rw [hm.main_eq] at hr
    exact hm.roused (hcon.shutdown.trans (MainPc.shutDown_of_roused hr)) (h hr)
  | caller c a =>
    rw [(CallerMove.of_step hst).main_eq] at hr
    have hd := hjoin.not_destroying hG hst
    rw [MainPc.destroying_of_roused hr] at hd
    cases hd
  | main a =>
    intro v
    cases MainMove.of_step hst with
    | destroyBroadcast hpc =>
      -- the destroyer has the mutex, so nobody is about to wait
      have hmain : s.holds .main = true := by simp [holds, hpc, MainPc.holds]
      have hwait : (s.workers v).pc ≠ .condWait := by
        intro e
        have hv : s.holds (.worker v) = true := by simp [holds, e, WorkerPc.holds]
        cases hM.excl hv hmain
      simp only [mainGoto, broadcast]
      split
      · simp
      · exact ⟨hwait, ‹_›⟩
    | destroyUnlock hpc => exact h (by rw [hpc]; rfl) v
    | join i hpc hi hc ht => exact h (by rw [hpc]; rfl) v
    | skip i hpc hi hc => exact h (by rw [hpc]; rfl) v
    | joined i hpc hi => exact h (by rw [hpc]; rfl) v
    | drained hpc hq => exact h (by rw [hpc]; rfl) v
    | drain task t hpc hq ht => exact h (by rw [hpc]; rfl) v
    | destroyFree hpc => exact h (by rw [hpc]; rfl) v
    | _ => cases hr

/-- the pool is freed: the queue is empty, the tasks in it were taken or thrown away, and the workers
that no scale down dropped have ended -/
structure Destroyed (s : State) : Prop where
  main : s.main = .destroyed
  empty : s.pool.queueHead = none
  tasks : s.accepted = s.dequeued ++ s.drained
  ended : ∀ v, v < s.created → s.dropped v = false → (s.workers v).pc.terminated = true

section
variable {minThreads maxThreads initial : Nat}

theorem ReachableBy.roused (h : ReachableBy fl NoOverlap minThreads maxThreads initial s) :
    RousedInv s :=
  h.inv RousedInv (fun _ _ _ hr => by cases hr)
    fun _ lb _ hr hI hG hst => hI.step hr.mutex hr.control hr.joins lb hG hst

/-- a run inside `thread_pool_destroy` -/
structure Destroying (fl : ℚ → ℚ) (minThreads maxThreads initial : Nat) (s : State) : Prop where
  reach : ReachableBy fl Orderly minThreads maxThreads initial s
  destroying : s.main.destroying = true

theorem Destroying.alone (h : Destroying fl minThreads maxThreads initial s) :
    ReachableBy fl NoOverlap minThreads maxThreads initial s :=
  h.reach.mono fun _ _ hG => hG.alone

theorem Destroying.ends (h : Destroying fl minThreads maxThreads initial s) : EndInv s :=
  (h.reach.mono fun _ _ hG => hG.setcancel).ends

theorem Destroying.destroyed (h : Destroying fl minThreads maxThreads initial s)
    (hmain : s.main = .destroyed) : Destroyed s := by
  obtain ⟨l, hq⟩ := h.reach.queue
  have hempty := h.alone.emptied (by rw [hmain]; rfl)
  refine ⟨hmain, hempty, ?_, fun v hv hd => ?_⟩
  · rw [hq.fifo, hq.linked.null_iff.mp hempty, List.map_nil, List.append_nil]
  · have hin : s.inSlot v = true := by simpa [dropped, hv] using hd
    obtain ⟨i, hi, hslot⟩ := inSlot_iff.mp hin
    have hj := h.alone.joins.ended i (by rw [hmain]; exact hi) hi
    unfold joinable at hj
    rwa [hslot] at hj

/-- **The destroyer can go on, or it waits for the mutex or for a worker, and these can.** -/
theorem Destroying.mover (h : Destroying fl minThreads maxThreads initial s)
    (hnot : s.main ≠ .destroyed) : (∃ s', mainStep s .run = some s') ∨ ∃ t, s.canMove t := by
  have hd := h.destroying
  have hmutex : s.main.holds = false → s.owner ≠ none → ∃ t, s.canMove t := by
    intro hmain hne
    obtain ⟨t, howner⟩ := Option.ne_none_iff_exists'.mp hne
    refine ⟨t, canMove_of_owner h.reach.mutex h.ends howner ?_⟩
    rintro rfl
    have hholds : s.main.holds = true := (h.reach.mutex .main).mpr howner
    rw [hmain] at hholds
    cases hholds
  unfold mainStep
  cases hpc : s.main with
  | destroyLock =>
    by_cases hfree : s.owner = none
    · exact .inl ⟨_, if_pos hfree⟩
    · exact .inr (hmutex (by rw [hpc]; rfl) hfree)
  | destroyJoin i =>
    by_cases hi : i < s.pool.maxThreads
    · by_cases hc : i < s.pool.threadCount
      · cases hj : s.joinable i with
        | true => exact .inl ⟨_, by simp only [if_pos hi, if_pos hc, hj, if_true]; rfl⟩
        | false =>
          -- the worker in the slot is on its way out, it was woken by the broadcast
          obtain ⟨v, hv⟩ := Option.ne_none_iff_exists'.mp
            (h.reach.slots.filled i (by rw [hpc]; exact hc))
          have hterm : (s.workers v).pc.terminated = false := by
            simpa [joinable, hv] using hj
          have hnew : (s.workers v).pc ≠ .notCreated := fun e => by
            have hge := (h.reach.created v).mp e
            have hlt := h.reach.slots.stored i v hv
            omega
          have hlive : (s.workers v).pc.live = true := by
            cases e : (s.workers v).pc <;> simp_all [WorkerPc.terminated, WorkerPc.live]
          have hawake := (h.alone.roused (by rw [hpc]; rfl) v).2
          by_cases hfree : s.owner = none
          · exact .inr ⟨.worker v, hlive, hawake, .inl hfree⟩
          · exact .inr (hmutex (by rw [hpc]; rfl) hfree)
      · exact .inl ⟨_, by simp only [if_pos hi, if_neg hc]; rfl⟩
    · exact .inl ⟨_, if_neg hi⟩
  | destroyDrain =>
    obtain ⟨l, hq⟩ := h.reach.queue
    cases hh : s.pool.queueHead with
    | none => exact .inl ⟨_, rfl⟩
    | some task =>
      have hlink := hq.linked
      rw [hh] at hlink
      obtain ⟨t, l', ht, -, -⟩ := hlink.uncons
      exact .inl ⟨_, by simp only [ht]; rfl⟩
  | destroyShutdown => exact .inl ⟨_, rfl⟩
  | destroyBroadcast => exact .inl ⟨_, rfl⟩
  | destroyUnlock => exact .inl ⟨_, rfl⟩
  | destroyFree => exact .inl ⟨_, rfl⟩
  | destroyed => exact absurd hpc hnot
  | _ =>
    rw [hpc] at hd
    cases hd

theorem Destroying.progress (h : Destroying fl minThreads maxThreads initial s)
    (hnot : ¬ Destroyed s) :
    ∃ lb s', lb.interferes = false ∧ Orderly s lb ∧ step fl lb s = some s' := by
  obtain ⟨l, hq⟩ := h.reach.queue
  rcases h.mover fun hmain => hnot (h.destroyed hmain) with ⟨s', hst⟩ | ⟨t, ht⟩
  · exact ⟨.main .run, s', rfl, ⟨trivial, fun _ e => by cases e⟩, hst⟩
  · obtain ⟨lb, s', h1, h2, h3, hst⟩ := step_of_canMove fl hq h.reach.control ht
    refine ⟨lb, s', h1, ⟨?_, h2⟩, hst⟩
    cases lb with
    | worker w a => trivial
    | caller c a => cases a <;> trivial
    | main a =>
      subst h3
      exact ht.elim

theorem Destroying.next (h : Destroying fl minThreads maxThreads initial s) (lb : Label)
    (hG : Orderly s lb) (hst : Pool.step fl lb s = some s') :
    Destroying fl minThreads maxThreads initial s' := by
  have hd := h.destroying
  refine ⟨h.reach.next lb hG hst, ?_⟩
  cases lb with
  | worker w a =>
    rw [(WorkerMove.of_step hst).main_eq]
    exact hd
  | caller c a =>
    rw [(CallerMove.of_step hst).main_eq]
    exact hd
  | main a =>
    cases MainMove.of_step hst <;> first | rfl | exact hd | simp_all [MainPc.destroying]

/-- **`thread_pool_destroy` returns.**  Called when nobody uses the pool any more, it never waits for
ever: whatever the workers are doing, asleep, cancelled or in the middle of a task whose function
returns, no run with finitely many spurious wakeups gets stuck or goes on for ever before the pool is
freed, the workers in the slots have ended and the leftover tasks are thrown away. -/
theorem destroy_returns (fl : ℚ → ℚ) (minThreads maxThreads initial : Nat) (s : State)
    (h : ReachableBy fl Orderly minThreads maxThreads initial s) (hd : s.main.destroying = true)
    (k : Nat) : Settles Label.interferes (step fl) Orderly Destroyed k s := by
  have hcallers : ∀ {s lb}, Destroying fl minThreads maxThreads initial s → Orderly s lb →
      ∀ s', step fl lb s = some s' → ∀ c a, lb = .caller c a → c < 0 := by
    intro s lb h hG s' hst c a e
    subst e
    have hno := h.alone.joins.not_destroying hG.alone hst
    rw [h.destroying] at hno
    cases hno
  refine Settles.of_rank (Destroying fl minThreads maxThreads initial)
    (State.rank 0 0 maxThreads) (11 * maxThreads + 0 + 37)
    (fun s h hnot => h.progress hnot) ?_ ?_ ⟨h, hd⟩ k
  · intro s lb s' h _ hG hl hst
    obtain ⟨l, hq⟩ := h.reach.queue
    exact ⟨h.next lb hG hst, (step_rank h.reach.created hq h.reach.slots h.reach.limits.2 lb
      (hcallers h hG s' hst) (fun _ _ => .inr h.destroying) hst).1 hl⟩
  · intro s lb s' h _ hG hl hst
    obtain ⟨l, hq⟩ := h.reach.queue
    exact ⟨h.next lb hG hst, (step_rank h.reach.created hq h.reach.slots h.reach.limits.2 lb
      (hcallers h hG s' hst) (fun _ _ => .inr h.destroying) hst).2⟩

end

/-- the test for `Orderly` in a run without calls -/
def noCalls (_ : State) : Label → Bool
  | .worker _ .setcancelFails => false
  | .caller _ _ => false
  | _ => true

theorem reach_of_noCalls {s₀ : State} (h0 : ∀ c, (s₀.callers c).pc = .idle) (ls : List Label)
    (h : exec (guarded noCalls (step fl)) s₀ ls = some s) : Reach (step fl) Orderly s₀ s := by
  refine Reach.of_guarded (fun s => ∀ c, (s.callers c).pc = .idle) noCalls ?_ ?_ h0 ls h
  · intro s lb hidle hg
    refine ⟨?_, ?_⟩
    · cases lb with
      | main a => cases a <;> first | exact hidle | trivial
      | worker w a => trivial
      | caller c a => cases hg
    · rintro w rfl
      cases hg
  · intro s lb s' hidle hg hst
    cases lb with
    | worker w a =>
      rw [(WorkerMove.of_step hst).callers_eq]
      exact hidle
    | caller c a => cases hg
    | main a =>
      rw [(MainMove.of_step hst).callers_eq]
      exact hidle

/-- Worker 0 sleeps and worker 1 is about to when the pool is destroyed. -/
theorem destroy_returns_asleep :
    ∃ s, ReachableBy id Orderly 1 2 2 s ∧ s.main = .destroyLock ∧ (s.workers 0).pc = .blocked ∧
      (s.workers 1).pc = .condWait ∧
      Settles Label.interferes (step id) Orderly Destroyed 3 s := by
  have hrun : (exec (guarded noCalls (step id)) (startState 1 2 2 0)
      ([.main (.result true), .main (.result true), .main .run] ++
        List.replicate 4 (.worker 0 .run) ++ List.replicate 3 (.worker 1 .run) ++
          [.main .destroy])).map (fun s => (s.main, (s.workers 0).pc, (s.workers 1).pc)) =
      some (.destroyLock, .blocked, .condWait) := by decide +kernel
  obtain ⟨s, hs, hv⟩ := Option.map_eq_some_iff.mp hrun
  simp only [Prod.mk.injEq] at hv
  obtain ⟨hmain, h0, h1⟩ := hv
  have hreach : ReachableBy id Orderly 1 2 2 s :=
    ⟨0, true, true, true, _, rfl, reach_of_noCalls (fun _ => rfl) _ hs⟩
  exact ⟨s, hreach, hmain, h0, h1, destroy_returns id 1 2 2 s hreach (by rw [hmain]; rfl) 3⟩

end Pool
