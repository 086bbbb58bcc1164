import RobotDialog.Pool.Control

/-!
# The thread pool: the slots of `threads`

* `CallerPc.ScaleOk`    what a caller in the middle of a scaling pass relies on;
* `CallerPc.spares`     the slots that a scale down in progress has not given up;
* `SlotInv`             different slots hold different workers, the slots below `thread_count` are
                        filled, and nobody has cancelled a worker in a slot that is spared;
* `ReachableBy.slots`   it holds of every reachable state;
* `ReachableBy.limits`  the limits of a pool never change;
* `State.dropped`       a worker that a scale down has taken out of its slot.
-/

set_option linter.unusedSimpArgs false

namespace Pool
open State Lts

variable {fl : ℚ → ℚ} {s s' : State} {w c : Nat}

/-! ## the invariant -/

/-- what the locals of a scaling pass say about the pool -/
def CallerPc.ScaleOk (p : ThreadPool) : CallerPc → Prop
  | .scaleUp i new _ => i = p.threadCount ∧ new ≤ p.maxThreads
  | .scaleDown i new _ => (new : Int) ≤ i + 1 ∧ i < p.threadCount ∧ p.minThreads ≤ new
  | .scaleStoreCount new _ => p.minThreads ≤ new ∧ new ≤ p.threadCount
  | _ => True

/-- slot `i` has not been given up by the scale down that is going on here -/
def CallerPc.spares (i : Nat) : CallerPc → Prop
  | .scaleDown j _ _ => (i : Int) ≤ j
  | .scaleStoreCount new _ => i < new
  | _ => True

/-- the slots that hold a thread: those below `thread_count`, unless the pool is being created -/
def MainPc.filled (threadCount : Nat) : MainPc → Nat
  | .create i _ | .failShutdown i | .failBroadcast i | .failJoin i _ => i
  | .failFree | .createFailed => 0
  | _ => threadCount

structure SlotInv (s : State) : Prop where
  stored : ∀ i v, s.pool.threads i = some v → v < s.created
  inj : ∀ i j v, s.pool.threads i = some v → s.pool.threads j = some v → i = j
  filled : ∀ i, i < s.main.filled s.pool.threadCount → s.pool.threads i ≠ none
  creating : ∀ i n, s.main = .create i n → n = s.pool.threadCount
  scale : ∀ c, (s.callers c).pc.ScaleOk s.pool
  bounds : s.pool.minThreads ≤ s.pool.threadCount ∧ s.pool.threadCount ≤ s.pool.maxThreads
  clean : ∀ i v, s.pool.threads i = some v → i < s.pool.threadCount →
    (∀ c, (s.callers c).pc.spares i) → (s.workers v).cancelPending = false

theorem SlotInv.start (minThreads maxThreads initial : Nat) (now : Int)
    (hmin : minThreads ≤ initial) (hmax : initial ≤ maxThreads) :
    SlotInv (startState minThreads maxThreads initial now) where
  stored i v h := by simp [startState] at h
  inj i j v h := by simp [startState] at h
  filled i h := by simp [startState, MainPc.filled] at h
  creating i n h := by
    simp only [startState, MainPc.create.injEq] at h
    exact h.2.symm
  scale c := trivial
  bounds := ⟨hmin, hmax⟩
  clean i v h := by simp [startState] at h

theorem CallerPc.scaleOk_of_not_holds {q : CallerPc} (h : q.holds = false) (p : ThreadPool) :
    q.ScaleOk p := by
  cases q <;> trivial

/-! ## the worker -/

theorem SlotInv.same (h : SlotInv s) (hthreads : s'.pool.threads = s.pool.threads)
    (hcount : s'.pool.threadCount = s.pool.threadCount)
    (hlimits : s'.pool.minThreads = s.pool.minThreads ∧ s'.pool.maxThreads = s.pool.maxThreads)
    (hcreated : s'.created = s.created) (hcallers : s'.callers = s.callers)
    (hfilled : s'.main.filled s.pool.threadCount ≤ s.main.filled s.pool.threadCount)
    (hcreating : ∀ i n, s'.main = .create i n → n = s.pool.threadCount)
    (hpending : ∀ v, (s'.workers v).cancelPending = (s.workers v).cancelPending) : SlotInv s' := by
  obtain ⟨h1, h2, h3, h4, h5, h6, h7⟩ := h
  refine ⟨?_, ?_, ?_, ?_, ?_, ?_, ?_⟩
  · rw [hthreads, hcreated]; exact h1
  · rw [hthreads]; exact h2
  · rw [hthreads, hcount]
    intro i hi
    exact h3 i (by omega)
  · rw [hcount]; exact hcreating
  · intro c
    have h := h5 c
    rw [hcallers]
    revert h
    cases (s.callers c).pc <;> simp [CallerPc.ScaleOk, hcount, hlimits.1, hlimits.2]
  · rw [hcount, hlimits.1, hlimits.2]; exact h6
  · rw [hthreads, hcount, hcallers]
    intro i v hv hi hs
    rw [hpending]
    exact h7 i v hv hi hs

theorem WorkerMove.pending_eq (hm : WorkerMove s w s') (v : Nat) :
    (s'.workers v).cancelPending = (s.workers v).cancelPending := by
  cases hm with
  | cancelPass x hpc hd hx hb =>
    by_cases e : v = x
    · subst e
      simp [hx]
    · by_cases e' : v = w
      · subst e'
        simp [e]
      · simp [e, e']
  | _ =>
    by_cases e : v = w
    · subst e
      simp
    · simp [e]

theorem SlotInv.worker_step (h : SlotInv s) (hm : WorkerMove s w s') : SlotInv s' := by
  have hp := hm.pending_eq
  have hcr := h.creating
  cases hm <;> exact h.same rfl rfl ⟨rfl, rfl⟩ rfl rfl le_rfl hcr hp

/-! ## the main thread -/

theorem stored_create (h : SlotInv s) (i : Nat) :
    (∀ j v, (s.createWorker i).pool.threads j = some v → v < (s.createWorker i).created) ∧
      (∀ j k v, (s.createWorker i).pool.threads j = some v →
        (s.createWorker i).pool.threads k = some v → j = k) := by
  have hfresh : ∀ j v, s.pool.threads j = some v → v ≠ s.created := by
    intro j v hv e
    exact (h.stored j v hv).ne e
  refine ⟨fun j v hv => ?_, fun j k v hj hk => ?_⟩
  · simp only [createWorker, Function.update_apply] at hv ⊢
    split at hv
    · cases hv
      omega
    · have := h.stored j v hv
      omega
  · simp only [createWorker, Function.update_apply] at hj hk
    split at hj <;> split at hk
    · omega
    · cases hj
      exact absurd rfl (hfresh k _ hk)
    · cases hk
      exact absurd rfl (hfresh j _ hj)
    · exact h.inj j k v hj hk

theorem pending_create (h : SlotInv s) (i : Nat) {j v : Nat}
    (hv : (s.createWorker i).pool.threads j = some v) :
    ((s.createWorker i).workers v).cancelPending = false ∨
      (j ≠ i ∧ s.pool.threads j = some v ∧
        ((s.createWorker i).workers v).cancelPending = (s.workers v).cancelPending) := by
  by_cases e : j = i
  · subst e
    simp only [createWorker, Function.update_self, Option.some.injEq] at hv
    subst hv
    exact .inl (by simp)
  · simp only [createWorker, Function.update_of_ne e] at hv
    have hne : v ≠ s.created := (h.stored j v hv).ne
    exact .inr ⟨e, hv, by simp [hne]⟩

theorem MainMove.pending_eq {v : Nat} (hv : v ≠ s.created) (hm : MainMove s s') :
    (s'.workers v).cancelPending = (s.workers v).cancelPending := by
  cases hm with
  | created i initial hpc hi => simp [hv]
  | failBroadcast i hpc =>
    simp only [mainGoto, broadcast]
    split <;> rfl
  | destroyBroadcast hpc =>
    simp only [mainGoto, broadcast]
    split <;> rfl
  | _ => rfl

theorem broadcast_pending (s : State) (v : Nat) :
    (s.broadcast.workers v).cancelPending = (s.workers v).cancelPending := by
  simp only [broadcast]
  split <;> rfl

theorem SlotInv.main_step (h : SlotInv s) (hm : MainMove s s') : SlotInv s' := by
  have hcr := h.creating
  cases hm with
  | created i initial hpc hi =>
    obtain ⟨h1, h2⟩ := stored_create h i
    have hcount := hcr i initial hpc
    refine ⟨h1, h2, ?_, ?_, h.scale, h.bounds, ?_⟩
    · intro j hj
      simp only [mainGoto, MainPc.filled] at hj
      simp only [mainGoto, createWorker, Function.update_apply]
      split
      · simp
      · refine h.filled j ?_
        rw [hpc]
        simp only [MainPc.filled]
        omega
    · intro j n hj
      simp only [mainGoto, MainPc.create.injEq] at hj
      rw [← hj.2]
      exact hcount
    · intro j v hv hj hs
      rcases pending_create h i hv with h0 | ⟨_, hv', he⟩
      · exact h0
      · exact he.trans (h.clean j v hv' hj hs)
  | failBroadcast i hpc =>
    exact h.same rfl rfl ⟨rfl, rfl⟩ rfl rfl (by simp [MainPc.filled, hpc]) (by simp)
      (broadcast_pending s)
  | destroyBroadcast hpc =>
    exact h.same rfl rfl ⟨rfl, rfl⟩ rfl rfl (by simp [MainPc.filled, hpc]) (by simp)
      (broadcast_pending s)
  | allCreated i initial hpc hi =>
    refine h.same rfl rfl ⟨rfl, rfl⟩ rfl rfl ?_ (by simp) fun _ => rfl
    have := hcr i initial hpc
    simp only [mainGoto, MainPc.filled, hpc]
    omega
  | drain task t hpc hq ht => exact h.same rfl rfl ⟨rfl, rfl⟩ rfl rfl le_rfl hcr fun _ => rfl
  | _ =>
    refine h.same rfl rfl ⟨rfl, rfl⟩ rfl rfl ?_ (by simp) fun _ => rfl
    simp [MainPc.filled, *]

/-! ## the callers -/

theorem CallerMove.not_creating (hcon : ControlInv s) (hm : CallerMove fl s c s') :
    s.main.creating = false := by
  by_contra hcr
  have hcr : s.main.creating = true := by simpa using hcr
  have hidle := (hcon.quiet hcr).1 c
  have hno := MainPc.not_opened_of_creating hcr
  cases hm <;> simp_all

theorem MainPc.filled_eq {p : MainPc} (h : p.creating = false) (n : Nat) : p.filled n = n := by
  cases p <;> first | rfl | cases h

theorem MainPc.ne_create {p : MainPc} (h : p.creating = false) (i n : Nat) : p ≠ .create i n := by
  rintro rfl
  cases h

theorem SlotInv.caller_same (h : SlotInv s)
    (hpool : s'.pool.threads = s.pool.threads ∧ s'.pool.threadCount = s.pool.threadCount ∧
      s'.pool.minThreads = s.pool.minThreads ∧ s'.pool.maxThreads = s.pool.maxThreads)
    (hrest : s'.created = s.created ∧ s'.main = s.main)
    (hpending : ∀ v, (s'.workers v).cancelPending = (s.workers v).cancelPending)
    (hothers : ∀ d, d ≠ c → s'.callers d = s.callers d)
    (hok : (s'.callers c).pc.ScaleOk s.pool)
    (hspare : ∀ i, i < s.pool.threadCount → (s'.callers c).pc.spares i →
      (s.callers c).pc.spares i) : SlotInv s' := by
  obtain ⟨ht, hn, hmin, hmax⟩ := hpool
  obtain ⟨hcr, hmain⟩ := hrest
  refine ⟨?_, ?_, ?_, ?_, ?_, ?_, ?_⟩
  · rw [ht, hcr]; exact h.stored
  · rw [ht]; exact h.inj
  · rw [ht, hn, hmain]; exact h.filled
  · rw [hn, hmain]; exact h.creating
  · intro d
    have hd : (s'.callers d).pc.ScaleOk s.pool := by
      by_cases e : d = c
      · subst e; exact hok
      · rw [hothers d e]; exact h.scale d
    revert hd
    cases (s'.callers d).pc <;> simp [CallerPc.ScaleOk, hn, hmin, hmax]
  · rw [hn, hmin, hmax]; exact h.bounds
  · intro i v hv hi hs
    rw [ht] at hv
    rw [hn] at hi
    rw [hpending]
    refine h.clean i v hv hi fun d => ?_
    by_cases e : d = c
    · subst e; exact hspare i hi (hs d)
    · rw [← hothers d e]; exact hs d

theorem others_scaleOk (hM : MutexInv s) (hc : (s.callers c).pc.holds = true) {d : Nat}
    (hd : d ≠ c) (p : ThreadPool) : (s.callers d).pc.ScaleOk p := by
  refine CallerPc.scaleOk_of_not_holds ?_ p
  by_contra h
  have h' : s.holds (.caller d) = true := by simpa [holds] using h
  exact hd (Thread.caller.inj (hM.excl h' hc))

theorem scaleBranch_scaleOk (fl : ℚ → ℚ) (p : ThreadPool) (now : Int) :
    (scaleBranch fl p now).ScaleOk p := by
  unfold scaleBranch
  split
  · exact ⟨rfl, Nat.min_le_right _ _⟩
  · split
    · rename_i hdown
      simp only [scalesDown, Bool.and_eq_true, decide_eq_true_eq] at hdown
      simp only [CallerPc.ScaleOk, scaleDownTarget]
      omega
    · trivial

theorem SlotInv.created_step (hM : MutexInv s) (h : SlotInv s) (hopen : s.main.creating = false)
    {i new : Nat} {now : Int} (hpc : (s.callers c).pc = .scaleUp i new now) (hi : i < new)
    (hs : s' = ((s.createWorker i).setPool { (s.createWorker i).pool with
      threadCount := s.pool.threadCount + 1 }).callerGoto c (.scaleUp (i + 1) new now)) :
    SlotInv s' := by
  obtain ⟨h1, h2⟩ := stored_create h i
  have hok := h.scale c
  rw [hpc] at hok
  obtain ⟨rfl, hmax⟩ := hok
  have hholds : (s.callers c).pc.holds = true := by rw [hpc]; rfl
  subst hs
  refine ⟨h1, h2, ?_, ?_, ?_, ?_, ?_⟩
  · intro j hj
    have hj' : j < s.main.filled (s.pool.threadCount + 1) := hj
    rw [MainPc.filled_eq hopen] at hj'
    show Function.update s.pool.threads s.pool.threadCount (some s.created) j ≠ none
    rw [Function.update_apply]
    split
    · simp
    · exact h.filled j (by rw [MainPc.filled_eq hopen]; omega)
  · exact fun j n hj => absurd hj (MainPc.ne_create hopen j n)
  · intro d
    by_cases e : d = c
    · subst e
      simp only [callerGoto, Function.update_self, CallerPc.ScaleOk, setPool, createWorker]
      exact ⟨trivial, hmax⟩
    · simp only [callerGoto, Function.update_of_ne e]
      exact others_scaleOk hM hholds e _
  · have := h.bounds
    show s.pool.minThreads ≤ s.pool.threadCount + 1 ∧ s.pool.threadCount + 1 ≤ s.pool.maxThreads
    omega
  · intro j v hv hj hs
    rcases pending_create h s.pool.threadCount hv with h0 | ⟨hne, hv', he⟩
    · exact h0
    · have hj' : j < s.pool.threadCount + 1 := hj
      refine he.trans (h.clean j v hv' (by omega) fun d => ?_)
      by_cases e : d = c
      · subst e
        rw [hpc]
        trivial
      · have hd := hs d
        simpa only [callerGoto, setWorker, setPool, createWorker, Function.update_of_ne e] using hd

theorem SlotInv.cancel_step (h : SlotInv s) {i : Int} {new v : Nat} {now : Int}
    (hpc : (s.callers c).pc = .scaleDown i new now) (hi : (new : Int) ≤ i)
    (hv : s.pool.threads i.toNat = some v)
    (hs : s' = (s.setWorker v { s.workers v with cancelPending := true }).callerGoto c
      (.scaleDown (i - 1) new now)) : SlotInv s' := by
  have hok := h.scale c
  rw [hpc] at hok
  obtain ⟨_, htop, hmin⟩ := hok
  subst hs
  refine ⟨h.stored, h.inj, h.filled, h.creating, ?_, h.bounds, ?_⟩
  · intro d
    by_cases e : d = c
    · subst e
      simp only [callerGoto, Function.update_self, CallerPc.ScaleOk, setWorker]
      omega
    · simp only [callerGoto, Function.update_of_ne e]
      exact h.scale d
  · intro j u hu hj hs
    have hsc := hs c
    simp only [callerGoto, Function.update_self, CallerPc.spares] at hsc
    have hne : u ≠ v := by
      intro e
      have := h.inj j i.toNat v (e ▸ hu) hv
      omega
    show (Function.update s.workers v _ u).cancelPending = false
    rw [Function.update_of_ne hne]
    refine h.clean j u hu hj fun d => ?_
    by_cases e : d = c
    · subst e
      rw [hpc]
      simp only [CallerPc.spares]
      omega
    · have hd := hs d
      simpa only [callerGoto, setWorker, setPool, createWorker, Function.update_of_ne e] using hd

theorem SlotInv.storeCount_step (hM : MutexInv s) (h : SlotInv s)
    (hopen : s.main.creating = false) {new : Nat} {now : Int}
    (hpc : (s.callers c).pc = .scaleStoreCount new now)
    (hs : s' = (s.setPool { s.pool with threadCount := new }).callerGoto c (.scaleStoreTime now)) :
    SlotInv s' := by
  have hok := h.scale c
  rw [hpc] at hok
  obtain ⟨hmin, hle⟩ := hok
  have hholds : (s.callers c).pc.holds = true := by rw [hpc]; rfl
  have hb := h.bounds
  subst hs
  refine ⟨h.stored, h.inj, ?_, ?_, ?_, ⟨hmin, hle.trans hb.2⟩, ?_⟩
  · intro j hj
    have hj' : j < s.main.filled new := hj
    rw [MainPc.filled_eq hopen] at hj'
    exact h.filled j (by rw [MainPc.filled_eq hopen]; omega)
  · exact fun j n hj => absurd hj (MainPc.ne_create hopen j n)
  · intro d
    by_cases e : d = c
    · subst e
      simp [CallerPc.ScaleOk]
    · simp only [callerGoto, Function.update_of_ne e]
      exact others_scaleOk hM hholds e _
  · intro j v hv hj hs
    have hj' : j < new := hj
    refine h.clean j v hv (by omega) fun d => ?_
    by_cases e : d = c
    · subst e
      rw [hpc]
      exact hj'
    · have hd := hs d
      simpa only [callerGoto, setWorker, setPool, createWorker, Function.update_of_ne e] using hd

theorem SlotInv.caller_step (hcon : ControlInv s) (hM : MutexInv s) (h : SlotInv s)
    (hm : CallerMove fl s c s') : SlotInv s' := by
  have hopen := hm.not_creating hcon
  have hok := h.scale c
  cases hm with
  | addNull hpc ho =>
    exact ⟨h.stored, h.inj, h.filled, h.creating, h.scale, h.bounds, h.clean⟩
  | created i new now hpc hi => exact h.created_step hM hopen hpc hi rfl
  | cancel i new v now hpc hi hv => exact h.cancel_step hpc hi hv rfl
  | scaleStoreCount new now hpc => exact h.storeCount_step hM hopen hpc rfl
  | signal v hpc hb =>
    refine h.caller_same (c := c) ⟨rfl, rfl, rfl, rfl⟩ ⟨rfl, rfl⟩ (fun u => ?_)
      (fun d e => by simp [e]) (by simp [CallerPc.ScaleOk]) (by simp [CallerPc.spares, hpc])
    by_cases e : u = v
    · subst e
      simp
    · simp [e]
  | scaleTest now hpc =>
    refine h.caller_same (c := c) ⟨rfl, rfl, rfl, rfl⟩ ⟨rfl, rfl⟩ (fun _ => rfl)
      (fun d e => by simp [e]) ?_ (by simp [CallerPc.spares, hpc])
    simpa using scaleBranch_scaleOk fl s.pool now
  | scaleDownEnds i new now hpc =>
    rw [hpc] at hok
    obtain ⟨hnew, htop, hmin⟩ := hok
    refine h.caller_same (c := c) ⟨rfl, rfl, rfl, rfl⟩ ⟨rfl, rfl⟩ (fun _ => rfl)
      (fun d e => by simp [e]) ?_ ?_
    · simp only [callerGoto, Function.update_self, CallerPc.ScaleOk]
      omega
    · intro j _ hj
      simp only [callerGoto, Function.update_self, CallerPc.spares] at hj
      rw [hpc]
      simp only [CallerPc.spares]
      omega
  | _ =>
    refine h.caller_same (c := c) ⟨rfl, rfl, rfl, rfl⟩ ⟨rfl, rfl⟩ (fun _ => rfl)
      (fun d e => by simp [e]) (by simp [CallerPc.ScaleOk]) (by simp [CallerPc.spares, *])

theorem SlotInv.step (hcon : ControlInv s) (hM : MutexInv s) (h : SlotInv s) (l : Label)
    (hs : step fl l s = some s') : SlotInv s' := by
  cases l with
  | worker w a => exact h.worker_step (.of_step hs)
  | caller c a => exact h.caller_step hcon hM (.of_step hs)
  | main a => exact h.main_step (.of_step hs)

section
variable {G : State → Label → Prop} {minThreads maxThreads initial : Nat}

theorem ReachableBy.slots (h : ReachableBy fl G minThreads maxThreads initial s) : SlotInv s :=
  h.inv SlotInv (fun now hmin hmax => SlotInv.start _ _ _ now hmin hmax)
    fun _ l _ hr hI _ hs => hI.step hr.control hr.mutex l hs

theorem step_limits (l : Label) (hs : Pool.step fl l s = some s') :
    s'.pool.minThreads = s.pool.minThreads ∧ s'.pool.maxThreads = s.pool.maxThreads := by
  cases l with
  | worker w a => cases WorkerMove.of_step hs <;> exact ⟨rfl, rfl⟩
  | caller c a => cases CallerMove.of_step hs <;> exact ⟨rfl, rfl⟩
  | main a => cases MainMove.of_step hs <;> exact ⟨rfl, rfl⟩

theorem ReachableBy.limits (h : ReachableBy fl G minThreads maxThreads initial s) :
    s.pool.minThreads = minThreads ∧ s.pool.maxThreads = maxThreads :=
  h.inv (fun s => s.pool.minThreads = minThreads ∧ s.pool.maxThreads = maxThreads)
    (fun _ _ _ => ⟨rfl, rfl⟩) fun _ l _ _ hI _ hs => by
      obtain ⟨h1, h2⟩ := step_limits l hs
      rw [h1, h2]
      exact hI

end

/-! ## workers without a slot -/

/-- a slot below `thread_count` refers to worker `v` -/
def State.inSlot (s : State) (v : Nat) : Bool :=
  (List.range s.pool.threadCount).any fun i => s.pool.threads i == some v

/-- worker `v` was created and no slot below `thread_count` refers to it any more -/
def State.dropped (s : State) (v : Nat) : Bool := decide (v < s.created) && !s.inSlot v

theorem inSlot_iff {v : Nat} :
    s.inSlot v = true ↔ ∃ i, i < s.pool.threadCount ∧ s.pool.threads i = some v := by
  simp [State.inSlot, List.any_eq_true]

end Pool
