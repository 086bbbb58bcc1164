import RobotDialog.Pool.Counters
import RobotDialog.Pool.Teardown
import RobotDialog.Pool.Wakeup

/-!
# The thread pool: how many workers are alive

`thread_count` counts slots.  A worker that a scale down has dropped from its slot stays alive until
it next waits for a task, and a later scale up refills the slot.

* `State.liveWorkers`   the workers that were created and have not ended;
* `State.lingering`     those of them that were dropped from their slots;
* `live_le`, `live_eq`  the live workers are those in the slots and those that linger;
* `live_bounded`        `max_threads` bounds them in every run whose scale ups leave room for those
                        that linger, and no other scale up stays within the bound;
* `ReachableBy.roomToGrow`  there is room when the dropped workers have ended;
* `live_exceeds`        five workers in a pool of at most four.
-/

set_option linter.unusedSimpArgs false

namespace Pool
open State Lts Finset

variable {fl : ℚ → ℚ} {s s' : State} {w c : Nat}

/-- the workers that were created and have not ended -/
def State.liveWorkers (s : State) : Nat := s.count WorkerPc.live

/-- the live workers that no slot below `thread_count` refers to -/
def State.lingering (s : State) : Nat :=
  ((range s.created).filter fun v => (s.workers v).pc.live = true ∧ s.inSlot v = false).card

/-- the live workers in the slots below `thread_count` -/
def State.slotted (s : State) : Finset Nat :=
  (range s.created).filter fun v => (s.workers v).pc.live = true ∧ s.inSlot v = true

theorem live_split (s : State) : s.liveWorkers = s.slotted.card + s.lingering := by
  unfold State.liveWorkers State.count State.slotted State.lingering
  rw [← card_filter_add_card_filter_not (fun v => s.inSlot v = true), filter_filter, filter_filter]
  simp only [Bool.not_eq_true]

theorem slotted_subset (s : State) :
    s.slotted ⊆ (range s.pool.threadCount).image fun i => (s.pool.threads i).getD 0 := by
  intro v hv
  simp only [State.slotted, mem_filter, mem_range] at hv
  obtain ⟨i, hi, hv⟩ := inSlot_iff.mp hv.2.2
  exact mem_image.mpr ⟨i, mem_range.mpr hi, by rw [hv]; rfl⟩

/-- **At most the slots and those that linger.** -/
theorem live_le (s : State) : s.liveWorkers ≤ s.pool.threadCount + s.lingering := by
  have h := (card_le_card (slotted_subset s)).trans card_image_le
  rw [card_range] at h
  rw [live_split]
  omega

/-- Before shutdown every slot below `thread_count` holds a live worker, if nobody is scaling
down. -/
theorem live_eq (h : SlotInv s) (hC : CreatedInv s) (he : EndInv s)
    (hopen : s.main.creating = false) (hsh : s.pool.shutdown = false)
    (hspare : ∀ i c, (s.callers c).pc.spares i) :
    s.liveWorkers = s.pool.threadCount + s.lingering := by
  rw [live_split]
  congr 1
  refine le_antisymm ((card_le_card (slotted_subset s)).trans ?_) ?_
  · exact card_image_le.trans (card_range _).le
  have hfilled : ∀ i, i < s.pool.threadCount → ∃ v, s.pool.threads i = some v := by
    intro i hi
    exact Option.ne_none_iff_exists'.mp (h.filled i (by rwa [MainPc.filled_eq hopen]))
  have hmaps : ∀ i ∈ range s.pool.threadCount, (s.pool.threads i).getD 0 ∈ s.slotted := by
    intro i hi
    rw [mem_range] at hi
    obtain ⟨v, hv⟩ := hfilled i hi
    have hlt := h.stored i v hv
    have hclean := h.clean i v hv hi (hspare i)
    have hend := he v
    rw [hclean, hsh] at hend
    have hnew : (s.workers v).pc ≠ .notCreated := fun hpc => by
      have := (hC v).mp hpc
      omega
    rw [hv, Option.getD_some]
    refine mem_filter.mpr ⟨mem_range.mpr hlt, ?_, inSlot_iff.mpr ⟨i, hi, hv⟩⟩
    cases e : (s.workers v).pc <;> simp_all [WorkerPc.live, WorkerPc.EndOk]
  have hinj : Set.InjOn (fun i => (s.pool.threads i).getD 0) (range s.pool.threadCount) := by
    intro i hi j hj hij
    rw [coe_range, Set.mem_Iio] at hi hj
    obtain ⟨v, hv⟩ := hfilled i hi
    obtain ⟨u, hu⟩ := hfilled j hj
    simp only [hv, hu, Option.getD_some] at hij
    exact h.inj i j v hv (hij ▸ hu)
  have hcard := card_le_card_of_injOn _ hmaps hinj
  rwa [card_range] at hcard

/-! ## how a step changes the number of live workers -/

theorem WorkerPc.Pushed.live {p q : WorkerPc} (h : p.Pushed q) (hp : p ≠ .notCreated) :
    q.live = p.live := by
  cases h with
  | same => rfl
  | wake h => subst h; rfl
  | start h => exact absurd h hp

theorem liveWorkers_le (hcr : s'.created = s.created)
    (h : ∀ v, v < s.created → (s'.workers v).pc.live = true → (s.workers v).pc.live = true) :
    s'.liveWorkers ≤ s.liveWorkers := by
  unfold State.liveWorkers State.count
  rw [hcr]
  refine card_le_card fun v hv => ?_
  rw [mem_filter, mem_range] at hv ⊢
  exact ⟨hv.1, h v hv.1 hv.2⟩

theorem WorkerMove.was_live (hm : WorkerMove s w s') : (s.workers w).pc.live = true := by
  cases hm with
  | setcancelFails hpc => rcases hpc with hpc | hpc <;> rw [hpc] <;> rfl
  | _ => simp only [*]; rfl

theorem WorkerMove.liveWorkers_le (hC : CreatedInv s) (hm : WorkerMove s w s') :
    s'.liveWorkers ≤ s.liveWorkers := by
  refine Pool.liveWorkers_le hm.created_eq fun v hv hlive => ?_
  by_cases e : v = w
  · subst e
    exact hm.was_live
  · have hnew : (s.workers v).pc ≠ .notCreated := fun hpc => by
      have := (hC v).mp hpc
      omega
    rwa [(hm.pushed e).live hnew] at hlive

theorem liveWorkers_pushed (hC : CreatedInv s)
    (hpush : ∀ v, (s.workers v).pc.Pushed (s'.workers v).pc) (hcr : s'.created = s.created) :
    s'.liveWorkers ≤ s.liveWorkers := by
  refine liveWorkers_le hcr fun v hv hlive => ?_
  have hnew : (s.workers v).pc ≠ .notCreated := fun hpc => by
    have := (hC v).mp hpc
    omega
  rwa [(hpush v).live hnew] at hlive

/-- **A creation adds one.** -/
theorem liveWorkers_create (s : State) (i : Nat) :
    (s.createWorker i).liveWorkers = s.liveWorkers + 1 := by
  have hnew : ((s.createWorker i).workers s.created).pc.live = true := by simp [WorkerPc.live]
  have hold : ∀ v ∈ range s.created, ((s.createWorker i).workers v).pc.live = true ↔
      (s.workers v).pc.live = true := by
    intro v hv
    rw [mem_range] at hv
    simp [hv.ne]
  unfold State.liveWorkers State.count
  rw [show (s.createWorker i).created = s.created + 1 from rfl, range_add_one, filter_insert,
    if_pos hnew, filter_congr hold, card_insert_of_notMem]
  simp

theorem liveWorkers_le_created (s : State) : s.liveWorkers ≤ s.created := by
  have h := card_filter_le (range s.created) fun v => (s.workers v).pc.live = true
  rwa [card_range] at h

/-- While the pool is being created, one worker is created for each slot. -/
def CreatingInv (s : State) : Prop := ∀ i n, s.main = .create i n → s.created = i

theorem CreatingInv.step (hcon : ControlInv s) (h : CreatingInv s) (l : Label)
    (hst : Pool.step fl l s = some s') : CreatingInv s' := by
  intro i n hi
  cases l with
  | worker w a =>
    have hm := WorkerMove.of_step hst
    rw [hm.created_eq]
    refine h i n ?_
    rw [← hi]
    cases hm <;> rfl
  | caller c a =>
    have hm := CallerMove.of_step hst
    have hmain : s'.main = s.main := by cases hm <;> rfl
    exact absurd (hmain ▸ hi) (MainPc.ne_create (hm.not_creating hcon) i n)
  | main a =>
    have hm := MainMove.of_step hst
    cases hm with
    | created j initial hpc hj =>
      simp only [mainGoto, MainPc.create.injEq] at hi
      have hj := h j initial hpc
      show s.created + 1 = i
      omega
    | drain task t hpc hq ht =>
      have hi' : s.main = .create i n := hi
      rw [hpc] at hi'
      cases hi'
    | _ => cases hi

section
variable {G : State → Label → Prop} {minThreads maxThreads initial : Nat}

theorem ReachableBy.creating (h : ReachableBy fl G minThreads maxThreads initial s) :
    CreatingInv s :=
  h.inv CreatingInv (fun now _ _ i n hi => by
      simp only [startState, MainPc.create.injEq] at hi
      exact hi.1)
    fun _ l _ hr hI _ hs => hI.step hr.control l hs

end

/-! ## the bound -/

/-- the guard of the runs in which a scale up creates a thread only if the slots and the lingering
workers leave room for it -/
def RoomToGrow (s : State) : Label → Prop
  | .caller c (.result true) => ∀ i new now, (s.callers c).pc = .scaleUp i new now →
      s.pool.threadCount + s.lingering < s.pool.maxThreads
  | _ => True

theorem created_label {a : CallerAct} {i new : Nat} {now : Int}
    (hpc : (s.callers c).pc = .scaleUp i new now) (hi : i < new) (hcr : s'.created ≠ s.created)
    (hst : callerStep fl s c a = some s') : a = .result true := by
  unfold callerStep at hst
  rw [hpc] at hst
  cases a with
  | result ok =>
    cases ok with
    | true => rfl
    | false =>
      simp only [hi, if_true, Bool.false_eq_true, if_false, Option.some.injEq] at hst
      subst hst
      exact absurd rfl hcr
  | run => simp [hi] at hst
  | _ => cases hst

theorem liveWorkers_step (hC : CreatedInv s) (hsl : SlotInv s) (hcr : CreatingInv s)
    (h : s.liveWorkers ≤ s.pool.maxThreads) (l : Label) (hG : RoomToGrow s l)
    (hst : step fl l s = some s') : s'.liveWorkers ≤ s.pool.maxThreads := by
  cases l with
  | worker w a => exact ((WorkerMove.of_step hst).liveWorkers_le hC).trans h
  | caller c a =>
    have hm := CallerMove.of_step hst
    have hpush := hm.pushed hC
    cases hm with
    | created i new now hpc hi =>
      have ha := created_label hpc hi (Nat.succ_ne_self _) hst
      subst ha
      have hroom := hG i new now hpc
      have hle := live_le s
      have hone := liveWorkers_create s i
      show (s.createWorker i).liveWorkers ≤ _
      omega
    | _ => exact (liveWorkers_pushed hC hpush rfl).trans h
  | main a =>
    have hm := MainMove.of_step hst
    have hpush := hm.pushed hC
    cases hm with
    | created i initial hpc hi =>
      have hcount := hsl.creating i initial hpc
      have hcre := hcr i initial hpc
      have hle := liveWorkers_le_created (s.createWorker i)
      have hb := hsl.bounds.2
      refine hle.trans ?_
      show s.created + 1 ≤ _
      omega
    | _ => exact (liveWorkers_pushed hC hpush rfl).trans h

theorem spares_of_scaleUp (hM : MutexInv s) {i new : Nat} {now : Int}
    (hpc : (s.callers c).pc = .scaleUp i new now) (j d : Nat) : (s.callers d).pc.spares j := by
  by_cases e : d = c
  · subst e
    rw [hpc]
    trivial
  · have hc : s.holds (.caller c) = true := by simp [holds, hpc, CallerPc.holds]
    have hd : (s.callers d).pc.holds = false := by
      by_contra h
      have h' : s.holds (.caller d) = true := by simpa [holds] using h
      exact e (Thread.caller.inj (hM.excl h' hc))
    cases e' : (s.callers d).pc <;> rw [e'] at hd <;> trivial

/-- the guard of the runs in which the workers that a scale down has dropped have ended when a scale
up creates a thread -/
def DroppedEnded (s : State) : Label → Prop
  | .caller c (.result true) => ∀ i new now, (s.callers c).pc = .scaleUp i new now →
      ∀ v, s.dropped v = true → (s.workers v).pc.live = false
  | _ => True

theorem lingering_zero (h : ∀ v, s.dropped v = true → (s.workers v).pc.live = false) :
    s.lingering = 0 := by
  unfold State.lingering
  rw [card_eq_zero, filter_eq_empty_iff]
  rintro v hv ⟨hlive, hin⟩
  rw [mem_range] at hv
  rw [h v (by simp [State.dropped, hv, hin])] at hlive
  cases hlive

/-- **Where the room comes from**: there is room whenever the dropped workers have ended. -/
theorem ReachableBy.roomToGrow {minThreads maxThreads initial : Nat}
    (h : ReachableBy fl DroppedEnded minThreads maxThreads initial s) :
    ReachableBy fl RoomToGrow minThreads maxThreads initial s := by
  refine h.guard fun s l s' hr hG hst => ?_
  unfold RoomToGrow
  split
  · rename_i c
    intro i new now hpc
    have hscale := hr.slots.scale c
    rw [hpc] at hscale
    obtain ⟨rfl, hmax⟩ := hscale
    have hi : s.pool.threadCount < new := by
      by_contra hge
      simp only [step, callerStep, hpc, if_neg hge] at hst
      cases hst
    rw [lingering_zero (hG _ new now hpc)]
    omega
  · trivial

/-- **The bound.**  `max_threads` bounds the live workers in every run whose scale ups leave room
for the workers that linger.  And this is what it takes: before shutdown a scale up that creates a
thread stays within the bound only if there was room. -/
theorem live_bounded (fl : ℚ → ℚ) (minThreads maxThreads initial : Nat) :
    (∀ s, ReachableBy fl RoomToGrow minThreads maxThreads initial s →
      s.liveWorkers ≤ maxThreads) ∧
    ∀ s s' c i new now, ReachableBy fl SetcancelSucceeds minThreads maxThreads initial s →
      s.pool.shutdown = false → (s.callers c).pc = .scaleUp i new now →
      step fl (.caller c (.result true)) s = some s' →
      (s'.liveWorkers ≤ maxThreads ↔ s.pool.threadCount + s.lingering < maxThreads) := by
  constructor
  · intro s h
    refine h.inv (fun s => s.liveWorkers ≤ maxThreads) (fun now _ _ => ?_)
      fun s l s' hr hI hG hst => ?_
    · exact (liveWorkers_le_created _).trans (Nat.zero_le _)
    · rw [← hr.limits.2] at hI ⊢
      exact liveWorkers_step hr.created hr.slots hr.creating hI l hG hst
  · intro s s' c i new now hr hsh hpc hst
    have hm := CallerMove.of_step hst
    have hopen := hm.not_creating hr.control
    have heq := live_eq hr.slots hr.created hr.ends hopen hsh (spares_of_scaleUp hr.mutex hpc)
    have hone : s'.liveWorkers = s.liveWorkers + 1 := by
      have hst' := hst
      simp only [step, callerStep, hpc] at hst'
      split at hst'
      · simp only [if_true, Option.some.injEq] at hst'
        rw [← hst', ← liveWorkers_create s i]
        rfl
      · cases hst'
    omega

/-- Worker 3 is busy when a scale down drops it, worker 0 takes a second task, and eleven more
tasks make the pool scale up. -/
def refillRun : List Label :=
  List.replicate 4 (.main (.result true)) ++ [.main .run] ++ addTaskRun 1 100 1 ++ takeTaskRun 3 ++
    addTaskRun 2 200 2 ++ [.caller 0 .run, .caller 0 .run, .caller 0 (.result true),
    .caller 0 .run, .caller 0 .run, .caller 0 .run, .caller 0 .run] ++ takeTaskRun 0 ++
    (List.range 10).flatMap (fun k => addTaskRun (k + 3) k 3) ++ addTaskRun 13 10 4 ++
    [.caller 0 .run, .caller 0 .run, .caller 0 (.result true)]

/-- **Five live workers in a pool of at most four.** -/
theorem live_exceeds : ∃ s, Reachable id 1 4 4 s ∧ s.liveWorkers = 5 := by
  have hrun : (exec (step id) (startState 1 4 4 0) refillRun).map State.liveWorkers = some 5 := by
    decide +kernel
  obtain ⟨s, hs, hlive⟩ := Option.map_eq_some_iff.mp hrun
  exact ⟨s, ⟨0, true, true, true, _, rfl, Reach.of_exec refillRun hs⟩, hlive⟩

def roomToGrow (s : State) : Label → Bool
  | .caller c (.result true) =>
    match (s.callers c).pc with
    | .scaleUp _ _ _ => decide (s.pool.threadCount + s.lingering < s.pool.maxThreads)
    | _ => true
  | _ => true

theorem roomToGrow_sound (s : State) (l : Label) (h : roomToGrow s l = true) : RoomToGrow s l := by
  unfold roomToGrow at h
  split at h
  · intro i new now hpc
    rw [hpc] at h
    exact of_decide_eq_true h
  · unfold RoomToGrow
    split
    · simp_all
    · trivial

/-- The same run in a pool of at most five, and the creation that goes wrong in a pool of at most
four. -/
theorem live_bounded_refill :
    (∃ s, ReachableBy id RoomToGrow 1 5 4 s ∧ s.created = 5 ∧ s.liveWorkers ≤ 5) ∧
      ∃ s s' : State, ReachableBy id SetcancelSucceeds 1 4 4 s ∧ s'.created = 5 ∧
        (s'.liveWorkers ≤ 4 ↔ s.pool.threadCount + s.lingering < 4) := by
  constructor
  · have hrun : (exec (guarded roomToGrow (step id)) (startState 1 5 4 0) refillRun).map
        State.created = some 5 := by decide +kernel
    obtain ⟨s, hs, hcr⟩ := Option.map_eq_some_iff.mp hrun
    have hreach : ReachableBy id RoomToGrow 1 5 4 s :=
      ⟨0, true, true, true, _, rfl, Reach.of_guarded (fun _ => True) roomToGrow
        (fun s l _ => roomToGrow_sound s l) (fun _ _ _ _ _ _ => trivial) trivial refillRun hs⟩
    exact ⟨s, hreach, hcr, (live_bounded id 1 5 4).1 s hreach⟩
  · have hrun : (exec (guarded setcancelSucceeds (step id)) (startState 1 4 4 0)
        refillRun.dropLast).bind (fun s => (step id (.caller 0 (.result true)) s).map fun s' =>
          (s.pool.shutdown, (s.callers 0).pc, s'.created)) =
        some (false, .scaleUp 3 4 4, 5) := by decide +kernel
    obtain ⟨s, hs, hv⟩ := Option.bind_eq_some_iff.mp hrun
    obtain ⟨s', hs', hv⟩ := Option.map_eq_some_iff.mp hv
    simp only [Prod.mk.injEq] at hv
    obtain ⟨hsh, hpc, hcr⟩ := hv
    have hreach : ReachableBy id SetcancelSucceeds 1 4 4 s :=
      ⟨0, true, true, true, _, rfl, reach_of_setcancelSucceeds _ hs⟩
    exact ⟨s, s', hreach, hcr, (live_bounded id 1 4 4).2 s s' 0 3 4 4 hreach hsh hpc hs'⟩

end Pool
