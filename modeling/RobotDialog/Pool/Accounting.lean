import RobotDialog.Pool.Bound
import RobotDialog.Pool.CreateFails

/-!
# The thread pool: what `thread_count` counts when calls fail

A scale up counts each thread that it creates.  A scale down stops at the first `pthread_cancel`
that fails and stores its target all the same.

* `State.uncancelled`     the workers that were created and never successfully cancelled;
* `Accounted`             `thread_count` is their number and they are in the slots below it;
* `AccountInv`            where they are during a run, also in the middle of a pass;
* `accounting_exact`      every state behind the scaling passes of a run in which no cancel fails is
                          accounted for, and a cancel that fails breaks the account;
* `accounting_off`        three counted, four running.
-/

set_option linter.unusedSimpArgs false

namespace Pool
open State Lts Finset

variable {fl : ℚ → ℚ} {s s' : State} {w c : Nat}

/-- the workers that were created and never successfully cancelled -/
def State.uncancelled (s : State) : Finset Nat :=
  (range s.created).filter fun v => (s.workers v).cancelPending = false

theorem mem_uncancelled {v : Nat} :
    v ∈ s.uncancelled ↔ v < s.created ∧ (s.workers v).cancelPending = false := by
  rw [State.uncancelled, mem_filter, mem_range]

/-- the workers that were successfully cancelled -/
def State.cancelled (s : State) : Finset Nat :=
  (range s.created).filter fun v => ¬ (s.workers v).cancelPending = false

theorem uncancelled_add_cancelled (s : State) :
    s.uncancelled.card + s.cancelled.card = s.created := by
  have h := card_filter_add_card_filter_not (s := range s.created)
    fun v => (s.workers v).cancelPending = false
  rwa [card_range] at h

/-- `thread_count` is the number of the uncancelled workers, and these are the workers in the slots
`0 .. thread_count - 1` -/
structure Accounted (s : State) : Prop where
  count : s.pool.threadCount = s.uncancelled.card
  slots : ∀ v, v ∈ s.uncancelled ↔ ∃ i, i < s.pool.threadCount ∧ s.pool.threads i = some v

/-- in the cancel loop of a scale down, or before the store of its target -/
def CallerPc.scalingDown : CallerPc → Bool
  | .scaleDown _ _ _ | .scaleStoreCount _ _ => true
  | _ => false

theorem CallerPc.spares_of_not_scalingDown {p : CallerPc} (h : p.scalingDown = false) (i : Nat) :
    p.spares i := by
  cases p <;> trivial

/-! ## the invariant -/

/-- Every uncancelled worker has a slot that no scale down has given up. -/
structure AccountInv (s : State) : Prop where
  creating : ∀ i n, s.main = .create i n → i ≤ n
  held : s.main.creating = false → ∀ v, v ∈ s.uncancelled →
    ∃ i, i < s.pool.threadCount ∧ s.pool.threads i = some v ∧ ∀ d, (s.callers d).pc.spares i

theorem AccountInv.start (minThreads maxThreads initial : Nat) (now : Int) :
    AccountInv (startState minThreads maxThreads initial now) where
  creating i n h := by
    simp only [startState, MainPc.create.injEq] at h
    omega
  held h := by cases h

theorem AccountInv.same (h : AccountInv s) (hthreads : s'.pool.threads = s.pool.threads)
    (hcount : s'.pool.threadCount = s.pool.threadCount) (hcreated : s'.created = s.created)
    (hpending : ∀ v, (s'.workers v).cancelPending = (s.workers v).cancelPending)
    (hcreating : ∀ i n, s'.main = .create i n → s.main = .create i n)
    (hopen : s'.main.creating = false → s.main.creating = false)
    (hspares : ∀ i, i < s.pool.threadCount → (∀ d, (s.callers d).pc.spares i) →
      ∀ d, (s'.callers d).pc.spares i) : AccountInv s' := by
  refine ⟨fun i n hi => h.creating i n (hcreating i n hi), fun hcr v hv => ?_⟩
  rw [mem_uncancelled, hcreated, hpending, ← mem_uncancelled] at hv
  obtain ⟨i, hi, hvi, hs⟩ := h.held (hopen hcr) v hv
  exact ⟨i, by rw [hcount]; exact hi, by rw [hthreads]; exact hvi, hspares i hi hs⟩

theorem AccountInv.worker_step (h : AccountInv s) (hm : WorkerMove s w s') : AccountInv s' := by
  have hp := hm.pending_eq
  cases hm <;> exact h.same rfl rfl rfl hp (fun _ _ hi => hi) (fun hcr => hcr) fun _ _ hs => hs

theorem AccountInv.main_step (hcon : ControlInv s) (hsl : SlotInv s) (hcr : CreationInv s)
    (h : AccountInv s) (hm : MainMove s s') : AccountInv s' := by
  cases hm with
  | created i initial hpc hi =>
    refine ⟨fun j n hj => ?_, fun hopen => by cases hopen⟩
    simp only [mainGoto, MainPc.create.injEq] at hj
    omega
  | allCreated i initial hpc hi =>
    refine ⟨fun j n hj => (by cases hj), fun _ v hv => ?_⟩
    have hle := h.creating i initial hpc
    obtain ⟨j, hj, hvj⟩ :=
      hcr.slots (by rw [hpc]; rfl) (by rw [hpc]; rfl) v (mem_uncancelled.mp hv).1
    rw [hpc] at hj
    refine ⟨j, ?_, hvj, fun d => ?_⟩
    · have hj' : j < i := hj
      have hcount := hsl.creating i initial hpc
      show j < s.pool.threadCount
      omega
    · show (s.callers d).pc.spares j
      rw [(hcon.quiet (by rw [hpc]; rfl)).1 d]
      trivial
  | failBroadcast i hpc =>
    exact h.same rfl rfl rfl (broadcast_pending s) (fun _ _ hi => by cases hi)
      (fun hcr => by cases hcr) fun _ _ hs => hs
  | destroyBroadcast hpc =>
    exact h.same rfl rfl rfl (broadcast_pending s) (fun _ _ hi => by cases hi)
      (fun _ => by rw [hpc]; rfl) fun _ _ hs => hs
  | drain task t hpc hq ht =>
    exact h.same rfl rfl rfl (fun _ => rfl) (fun _ _ hi => hi) (fun hcr => hcr) fun _ _ hs => hs
  | _ =>
    refine h.same rfl rfl rfl (fun _ => rfl) (fun _ _ hi => by cases hi) (fun hcr => ?_)
      fun _ _ hs => hs
    simp_all [MainPc.creating]

/-! ## the callers -/

/-- the guard of the runs in which no `pthread_cancel` of a scale down fails -/
def CancelsSucceed (s : State) : Label → Prop
  | .caller c (.result false) => ∀ i new now, (s.callers c).pc ≠ .scaleDown i new now
  | _ => True

theorem spares_goto {i : Nat} {pc : CallerPc} (h : ∀ d, d ≠ c → (s.callers d).pc.spares i)
    (hpc : pc.spares i) (d : Nat) : ((s.callerGoto c pc).callers d).pc.spares i := by
  by_cases e : d = c
  · subst e
    simpa [callerGoto] using hpc
  · simp only [callerGoto, Function.update_of_ne e]
    exact h d e

/-- A scale down that ends with all its cancels done has given up the slots from its target on. -/
theorem scaleDown_done {a : CallerAct} {i : Int} {new : Nat} {now : Int}
    (hG : CancelsSucceed s (.caller c a)) (hpc : (s.callers c).pc = .scaleDown i new now)
    (hst : callerStep fl s c a = some s')
    (hpc' : (s'.callers c).pc = .scaleStoreCount new now) : i < new := by
  unfold callerStep at hst
  rw [hpc] at hst
  cases a with
  | run =>
    by_contra hi
    simp only [not_lt] at hi
    simp [hi] at hst
  | result ok =>
    cases ok with
    | false => exact absurd hpc (hG i new now)
    | true =>
      simp only [if_true] at hst
      split at hst
      · split at hst
        · cases hst
        · cases hst
          simp at hpc'
      · cases hst
  | _ => cases hst

theorem AccountInv.created_step (hM : MutexInv s) (hsl : SlotInv s) (h : AccountInv s)
    (hopen : s.main.creating = false) {i new : Nat} {now : Int}
    (hpc : (s.callers c).pc = .scaleUp i new now)
    (hs : s' = ((s.createWorker i).setPool { (s.createWorker i).pool with
      threadCount := s.pool.threadCount + 1 }).callerGoto c (.scaleUp (i + 1) new now)) :
    AccountInv s' := by
  have hok := hsl.scale c
  rw [hpc] at hok
  obtain ⟨rfl, _⟩ := hok
  have hspares' : ∀ j d, (s'.callers d).pc.spares j := by
    subst hs
    exact fun j => spares_goto (fun d _ => spares_of_scaleUp hM hpc j d) trivial
  subst hs
  refine ⟨fun j n hj => absurd hj (MainPc.ne_create hopen j n), fun _ v hv => ?_⟩
  show ∃ j, j < s.pool.threadCount + 1 ∧
    Function.update s.pool.threads s.pool.threadCount (some s.created) j = some v ∧ _
  rw [mem_uncancelled] at hv
  obtain ⟨hv, hp⟩ := hv
  have hv' : v < s.created + 1 := hv
  by_cases e : v = s.created
  · exact ⟨s.pool.threadCount, by omega, by rw [e, Function.update_self], hspares' _⟩
  · have hold : v ∈ s.uncancelled := by
      refine mem_uncancelled.mpr ⟨by omega, ?_⟩
      simpa [e] using hp
    obtain ⟨j, hj, hvj, -⟩ := h.held hopen v hold
    exact ⟨j, by omega, by rw [Function.update_of_ne (by omega)]; exact hvj, hspares' j⟩

theorem AccountInv.cancel_step (h : AccountInv s) (hopen : s.main.creating = false) {i : Int}
    {new v : Nat} {now : Int} (hpc : (s.callers c).pc = .scaleDown i new now)
    (hi : (new : Int) ≤ i) (hv : s.pool.threads i.toNat = some v)
    (hs : s' = (s.setWorker v { s.workers v with cancelPending := true }).callerGoto c
      (.scaleDown (i - 1) new now)) : AccountInv s' := by
  subst hs
  refine ⟨fun j n hj => absurd hj (MainPc.ne_create hopen j n), fun _ u hu => ?_⟩
  rw [mem_uncancelled] at hu
  obtain ⟨hu, hp⟩ := hu
  have hne : u ≠ v := by
    rintro rfl
    simp at hp
  have hold : u ∈ s.uncancelled := mem_uncancelled.mpr ⟨hu, by simpa [hne] using hp⟩
  obtain ⟨j, hj, huj, hsp⟩ := h.held hopen u hold
  refine ⟨j, hj, huj, spares_goto (fun d _ => hsp d) ?_⟩
  have hsc := hsp c
  rw [hpc] at hsc
  simp only [CallerPc.spares] at hsc
  -- slot `i` belongs to the worker that has just been cancelled
  have hji : (j : Int) ≠ i := by
    rintro rfl
    rw [Int.toNat_natCast, huj] at hv
    exact hne (Option.some.inj hv)
  show (j : Int) ≤ i - 1
  omega

theorem AccountInv.caller_same (h : AccountInv s) (hopen : s.main.creating = false)
    (hpool : s'.pool.threads = s.pool.threads ∧ s'.pool.threadCount = s.pool.threadCount)
    (hrest : s'.created = s.created ∧ s'.main = s.main)
    (hpending : ∀ v, (s'.workers v).cancelPending = (s.workers v).cancelPending)
    (hothers : ∀ d, d ≠ c → s'.callers d = s.callers d)
    (hspare : ∀ i, i < s.pool.threadCount → (s.callers c).pc.spares i →
      (s'.callers c).pc.spares i) : AccountInv s' := by
  obtain ⟨hcr, hmain⟩ := hrest
  refine h.same hpool.1 hpool.2 hcr hpending (fun i n hi => by rwa [hmain] at hi)
    (fun _ => hopen) fun i hi hs d => ?_
  by_cases e : d = c
  · subst e
    exact hspare i hi (hs d)
  · rw [hothers d e]
    exact hs d

theorem AccountInv.caller_step (hcon : ControlInv s) (hM : MutexInv s) (hsl : SlotInv s)
    (h : AccountInv s) {a : CallerAct} (hG : CancelsSucceed s (.caller c a))
    (hst : callerStep fl s c a = some s') : AccountInv s' := by
  have hm := CallerMove.of_step hst
  have hopen := hm.not_creating hcon
  cases hm with
  | addNull hpc ho => exact ⟨h.creating, h.held⟩
  | created i new now hpc hi => exact h.created_step hM hsl hopen hpc rfl
  | cancel i new v now hpc hi hv => exact h.cancel_step hopen hpc hi hv rfl
  | scaleDownEnds i new now hpc =>
    have hi := scaleDown_done hG hpc hst (by simp)
    refine h.caller_same (c := c) hopen ⟨rfl, rfl⟩ ⟨rfl, rfl⟩ (fun _ => rfl)
      (fun d e => by simp [e]) fun j _ hj => ?_
    rw [hpc] at hj
    simp only [CallerPc.spares] at hj
    simp only [callerGoto, Function.update_self, CallerPc.spares]
    omega
  | scaleStoreCount new now hpc =>
    refine ⟨fun j n hj => absurd hj (MainPc.ne_create hopen j n), fun _ v hv => ?_⟩
    obtain ⟨j, hj, hvj, hs⟩ := h.held hopen v hv
    have hsc := hs c
    rw [hpc] at hsc
    exact ⟨j, hsc, hvj, spares_goto (fun d _ => hs d) trivial⟩
  | signal v hpc hb =>
    refine h.caller_same (c := c) hopen ⟨rfl, rfl⟩ ⟨rfl, rfl⟩ (fun u => ?_)
      (fun d e => by simp [e]) (by simp [CallerPc.spares])
    by_cases e : u = v
    · subst e
      simp
    · simp [e]
  | scaleTest now hpc =>
    refine h.caller_same (c := c) hopen ⟨rfl, rfl⟩ ⟨rfl, rfl⟩ (fun _ => rfl)
      (fun d e => by simp [e]) fun j hj _ => ?_
    simp only [callerGoto, Function.update_self, scaleBranch]
    split
    · trivial
    · split
      · simp only [CallerPc.spares]
        omega
      · trivial
  | _ =>
    refine h.caller_same (c := c) hopen ⟨rfl, rfl⟩ ⟨rfl, rfl⟩ (fun _ => rfl)
      (fun d e => by simp [e]) (by simp [CallerPc.spares, *])

theorem ReachableBy.account {minThreads maxThreads initial : Nat}
    (h : ReachableBy fl CancelsSucceed minThreads maxThreads initial s) : AccountInv s :=
  h.inv AccountInv (fun now _ _ => AccountInv.start _ _ _ now)
    fun s l s' hr hI hG hst => by
      cases l with
      | worker w a => exact hI.worker_step (.of_step hst)
      | caller c a => exact hI.caller_step hr.control hr.mutex hr.slots hG hst
      | main a => exact hI.main_step hr.control hr.slots hr.creation (.of_step hst)

/-! ## the account -/

/-- As many workers as there are slots below `n`, each of which holds one of them. -/
theorem card_of_slots (hsl : SlotInv s) {A : Finset Nat} {n : Nat}
    (hfilled : ∀ i, i < n → s.pool.threads i ≠ none)
    (hA : ∀ v, v ∈ A ↔ ∃ i, i < n ∧ s.pool.threads i = some v) : A.card = n := by
  have himage : A = (range n).image fun i => (s.pool.threads i).getD 0 := by
    ext v
    rw [hA, mem_image]
    constructor
    · rintro ⟨i, hi, hv⟩
      exact ⟨i, mem_range.mpr hi, by rw [hv]; rfl⟩
    · rintro ⟨i, hi, hv⟩
      rw [mem_range] at hi
      obtain ⟨u, hu⟩ := Option.ne_none_iff_exists'.mp (hfilled i hi)
      rw [hu, Option.getD_some] at hv
      exact ⟨i, hi, hv ▸ hu⟩
  rw [himage, card_image_of_injOn, card_range]
  intro i hi j hj hij
  rw [coe_range, Set.mem_Iio] at hi hj
  obtain ⟨v, hv⟩ := Option.ne_none_iff_exists'.mp (hfilled i hi)
  obtain ⟨u, hu⟩ := Option.ne_none_iff_exists'.mp (hfilled j hj)
  simp only [hv, hu, Option.getD_some] at hij
  exact hsl.inj i j v hv (hij ▸ hu)

/-- The uncancelled workers are those in the slots below `n`, if these are the slots that have not
been given up. -/
theorem uncancelled_slots (hsl : SlotInv s) (h : AccountInv s) (hopen : s.main.creating = false)
    {n : Nat} (hn : n ≤ s.pool.threadCount)
    (hspares : ∀ i, i < s.pool.threadCount → ((∀ d, (s.callers d).pc.spares i) ↔ i < n)) :
    (∀ v, v ∈ s.uncancelled ↔ ∃ i, i < n ∧ s.pool.threads i = some v) ∧
      s.uncancelled.card = n := by
  have hslots : ∀ v, v ∈ s.uncancelled ↔ ∃ i, i < n ∧ s.pool.threads i = some v := by
    intro v
    constructor
    · intro hv
      obtain ⟨i, hi, hvi, hs⟩ := h.held hopen v hv
      exact ⟨i, (hspares i hi).mp hs, hvi⟩
    · rintro ⟨i, hi, hvi⟩
      have hlt : i < s.pool.threadCount := by omega
      exact mem_uncancelled.mpr
        ⟨hsl.stored i v hvi, hsl.clean i v hvi hlt ((hspares i hlt).mpr hi)⟩
  refine ⟨hslots, card_of_slots hsl (fun i hi => hsl.filled i ?_) hslots⟩
  rw [MainPc.filled_eq hopen]
  omega

theorem spares_iff_of_scaleDown (hM : MutexInv s) {i : Int} {new : Nat} {now : Int}
    (hpc : (s.callers c).pc = .scaleDown i new now) (j : Nat) :
    (∀ d, (s.callers d).pc.spares j) ↔ (j : Int) ≤ i := by
  constructor
  · intro h
    have hc := h c
    rwa [hpc] at hc
  · intro hj d
    by_cases e : d = c
    · subst e
      rw [hpc]
      exact hj
    · have hc : s.holds (.caller c) = true := by simp [holds, hpc, CallerPc.holds]
      have hd : (s.callers d).pc.holds = false := by
        by_contra h
        have h' : s.holds (.caller d) = true := by simpa [holds] using h
        exact e (Thread.caller.inj (hM.excl h' hc))
      cases e' : (s.callers d).pc <;> rw [e'] at hd <;> trivial

/-- **Exact accounting.**  In every run in which no `pthread_cancel` of a scale down fails (any
`pthread_create` may), every state of a created pool with no scale down in progress is accounted
for: every call that succeeded counts, once.  And this is what it takes: a scale down of such a run
that stops at a failed cancel stores a `thread_count` that is wrong. -/
theorem accounting_exact (fl : ℚ → ℚ) (minThreads maxThreads initial : Nat) :
    (∀ s, ReachableBy fl CancelsSucceed minThreads maxThreads initial s →
      s.main.creating = false → (∀ c, (s.callers c).pc.scalingDown = false) →
      Accounted s ∧ s.pool.threadCount + s.cancelled.card = s.created) ∧
    ∀ s s₁ s₂ c i new now, ReachableBy fl CancelsSucceed minThreads maxThreads initial s →
      (s.callers c).pc = .scaleDown i new now →
      step fl (.caller c (.result false)) s = some s₁ → step fl (.caller c .run) s₁ = some s₂ →
      ¬ Accounted s₂ := by
  constructor
  · intro s h hopen hnone
    have hspares : ∀ i d, (s.callers d).pc.spares i := fun i d =>
      CallerPc.spares_of_not_scalingDown (hnone d) i
    obtain ⟨hslots, hcard⟩ := uncancelled_slots h.slots h.account hopen le_rfl
      fun i hi => ⟨fun _ => hi, fun _ => hspares i⟩
    refine ⟨⟨hcard.symm, hslots⟩, ?_⟩
    have := uncancelled_add_cancelled s
    omega
  · intro s s₁ s₂ c i new now h hpc hst₁ hst₂ hacc
    have hopen := (CallerMove.of_step hst₁).not_creating h.control
    have hok := h.slots.scale c
    rw [hpc] at hok
    obtain ⟨-, htop, -⟩ := hok
    simp only [step, callerStep, hpc] at hst₁
    split at hst₁
    · rename_i hi
      simp only [Bool.false_eq_true, if_false, Option.some.injEq] at hst₁
      subst hst₁
      simp only [step, callerStep, callerGoto, Function.update_self, Option.some.injEq] at hst₂
      obtain ⟨n, rfl⟩ : ∃ n : Nat, i = n := ⟨i.toNat, by omega⟩
      obtain ⟨-, hcard⟩ := uncancelled_slots (n := n + 1) h.slots h.account hopen (by omega)
        fun j _ => by
          rw [spares_iff_of_scaleDown h.mutex hpc]
          omega
      have hcount : new = s.uncancelled.card := by
        have hc := hacc.count
        rw [← hst₂] at hc
        exact hc
      omega
    · cases hst₁

theorem not_scalingDown_of_free (hM : MutexInv s) (hfree : s.owner = none) (c : Nat) :
    (s.callers c).pc.scalingDown = false := by
  have hholds : (s.callers c).pc.holds = false := hM.free hfree (.caller c)
  cases e : (s.callers c).pc <;> first | rfl | (rw [e] at hholds; cases hholds)

/-- An idle pool of four with minimum one scales down to three, `ok` is the result of the cancel of
slot 3. -/
def cancelRun (ok : Bool) : List Label :=
  List.replicate 4 (.main (.result true)) ++ [.main .run, .caller 0 .autoScale, .caller 0 (.time 2),
    .caller 0 .run, .caller 0 .run, .caller 0 (.result ok)]

/-- the end of a scale down, with `n` statements left -/
def endScaleRun (n : Nat) : List Label := List.replicate n (.caller 0 .run)

/-- **Three counted, four running.** -/
theorem accounting_off : ∃ s, Reachable id 1 4 4 s ∧ s.main.creating = false ∧
    (∀ c, (s.callers c).pc.scalingDown = false) ∧ s.pool.threadCount = 3 ∧
    s.uncancelled.card = 4 ∧ ¬ Accounted s := by
  have hrun : (exec (step id) (startState 1 4 4 0) (cancelRun false ++ endScaleRun 3)).map (fun s =>
      (s.main.creating, s.owner, s.pool.threadCount, s.uncancelled.card)) =
      some (false, none, 3, 4) := by decide +kernel
  obtain ⟨s, hs, hv⟩ := Option.map_eq_some_iff.mp hrun
  simp only [Prod.mk.injEq] at hv
  obtain ⟨hopen, hfree, hcount, hcard⟩ := hv
  have hreach : Reachable id 1 4 4 s := ⟨0, true, true, true, _, rfl, Reach.of_exec _ hs⟩
  refine ⟨s, hreach, hopen, not_scalingDown_of_free hreach.mutex hfree, hcount, hcard, ?_⟩
  intro hacc
  have := hacc.count
  omega

def cancelsSucceed (s : State) : Label → Bool
  | .caller c (.result false) => !(s.callers c).pc.scalingDown
  | _ => true

theorem cancelsSucceed_sound (s : State) (l : Label) (h : cancelsSucceed s l = true) :
    CancelsSucceed s l := by
  unfold cancelsSucceed at h
  split at h
  · intro i new now hpc
    rw [hpc] at h
    cases h
  · unfold CancelsSucceed
    split
    · simp_all
    · trivial

theorem reach_of_cancelsSucceed {s₀ : State} (ls : List Label)
    (h : exec (guarded cancelsSucceed (step fl)) s₀ ls = some s) :
    Reach (step fl) CancelsSucceed s₀ s :=
  Reach.of_guarded (fun _ => True) cancelsSucceed (fun s l _ => cancelsSucceed_sound s l)
    (fun _ _ _ _ _ _ => trivial) trivial ls h

/-- The pass with the cancel done, and the pass in which it fails. -/
theorem accounting_exact_idle :
    (∃ s, ReachableBy id CancelsSucceed 1 4 4 s ∧ s.pool.threadCount = 3 ∧ Accounted s) ∧
      ∃ s s₁ s₂, ReachableBy id CancelsSucceed 1 4 4 s ∧
        step id (.caller 0 (.result false)) s = some s₁ ∧
        step id (.caller 0 .run) s₁ = some s₂ ∧ ¬ Accounted s₂ := by
  constructor
  · have hrun : (exec (guarded cancelsSucceed (step id)) (startState 1 4 4 0)
        (cancelRun true ++ endScaleRun 4)).map (fun s =>
          (s.main.creating, s.owner, s.pool.threadCount)) = some (false, none, 3) := by
      decide +kernel
    obtain ⟨s, hs, hv⟩ := Option.map_eq_some_iff.mp hrun
    simp only [Prod.mk.injEq] at hv
    obtain ⟨hopen, hfree, hcount⟩ := hv
    have hreach : ReachableBy id CancelsSucceed 1 4 4 s :=
      ⟨0, true, true, true, _, rfl, reach_of_cancelsSucceed _ hs⟩
    exact ⟨s, hreach, hcount, ((accounting_exact id 1 4 4).1 s hreach hopen
      (not_scalingDown_of_free hreach.mutex hfree)).1⟩
  · have hrun : (exec (guarded cancelsSucceed (step id)) (startState 1 4 4 0)
        (cancelRun false).dropLast).bind (fun s => (step id (.caller 0 (.result false)) s).bind
          fun s₁ => (step id (.caller 0 .run) s₁).map fun s₂ =>
            ((s.callers 0).pc, s₂.pool.threadCount)) = some (.scaleDown 3 3 2, 3) := by
      decide +kernel
    obtain ⟨s, hs, hv⟩ := Option.bind_eq_some_iff.mp hrun
    obtain ⟨s₁, hs₁, hv⟩ := Option.bind_eq_some_iff.mp hv
    obtain ⟨s₂, hs₂, hv⟩ := Option.map_eq_some_iff.mp hv
    have hreach : ReachableBy id CancelsSucceed 1 4 4 s :=
      ⟨0, true, true, true, _, rfl, reach_of_cancelsSucceed _ hs⟩
    exact ⟨s, s₁, s₂, hreach, hs₁, hs₂, (accounting_exact id 1 4 4).2 s s₁ s₂ 0 3 3 2 hreach
      (Prod.mk.inj hv).1 hs₁ hs₂⟩

end Pool
