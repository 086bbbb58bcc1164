import RobotDialog.Pool.Queue

/-!
# The thread pool: what the calls of `thread_pool_add_task` return

Every call has its own number, which is also the number of the task that it makes.  A call returns 0
exactly if its task went into the queue.

* `HeapFrame`          a move leaves the nodes that the other threads own alone;
* `CallsInv`           the phases of a call;
* `ReachableBy.calls`  it holds of every reachable state.
-/

set_option linter.unusedSimpArgs false

namespace Pool
open State Lts Heap

variable {fl : ℚ → ℚ} {s s' : State} {w c : Nat} {l : List (Ptr × Job)}

/-! ## the nodes of the other threads keep their contents -/

def HeapFrame (s : State) (t : Thread) (s' : State) : Prop :=
  ∀ u a, u ≠ t → s.task u = some a → s'.heap a = s.heap a

theorem WorkerMove.heapFrame (h : QueueInv s l) (hm : WorkerMove s w s') :
    HeapFrame s (.worker w) s' := by
  intro u a hu ha
  cases hm with
  | freeTask task hpc =>
    have hown : s.task (.worker w) = some task := by simp [State.task, hpc, WorkerPc.task]
    have hne : a ≠ task := fun e => hu (h.excl u _ task (e ▸ ha) hown)
    exact Function.update_of_ne hne ..
  | _ => rfl

theorem CallerMove.heapFrame (h : QueueInv s l) (hm : CallerMove fl s c s') :
    HeapFrame s (.caller c) s' := by
  intro u a hu ha
  cases hm with
  | malloc job p hpc hp =>
    have hne : a ≠ p := fun e => (h.owned u a ha).1 (e ▸ hp)
    exact Function.update_of_ne hne ..
  | freeReject task hpc =>
    have hown : s.task (.caller c) = some task := by simp [State.task, hpc, CallerPc.task]
    have hne : a ≠ task := fun e => hu (h.excl u _ task (e ▸ ha) hown)
    exact Function.update_of_ne hne ..
  | linkLast task tail t n hpc ht hq htail hn =>
    have hown : (s.callers c).pc.task = some task := by simp [hpc, CallerPc.task]
    have hmem := (h.linkLast hown ht hown hq htail hn).1
    have hne : a ≠ tail := fun e => (h.owned u a ha).2 (e ▸ hmem)
    exact Function.update_of_ne hne ..
  | _ => rfl

theorem MainMove.heapFrame (h : QueueInv s l) (hm : MainMove s s') : HeapFrame s .main s' := by
  intro u a _ ha
  cases hm with
  | drain task t hpc hq ht =>
    have hlink := h.linked
    rw [hq] at hlink
    obtain ⟨n, l', _, rfl, _⟩ := hlink.uncons
    have hne : a ≠ task := fun e => (h.owned u a ha).2 (by simp [e])
    exact Function.update_of_ne hne ..
  | _ => rfl

/-! ## the phases of a call -/

/-- the call has not decided yet whether its task goes into the queue -/
def CallerPc.undecided : CallerPc → Bool
  | .mallocTask _ | .lockAdd _ | .testShutdown _ | .unlockReject _ | .freeReject _ | .link _ => true
  | _ => false

/-- the numbers of the calls whose task went into the queue -/
def State.acceptedCalls (s : State) : List Nat := s.accepted.map Job.call

structure CallsInv (s : State) : Prop where
  idle : ∀ c, (s.callers c).pc = .idle → (s.callers c).call = none
  made : ∀ c job, (s.callers c).pc = .mallocTask job → (s.callers c).call = some job.call
  node : ∀ c a t, (s.callers c).pc.task = some a → s.heap a = some t →
    (s.callers c).call = some t.job.call
  undecided : ∀ c n, (s.callers c).pc.undecided = true → (s.callers c).call = some n →
    n ∉ s.acceptedCalls
  decided : ∀ c n, (s.callers c).pc.undecided = false → (s.callers c).call = some n →
    n ∈ s.acceptedCalls
  bound : ∀ c n, (s.callers c).call = some n → n < s.calls
  uniq : ∀ c d n, (s.callers c).call = some n → (s.callers d).call = some n → c = d
  acceptedBound : ∀ n ∈ s.acceptedCalls, n < s.calls
  acceptedNodup : s.acceptedCalls.Nodup
  returned : ∀ n rc, (n, rc) ∈ s.returned → n < s.calls ∧ (∀ c, (s.callers c).call ≠ some n) ∧
    ((rc = 0 ∧ n ∈ s.acceptedCalls) ∨ (rc = -1 ∧ n ∉ s.acceptedCalls))

theorem CallsInv.start (minThreads maxThreads initial : Nat) (now : Int) :
    CallsInv (startState minThreads maxThreads initial now) where
  idle _ _ := rfl
  made c job h := by simp [startState] at h
  node c a t h := by simp [startState, CallerPc.task] at h
  undecided c n _ h := by simp [startState] at h
  decided c n _ h := by simp [startState] at h
  bound c n h := by simp [startState] at h
  uniq c d n h := by simp [startState] at h
  acceptedBound n h := by simp [startState, State.acceptedCalls] at h
  acceptedNodup := List.nodup_nil
  returned n rc h := by simp [startState] at h

/-- **A move of a thread that is not a caller.** -/
theorem CallsInv.same (h : CallsInv s) (hc : s'.callers = s.callers)
    (hhist : s'.calls = s.calls ∧ s'.accepted = s.accepted ∧ s'.returned = s.returned)
    (hheap : ∀ d a, (s.callers d).pc.task = some a → s'.heap a = s.heap a) : CallsInv s' := by
  have hacc : s'.acceptedCalls = s.acceptedCalls := by rw [State.acceptedCalls, hhist.2.1]; rfl
  refine ⟨?_, ?_, ?_, ?_, ?_, ?_, ?_, ?_, ?_, ?_⟩
  · rw [hc]; exact h.idle
  · rw [hc]; exact h.made
  · intro d a t hd ht
    rw [hc] at hd ⊢
    rw [hheap d a hd] at ht
    exact h.node d a t hd ht
  · rw [hc, hacc]; exact h.undecided
  · rw [hc, hacc]; exact h.decided
  · rw [hc, hhist.1]; exact h.bound
  · rw [hc]; exact h.uniq
  · rw [hacc, hhist.1]; exact h.acceptedBound
  · rw [hacc]; exact h.acceptedNodup
  · rw [hc, hacc, hhist.1, hhist.2.2]; exact h.returned

/-- what a move of caller `c` does when it stays inside its call: the phase does not change -/
structure SameCall (s : State) (c : Nat) (s' : State) : Prop where
  others : ∀ d, d ≠ c → s'.callers d = s.callers d
  call : (s'.callers c).call = (s.callers c).call
  busy : (s'.callers c).pc ≠ .idle
  phase : (s'.callers c).pc.undecided = (s.callers c).pc.undecided ∨ (s.callers c).call = none
  calls : s'.calls = s.calls
  accepted : s'.accepted = s.accepted
  returned : s'.returned = s.returned
  made : ∀ job, (s'.callers c).pc ≠ .mallocTask job
  node : ∀ a t, (s'.callers c).pc.task = some a → s'.heap a = some t →
    (s.callers c).call = some t.job.call

theorem CallsInv.hands (h : CallsInv s) (hother : ∀ d, d ≠ c → s'.callers d = s.callers d)
    (hf : HeapFrame s (.caller c) s')
    (hidle : (s'.callers c).pc = .idle → (s'.callers c).call = none)
    (hmade : ∀ job, (s'.callers c).pc = .mallocTask job → (s'.callers c).call = some job.call)
    (hnode : ∀ a t, (s'.callers c).pc.task = some a → s'.heap a = some t →
      (s'.callers c).call = some t.job.call) :
    (∀ d, (s'.callers d).pc = .idle → (s'.callers d).call = none) ∧
      (∀ d job, (s'.callers d).pc = .mallocTask job → (s'.callers d).call = some job.call) ∧
      ∀ d a t, (s'.callers d).pc.task = some a → s'.heap a = some t →
        (s'.callers d).call = some t.job.call := by
  refine ⟨fun d hd => ?_, fun d job hd => ?_, fun d a t hd ht => ?_⟩
  · by_cases e : d = c
    · subst e; exact hidle hd
    · rw [hother d e] at hd ⊢
      exact h.idle d hd
  · by_cases e : d = c
    · subst e; exact hmade job hd
    · rw [hother d e] at hd ⊢
      exact h.made d job hd
  · by_cases e : d = c
    · subst e; exact hnode a t hd ht
    · rw [hother d e] at hd ⊢
      rw [hf (.caller d) a (fun e' => e (Thread.caller.inj e')) hd] at ht
      exact h.node d a t hd ht

theorem CallsInv.inside (h : CallsInv s) (hc : SameCall s c s') (hf : HeapFrame s (.caller c) s') :
    CallsInv s' := by
  have hacc : s'.acceptedCalls = s.acceptedCalls := by rw [State.acceptedCalls, hc.accepted]; rfl
  have hcall : ∀ d, (s'.callers d).call = (s.callers d).call := by
    intro d
    by_cases e : d = c
    · subst e; exact hc.call
    · rw [hc.others d e]
  have hphase : ∀ d n, (s.callers d).call = some n →
      (s'.callers d).pc.undecided = (s.callers d).pc.undecided := by
    intro d n hn
    by_cases e : d = c
    · subst e
      rcases hc.phase with hp | hp
      · exact hp
      · rw [hp] at hn; cases hn
    · rw [hc.others d e]
  obtain ⟨hidle, hmade, hnode⟩ := h.hands hc.others hf (fun hd => absurd hd hc.busy)
    (fun job hd => absurd hd (hc.made job)) fun a t hd ht => hc.call.trans (hc.node a t hd ht)
  refine ⟨hidle, hmade, hnode, ?_, ?_, ?_, ?_, ?_, ?_, ?_⟩
  · intro d n hu hn
    rw [hcall] at hn
    rw [hphase d n hn] at hu
    rw [hacc]
    exact h.undecided d n hu hn
  · intro d n hu hn
    rw [hcall] at hn
    rw [hphase d n hn] at hu
    rw [hacc]
    exact h.decided d n hu hn
  · intro d n hn
    rw [hcall] at hn
    rw [hc.calls]
    exact h.bound d n hn
  · intro d e n hd he
    rw [hcall] at hd he
    exact h.uniq d e n hd he
  · rw [hacc, hc.calls]; exact h.acceptedBound
  · rw [hacc]; exact h.acceptedNodup
  · intro n rc hn
    rw [hc.returned] at hn
    obtain ⟨h1, h2, h3⟩ := h.returned n rc hn
    rw [hacc, hc.calls]
    exact ⟨h1, fun d => by rw [hcall]; exact h2 d, h3⟩

theorem CallsInv.onward (h : CallsInv s) {task : Ptr} {pc : CallerPc}
    (hpc : (s.callers c).pc.task = some task ∧ (s.callers c).pc.undecided = true)
    (hnext : pc.task = some task ∧ pc.undecided = true)
    (hcallers : s'.callers = Function.update s.callers c { s.callers c with pc := pc })
    (hhist : s'.calls = s.calls ∧ s'.accepted = s.accepted ∧ s'.returned = s.returned)
    (hheap : s'.heap = s.heap) (hf : HeapFrame s (.caller c) s') : CallsInv s' := by
  have hself : (s'.callers c).pc = pc := by rw [hcallers, Function.update_self]
  refine h.inside ⟨fun d e => by rw [hcallers, Function.update_of_ne e], ?_, fun e => ?_, .inl ?_,
    hhist.1, hhist.2.1, hhist.2.2, fun job e => ?_, fun a t ha ht => ?_⟩ hf
  · rw [hcallers, Function.update_self]
  · have htask := hnext.1
    rw [hself.symm.trans e] at htask
    cases htask
  · rw [hself, hnext.2, hpc.2]
  · have htask := hnext.1
    rw [hself.symm.trans e] at htask
    cases htask
  · rw [hself, hnext.1] at ha
    rw [hheap] at ht
    exact h.node c a t (hpc.1.trans ha) ht

theorem CallsInv.accept (h : CallsInv s) {t : Task} {a : Ptr}
    (hpc : (s.callers c).pc = .link a) (ht : s.heap a = some t)
    (hcallers : s'.callers = Function.update s.callers c { s.callers c with pc := .incQueueSize })
    (hhist : s'.calls = s.calls ∧ s'.accepted = s.accepted ++ [t.job] ∧ s'.returned = s.returned)
    (hf : HeapFrame s (.caller c) s') : CallsInv s' := by
  have hcall : (s.callers c).call = some t.job.call := h.node c a t (by rw [hpc]; rfl) ht
  have hnew : t.job.call ∉ s.acceptedCalls := h.undecided c _ (by rw [hpc]; rfl) hcall
  have hacc : s'.acceptedCalls = s.acceptedCalls ++ [t.job.call] := by
    rw [State.acceptedCalls, hhist.2.1, List.map_append]; rfl
  have hcalls : ∀ d, (s'.callers d).call = (s.callers d).call := by
    intro d
    rw [hcallers]
    by_cases e : d = c
    · subst e; simp
    · simp [e]
  have hother : ∀ d, d ≠ c → s'.callers d = s.callers d := by
    intro d e
    rw [hcallers, Function.update_of_ne e]
  have hself : (s'.callers c).pc = .incQueueSize := by rw [hcallers]; simp
  have hdiff : ∀ d n, d ≠ c → (s.callers d).call = some n → n ≠ t.job.call := by
    intro d n e hn e'
    exact e (h.uniq d c n hn (e' ▸ hcall))
  obtain ⟨hidle, hmade, hnode⟩ := h.hands hother hf (fun hd => by rw [hself] at hd; cases hd)
    (fun job hd => by rw [hself] at hd; cases hd) fun b m hd hm => by rw [hself] at hd; cases hd
  refine ⟨hidle, hmade, hnode, ?_, ?_, ?_, ?_, ?_, ?_, ?_⟩
  · intro d n hu hn
    rw [hcalls] at hn
    by_cases e : d = c
    · subst e; rw [hself] at hu; cases hu
    · rw [hother d e] at hu
      rw [hacc, List.mem_append, List.mem_singleton, not_or]
      exact ⟨h.undecided d n hu hn, hdiff d n e hn⟩
  · intro d n hu hn
    rw [hcalls] at hn
    rw [hacc, List.mem_append, List.mem_singleton]
    by_cases e : d = c
    · subst e
      rw [hcall, Option.some.injEq] at hn
      exact .inr hn.symm
    · rw [hother d e] at hu
      exact .inl (h.decided d n hu hn)
  · intro d n hn
    rw [hcalls] at hn
    rw [hhist.1]
    exact h.bound d n hn
  · intro d e n hd he
    rw [hcalls] at hd he
    exact h.uniq d e n hd he
  · intro n hn
    rw [hacc, List.mem_append, List.mem_singleton] at hn
    rw [hhist.1]
    rcases hn with hn | rfl
    · exact h.acceptedBound n hn
    · exact h.bound c _ hcall
  · rw [hacc, List.nodup_append]
    refine ⟨h.acceptedNodup, List.nodup_singleton _, ?_⟩
    intro x hx y hy hxy
    rw [List.mem_singleton] at hy
    exact hnew (hy ▸ hxy ▸ hx)
  · intro n rc hn
    rw [hhist.2.2] at hn
    obtain ⟨h1, h2, h3⟩ := h.returned n rc hn
    have hne : n ≠ t.job.call := fun e => h2 c (e ▸ hcall)
    rw [hhist.1, hacc]
    refine ⟨h1, fun d => by rw [hcalls]; exact h2 d, ?_⟩
    simpa [hne] using h3

theorem CallsInv.finish (h : CallsInv s) {rc : Int}
    (hrc : ((s.callers c).pc.undecided = true ∧ rc = -1) ∨
      ((s.callers c).pc.undecided = false ∧ rc = 0))
    (hs : s'.callers = (s.finishCall c rc).callers ∧ s'.returned = (s.finishCall c rc).returned ∧
      s'.calls = s.calls ∧ s'.accepted = s.accepted)
    (hf : HeapFrame s (.caller c) s') : CallsInv s' := by
  obtain ⟨hcallers, hret, hcount, hacc'⟩ := hs
  have hacc : s'.acceptedCalls = s.acceptedCalls := by rw [State.acceptedCalls, hacc']; rfl
  have hother : ∀ d, d ≠ c → s'.callers d = s.callers d := by
    intro d e
    simp [hcallers, e]
  have hself : s'.callers c = ⟨.idle, none⟩ := by simp [hcallers]
  have hcall : ∀ d n, (s'.callers d).call = some n → d ≠ c ∧ (s.callers d).call = some n := by
    intro d n hn
    by_cases e : d = c
    · subst e; rw [hself] at hn; cases hn
    · rw [hother d e] at hn
      exact ⟨e, hn⟩
  obtain ⟨hidle, hmade, hnode⟩ := h.hands hother hf (fun _ => by rw [hself])
    (fun job hd => by rw [hself] at hd; cases hd) fun b m hd hm => by rw [hself] at hd; cases hd
  refine ⟨hidle, hmade, hnode, ?_, ?_, ?_, ?_, ?_, ?_, ?_⟩
  · intro d n hu hn
    obtain ⟨e, hn⟩ := hcall d n hn
    rw [hother d e] at hu
    rw [hacc]
    exact h.undecided d n hu hn
  · intro d n hu hn
    obtain ⟨e, hn⟩ := hcall d n hn
    rw [hother d e] at hu
    rw [hacc]
    exact h.decided d n hu hn
  · intro d n hn
    rw [hcount]
    exact h.bound d n (hcall d n hn).2
  · intro d e n hd he
    exact h.uniq d e n (hcall d n hd).2 (hcall e n he).2
  · rw [hacc, hcount]; exact h.acceptedBound
  · rw [hacc]; exact h.acceptedNodup
  · intro n r hn
    rw [hret] at hn
    rw [hcount, hacc]
    have hold : (n, r) ∈ s.returned → n < s.calls ∧ (∀ d, (s'.callers d).call ≠ some n) ∧
        ((r = 0 ∧ n ∈ s.acceptedCalls) ∨ (r = -1 ∧ n ∉ s.acceptedCalls)) := by
      intro hn
      obtain ⟨h1, h2, h3⟩ := h.returned n r hn
      exact ⟨h1, fun d hd => h2 d (hcall d n hd).2, h3⟩
    cases hn' : (s.callers c).call with
    | none =>
      simp only [finishCall, hn'] at hn
      exact hold hn
    | some m =>
      simp only [finishCall, hn', List.mem_append, List.mem_singleton, Prod.mk.injEq] at hn
      rcases hn with hn | ⟨rfl, rfl⟩
      · exact hold hn
      · refine ⟨h.bound c n hn', fun d hd => ?_, ?_⟩
        · obtain ⟨e, hd⟩ := hcall d n hd
          exact e (h.uniq d c n hd hn')
        · rcases hrc with ⟨hu, rfl⟩ | ⟨hu, rfl⟩
          · exact .inr ⟨rfl, h.undecided c n hu hn'⟩
          · exact .inl ⟨rfl, h.decided c n hu hn'⟩

theorem CallsInv.begin (h : CallsInv s) {f argument : Ptr} (hidle : (s.callers c).pc = .idle)
    (hs : s' = { s with
      callers := Function.update s.callers c ⟨.mallocTask ⟨s.calls, f, argument⟩, some s.calls⟩
      calls := s.calls + 1 }) : CallsInv s' := by
  have hnone := h.idle c hidle
  have hfresh : s.calls ∉ s.acceptedCalls := fun hm => (h.acceptedBound _ hm).false
  have hother : ∀ d, d ≠ c → s'.callers d = s.callers d := by
    intro d e
    simp [hs, e]
  have hself : s'.callers c = ⟨.mallocTask ⟨s.calls, f, argument⟩, some s.calls⟩ := by simp [hs]
  have hcount : s'.calls = s.calls + 1 := by rw [hs]
  have hacc : s'.acceptedCalls = s.acceptedCalls := by rw [hs]; rfl
  have hret : s'.returned = s.returned := by rw [hs]
  have hheap : s'.heap = s.heap := by rw [hs]
  have hcall : ∀ d n, (s'.callers d).call = some n →
      (d = c ∧ n = s.calls) ∨ (d ≠ c ∧ (s.callers d).call = some n) := by
    intro d n hn
    by_cases e : d = c
    · subst e
      rw [hself, Option.some.injEq] at hn
      exact .inl ⟨rfl, hn.symm⟩
    · rw [hother d e] at hn
      exact .inr ⟨e, hn⟩
  obtain ⟨hidle', hmade, hnode⟩ := h.hands hother (fun _ _ _ _ => by rw [hheap])
    (fun hd => by rw [hself] at hd; cases hd)
    (fun job hd => by rw [hself] at hd ⊢; cases hd; rfl)
    fun b m hd hm => by rw [hself] at hd; cases hd
  refine ⟨hidle', hmade, hnode, ?_, ?_, ?_, ?_, ?_, ?_, ?_⟩
  · intro d n hu hn
    rw [hacc]
    rcases hcall d n hn with ⟨_, rfl⟩ | ⟨e, hn⟩
    · exact hfresh
    · rw [hother d e] at hu
      exact h.undecided d n hu hn
  · intro d n hu hn
    rw [hacc]
    rcases hcall d n hn with ⟨rfl, rfl⟩ | ⟨e, hn⟩
    · rw [hself] at hu; cases hu
    · rw [hother d e] at hu
      exact h.decided d n hu hn
  · intro d n hn
    rw [hcount]
    rcases hcall d n hn with ⟨_, rfl⟩ | ⟨_, hn⟩
    · omega
    · have := h.bound d n hn
      omega
  · intro d e n hd he
    rcases hcall d n hd with ⟨rfl, rfl⟩ | ⟨_, hd⟩ <;> rcases hcall e _ he with ⟨rfl, h'⟩ | ⟨_, he⟩
    · rfl
    · exact absurd (h.bound e _ he) (by omega)
    · exact absurd (h.bound d n hd) (by omega)
    · exact h.uniq d e n hd he
  · intro n hn
    rw [hacc] at hn
    have := h.acceptedBound n hn
    omega
  · rw [hacc]; exact h.acceptedNodup
  · intro n rc hn
    rw [hret] at hn
    obtain ⟨h1, h2, h3⟩ := h.returned n rc hn
    rw [hcount, hacc]
    refine ⟨by omega, fun d hd => ?_, h3⟩
    rcases hcall d n hd with ⟨_, rfl⟩ | ⟨_, hd⟩
    · omega
    · exact h2 d hd

theorem CallsInv.reject (h : CallsInv s)
    (hs : s' = { s with calls := s.calls + 1, returned := s.returned ++ [(s.calls, -1)] }) :
    CallsInv s' := by
  subst hs
  refine ⟨h.idle, h.made, h.node, h.undecided, h.decided, ?_, h.uniq, ?_, h.acceptedNodup, ?_⟩
  · intro d n hn
    exact (h.bound d n hn).trans (Nat.lt_succ_self _)
  · intro n hn
    exact (h.acceptedBound n hn).trans (Nat.lt_succ_self _)
  · intro n rc hn
    rw [List.mem_append, List.mem_singleton, Prod.mk.injEq] at hn
    rcases hn with hn | ⟨rfl, rfl⟩
    · obtain ⟨h1, h2, h3⟩ := h.returned n rc hn
      exact ⟨h1.trans (Nat.lt_succ_self _), h2, h3⟩
    · refine ⟨Nat.lt_succ_self _, fun d hd => (h.bound d _ hd).false, .inr ⟨rfl, fun hm => ?_⟩⟩
      exact (h.acceptedBound _ hm).false

theorem scaleBranch_not_early (fl : ℚ → ℚ) (p : ThreadPool) (now : Int) :
    (scaleBranch fl p now).undecided = false ∧ (scaleBranch fl p now).task = none ∧
      scaleBranch fl p now ≠ .idle ∧ ∀ job, scaleBranch fl p now ≠ .mallocTask job := by
  unfold scaleBranch
  split
  · simp [CallerPc.undecided, CallerPc.task]
  · split <;> simp [CallerPc.undecided, CallerPc.task]

theorem CallsInv.caller_step (h : CallsInv s) (hq : QueueInv s l) (hm : CallerMove fl s c s') :
    CallsInv s' := by
  have hf := hm.heapFrame hq
  cases hm with
  | addNull hpc ho => exact h.reject rfl
  | addTask f argument hpc ho => exact h.begin hpc rfl
  | mallocFails job hpc => exact h.finish (.inl ⟨by rw [hpc]; rfl, rfl⟩) ⟨rfl, rfl, rfl, rfl⟩ hf
  | freeReject task hpc => exact h.finish (.inl ⟨by rw [hpc]; rfl, rfl⟩) ⟨rfl, rfl, rfl, rfl⟩ hf
  | tooEarly now hpc ht => exact h.finish (.inr ⟨by rw [hpc]; rfl, rfl⟩) ⟨rfl, rfl, rfl, rfl⟩ hf
  | scaleUnlock hpc => exact h.finish (.inr ⟨by rw [hpc]; rfl, rfl⟩) ⟨rfl, rfl, rfl, rfl⟩ hf
  | linkFirst task t hpc ht hq => exact h.accept hpc ht rfl ⟨rfl, rfl, rfl⟩ hf
  | linkLast task tail t n hpc ht hq htail hn => exact h.accept hpc ht rfl ⟨rfl, rfl, rfl⟩ hf
  | autoScale hpc ho =>
    exact h.inside ⟨fun d e => by simp [e], by simp, by simp, .inr (h.idle c hpc), rfl, rfl, rfl,
      by simp, by simp [CallerPc.task]⟩ hf
  | malloc job p hpc hp =>
    refine h.inside ⟨fun d e => by simp [e], by simp, by simp, .inl ?_, rfl, rfl, rfl, by simp, ?_⟩
      hf
    · simp [hpc, CallerPc.undecided]
    · intro a t ha ht
      simp only [callerGoto, setHeap, Function.update_self, CallerPc.task, Option.some.injEq] at ha
      subst ha
      simp only [callerGoto, setHeap, Function.update_self, Option.some.injEq] at ht
      subst ht
      exact h.made c job hpc
  | scaleTest now hpc =>
    obtain ⟨h1, h2, h3, h4⟩ := scaleBranch_not_early fl s.pool now
    refine h.inside ⟨fun d e => by simp [e], by simp, ?_, .inl ?_, rfl, rfl, rfl, ?_, ?_⟩ hf
    · simpa using h3
    · simp [hpc, h1]; rfl
    · simpa using h4
    · simp [h2]
  | lockAdd task hpc hfree =>
    exact h.onward (by rw [hpc]; exact ⟨rfl, rfl⟩) ⟨rfl, rfl⟩ rfl ⟨rfl, rfl, rfl⟩ rfl hf
  | seeShutdown task hpc hs =>
    exact h.onward (by rw [hpc]; exact ⟨rfl, rfl⟩) ⟨rfl, rfl⟩ rfl ⟨rfl, rfl, rfl⟩ rfl hf
  | noShutdown task hpc hs =>
    exact h.onward (by rw [hpc]; exact ⟨rfl, rfl⟩) ⟨rfl, rfl⟩ rfl ⟨rfl, rfl, rfl⟩ rfl hf
  | unlockReject task hpc =>
    exact h.onward (by rw [hpc]; exact ⟨rfl, rfl⟩) ⟨rfl, rfl⟩ rfl ⟨rfl, rfl, rfl⟩ rfl hf
  | _ =>
    exact h.inside ⟨fun d e => by simp [e], by simp, by simp,
      .inl (by simp [CallerPc.undecided, *]), rfl, rfl, rfl, by simp,
      by simp [CallerPc.task]⟩ hf

theorem CallsInv.step (h : CallsInv s) (hq : QueueInv s l) (lb : Label)
    (hs : step fl lb s = some s') : CallsInv s' := by
  cases lb with
  | worker w a =>
    have hm := WorkerMove.of_step hs
    refine h.same ?_ ?_ fun d b hd => hm.heapFrame hq (.caller d) b (by simp) hd
    · cases hm <;> rfl
    · cases hm <;> exact ⟨rfl, rfl, rfl⟩
  | caller c a => exact h.caller_step hq (CallerMove.of_step hs)
  | main a =>
    have hm := MainMove.of_step hs
    refine h.same ?_ ?_ fun d b hd => hm.heapFrame hq (.caller d) b (by simp) hd
    · cases hm <;> rfl
    · cases hm <;> exact ⟨rfl, rfl, rfl⟩

theorem ReachableBy.calls {G : State → Label → Prop} {minThreads maxThreads initial : Nat}
    (h : ReachableBy fl G minThreads maxThreads initial s) : CallsInv s :=
  h.inv CallsInv (fun now _ _ => CallsInv.start _ _ _ now)
    fun _ l _ hr hI _ hs => by
      obtain ⟨k, hk⟩ := hr.queue
      exact hI.step hk l hs

end Pool
