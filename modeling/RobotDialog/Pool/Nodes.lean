import RobotDialog.Pool.Effects

/-!
# The thread pool: no task node is lost

A node that `thread_pool_add_task` has allocated and that nobody has freed is in the queue or belongs
to one thread, in every interleaving, with threads that are cancelled at any moment and with calls
that are rejected.

* `State.NodeAt`      who has a node;
* `NodeInv`           every node that is allocated is somewhere;
* `NodeInv.*_step`    every move keeps it;
* `nodes_accounted`   each node is in one place, and what is left when the pool is destroyed.
-/

set_option linter.unusedSimpArgs false

namespace Pool
open State Lts Heap

variable {fl : ℚ → ℚ} {s s' : State} {w c : Nat} {l : List (Ptr × Job)} {a : Ptr}

/-! ## where a node is -/

/-- who has node `a`: a thread, or the queue for `none` -/
def State.NodeAt (s : State) (a : Ptr) : Option Thread → Prop
  | none => ∃ l, Linked Task.job Task.next s.heap s.pool.queueHead l ∧ a ∈ addrs l
  | some t => s.task t = some a

def NodeInv (s : State) : Prop := ∀ a, s.heap a ≠ none → ∃ o, s.NodeAt a o

theorem NodeInv.start (minThreads maxThreads initial : Nat) (now : Int) :
    NodeInv (startState minThreads maxThreads initial now) := fun _ h => absurd rfl h

theorem NodeInv.same (h : NodeInv s) (hheap : s'.heap = s.heap)
    (hhead : s'.pool.queueHead = s.pool.queueHead) (htask : ∀ t, s'.task t = s.task t) :
    NodeInv s' := by
  intro a ha
  rw [hheap] at ha
  obtain ⟨o, ho⟩ := h a ha
  refine ⟨o, ?_⟩
  cases o with
  | none =>
    obtain ⟨l, hl, hmem⟩ := ho
    exact ⟨l, by rw [hheap, hhead]; exact hl, hmem⟩
  | some t => exact (htask t).trans ho

theorem NodeInv.free (h : NodeInv s) (hq : QueueInv s l) {t : Thread} (ht : s.task t = some a)
    (hheap : s'.heap = Function.update s.heap a none)
    (hhead : s'.pool.queueHead = s.pool.queueHead) (hf : TaskFrame s t s') : NodeInv s' := by
  intro b hb
  rw [hheap] at hb
  have hne : b ≠ a := by
    rintro rfl
    exact hb (Function.update_self ..)
  rw [Function.update_of_ne hne] at hb
  obtain ⟨o, ho⟩ := h b hb
  refine ⟨o, ?_⟩
  cases o with
  | none =>
    obtain ⟨l', hl', hmem⟩ := ho
    refine ⟨l', ?_, hmem⟩
    rw [hheap, hhead]
    obtain rfl := hl'.unique hq.linked
    exact hl'.frame (hq.owned t a ht).2 none
  | some u =>
    have hu : u ≠ t := by
      rintro rfl
      exact hne (Option.some.inj ((show s.task u = some b from ho).symm.trans ht))
    exact (hf u hu).trans ho

/-! ## the moves -/

theorem NodeInv.worker_step (h : NodeInv s) (hq : QueueInv s l) (hm : WorkerMove s w s') :
    NodeInv s' := by
  have heq := hm.task_eq
  have hframe := hm.taskFrame
  cases hm with
  | unlinkHead a n hpc hhead hn =>
    intro b hb
    obtain ⟨o, ho⟩ := h b hb
    cases o with
    | none =>
      obtain ⟨l', hl', hmem⟩ := ho
      rw [hhead] at hl'
      obtain ⟨m, rest, hm', rfl, hrest⟩ := hl'.uncons
      obtain rfl : n = m := Option.some.inj (hn.symm.trans hm')
      rw [addrs_cons, List.mem_cons] at hmem
      rcases hmem with rfl | hmem
      · exact ⟨some (.worker w), by simp [State.NodeAt, State.task, WorkerPc.task]⟩
      · exact ⟨none, rest, hrest, hmem⟩
    | some t =>
      have ht : t ≠ .worker w := by
        rintro rfl
        simp [State.NodeAt, State.task, hpc, WorkerPc.task] at ho
      exact ⟨some t, (hframe t ht).trans ho⟩
  | freeTask a hpc =>
    exact h.free hq (t := .worker w) (by simp [State.task, hpc, WorkerPc.task]) rfl rfl hframe
  | setcancelFails hpc =>
    refine h.same rfl rfl (heq ?_)
    rcases hpc with hpc | hpc <;> simp [hpc, WorkerPc.task]
  | cancelPass x hpc hd hx hb =>
    refine h.same rfl rfl (heq ?_)
    simp [hpc, WorkerPc.task, Function.update_of_ne hx.symm]
  | _ =>
    refine h.same rfl rfl (heq ?_)
    simp [WorkerPc.task, *]

theorem NodeInv.append (h : NodeInv s) (hq : QueueInv s l) {task : Ptr} {t : Task}
    (hlink : Linked Task.job Task.next s'.heap s'.pool.queueHead (l ++ [(task, t.job)]))
    (hown : s.task (.caller c) = some task)
    (hheap : ∀ b, s'.heap b ≠ none → s.heap b ≠ none)
    (hf : TaskFrame s (.caller c) s') : NodeInv s' := by
  intro b hb
  obtain ⟨o, ho⟩ := h b (hheap b hb)
  cases o with
  | none =>
    obtain ⟨l', hl', hmem⟩ := ho
    obtain rfl := hl'.unique hq.linked
    refine ⟨none, _, hlink, ?_⟩
    rw [addrs_append]
    exact List.mem_append_left _ hmem
  | some u =>
    by_cases hu : u = .caller c
    · -- the node has just been linked
      subst hu
      obtain rfl : task = b := Option.some.inj (hown.symm.trans ho)
      refine ⟨none, _, hlink, ?_⟩
      rw [addrs_append]
      exact List.mem_append_right _ (by simp)
    · exact ⟨some u, (hf u hu).trans ho⟩

theorem NodeInv.caller_step (h : NodeInv s) (hq : QueueInv s l) (hC : CreatedInv s)
    (hm : CallerMove fl s c s') : NodeInv s' := by
  have heq := hm.task_eq hC
  have hframe := hm.taskFrame hC
  cases hm with
  | malloc job p hpc hp =>
    intro b hb
    by_cases e : b = p
    · subst e
      exact ⟨some (.caller c), by simp [State.NodeAt, State.task, CallerPc.task]⟩
    · have hb' : s.heap b ≠ none := by
        simpa [setHeap, callerGoto, Function.update_of_ne e] using hb
      obtain ⟨o, ho⟩ := h b hb'
      refine ⟨o, ?_⟩
      cases o with
      | none =>
        obtain ⟨l', hl', hmem⟩ := ho
        exact ⟨l', hl'.frame (fun hm' => hl'.allocated p hm' hp) _, hmem⟩
      | some u =>
        have hu : u ≠ .caller c := by
          rintro rfl
          simp [State.NodeAt, State.task, hpc, CallerPc.task] at ho
        exact (hframe u hu).trans ho
  | freeReject task hpc =>
    exact h.free hq (t := .caller c) (by simp [State.task, hpc, CallerPc.task]) rfl rfl hframe
  | linkFirst task t hpc ht hhead =>
    have hl : l = [] := hq.linked.null_iff.mp hhead
    subst hl
    have hown : (s.callers c).pc.task = some task := by simp [hpc, CallerPc.task]
    exact h.append hq (t := t) ⟨rfl, t, ht, rfl, hq.fresh c task t hown ht⟩ hown (fun _ hb => hb)
      hframe
  | linkLast task tail t n hpc ht hhead htail hn =>
    have hown : (s.callers c).pc.task = some task := by simp [hpc, CallerPc.task]
    obtain ⟨-, hlink⟩ := hq.linkLast hown ht hown hhead htail hn
    refine h.append hq hlink hown (fun b hb => ?_) hframe
    by_cases e : b = tail
    · rw [e, hn]
      exact Option.some_ne_none n
    · simpa [setHeap, setPool, callerGoto, Function.update_of_ne e] using hb
  | scaleTest now hpc =>
    refine h.same rfl rfl (heq ?_)
    rw [hpc]
    simp only [callerGoto, Function.update_self]
    unfold scaleBranch
    split
    · rfl
    · split <;> rfl
  | _ =>
    refine h.same rfl rfl (heq ?_)
    simp [CallerPc.task, *]

theorem NodeInv.main_step (h : NodeInv s) (hq : QueueInv s l) (hC : CreatedInv s)
    (hm : MainMove s s') : NodeInv s' := by
  have heq := hm.task_eq hC
  cases hm with
  | drain task t hpc hhead ht =>
    intro b hb
    have hne : b ≠ task := by
      rintro rfl
      simp [setHeap, setPool] at hb
    have hb' : s.heap b ≠ none := by
      simpa [setHeap, setPool, Function.update_of_ne hne] using hb
    obtain ⟨o, ho⟩ := h b hb'
    cases o with
    | none =>
      obtain ⟨l', hl', hmem⟩ := ho
      obtain rfl := hl'.unique hq.linked
      rw [hhead] at hl'
      obtain ⟨m, rest, hm', rfl, hrest⟩ := hl'.uncons
      obtain rfl : t = m := Option.some.inj (ht.symm.trans hm')
      have hnd := (List.nodup_cons.mp hq.nodup).1
      rw [addrs_cons, List.mem_cons] at hmem
      exact ⟨none, rest, hrest.frame hnd none, hmem.resolve_left hne⟩
    | some u => exact ⟨some u, (heq u).trans ho⟩
  | _ => exact h.same rfl rfl heq

theorem ReachableBy.nodes {G : State → Label → Prop} {minThreads maxThreads initial : Nat}
    (h : ReachableBy fl G minThreads maxThreads initial s) : NodeInv s := by
  refine h.inv NodeInv (fun now _ _ => .start _ _ _ now) fun s lb s' hr hI _ hst => ?_
  obtain ⟨l, hq⟩ := hr.queue
  cases lb with
  | worker w a => exact hI.worker_step hq (.of_step hst)
  | caller c a => exact hI.caller_step hq hr.created (.of_step hst)
  | main a => exact hI.main_step hq hr.created (.of_step hst)

/-! ## every run -/

theorem QueueInv.nodeAt_unique (hq : QueueInv s l) {o o' : Option Thread} (h : s.NodeAt a o)
    (h' : s.NodeAt a o') : o = o' := by
  have hno : ∀ {t : Thread}, s.task t = some a → ¬ s.NodeAt a none := by
    rintro t ht ⟨l', hl', hmem⟩
    obtain rfl := hl'.unique hq.linked
    exact (hq.owned t a ht).2 hmem
  cases o with
  | none =>
    cases o' with
    | none => rfl
    | some u => exact absurd h (hno h')
  | some t =>
    cases o' with
    | none => exact absurd h' (hno h)
    | some u => rw [hq.excl t u a h h']

theorem WorkerPc.task_of_terminated {p : WorkerPc} (h : p.terminated = true) : p.task = none := by
  cases p <;> first | rfl | cases h

theorem ReachableBy.left_behind {minThreads maxThreads initial : Nat}
    (h : ReachableBy fl NoOverlap minThreads maxThreads initial s) (hmain : s.main = .destroyed)
    (ha : s.heap a ≠ none) :
    ∃ v, s.dropped v = true ∧ (s.workers v).pc.task = some a := by
  obtain ⟨o, ho⟩ := h.nodes a ha
  cases o with
  | none =>
    -- the queue has been emptied
    obtain ⟨l, hl, hmem⟩ := ho
    have hempty := h.emptied (by rw [hmain]; rfl)
    rw [hl.null_iff.mp hempty] at hmem
    cases hmem
  | some t =>
    cases t with
    | main => cases ho
    | caller c =>
      have hidle := h.joins.quiet (by rw [hmain]; rfl) c
      simp [State.NodeAt, State.task, hidle, CallerPc.task] at ho
    | worker v =>
      have htask : (s.workers v).pc.task = some a := ho
      refine ⟨v, ?_, htask⟩
      have hv : v < s.created := by
        by_contra hge
        rw [(h.created v).mpr (by omega)] at htask
        cases htask
      have hin : s.inSlot v = false := by
        by_contra hin
        rw [Bool.not_eq_false] at hin
        -- a worker in a slot has been joined
        obtain ⟨i, hi, hslot⟩ := inSlot_iff.mp hin
        have hj := h.joins.ended i (by rw [hmain]; exact hi) hi
        unfold joinable at hj
        rw [hslot] at hj
        rw [WorkerPc.task_of_terminated hj] at htask
        cases htask
      simp [dropped, hv, hin]

/-- **No task node is lost.**  In every state that any interleaving of the callers, the workers, the
cancellations and the main thread reaches, a node is allocated exactly if it is in the queue or
belongs to a thread, and it is in one such place only.  When `thread_pool_destroy` has been called last
and has returned, everything is freed but the nodes that workers dropped by a scale down still run. -/
theorem nodes_accounted (fl : ℚ → ℚ) (G : State → Label → Prop)
    (minThreads maxThreads initial : Nat) (s : State)
    (h : ReachableBy fl G minThreads maxThreads initial s) :
    (∀ a, s.heap a ≠ none ↔ ∃ o, s.NodeAt a o) ∧
    (∀ a o o', s.NodeAt a o → s.NodeAt a o' → o = o') ∧
    ((∀ s l, G s l → NoOverlap s l) → s.main = .destroyed → ∀ a, s.heap a ≠ none →
      ∃ v, s.dropped v = true ∧ (s.workers v).pc.task = some a) := by
  obtain ⟨l, hq⟩ := h.queue
  refine ⟨fun a => ⟨h.nodes a, ?_⟩, fun a o o' => hq.nodeAt_unique, fun hG hmain a ha => ?_⟩
  · rintro ⟨o, ho⟩
    cases o with
    | none =>
      obtain ⟨l', hl', hmem⟩ := ho
      exact hl'.allocated a hmem
    | some t => exact (hq.owned t a ho).1
  · exact (h.mono hG).left_behind hmain ha

/-- A worker that a scale down has dropped is still in its task when the pool is gone. -/
theorem nodes_accounted_dropRun :
    ∃ s, ReachableBy id NoOverlap 4 32 8 s ∧ s.main = .destroyed ∧ s.heap 1 ≠ none ∧
      s.heap 2 = none ∧ (∀ a, s.heap a ≠ none ↔ ∃ o, s.NodeAt a o) ∧
      (∀ a o o', s.NodeAt a o → s.NodeAt a o' → o = o') ∧
      ((∀ s l, NoOverlap s l → NoOverlap s l) → s.main = .destroyed → ∀ a, s.heap a ≠ none →
        ∃ v, s.dropped v = true ∧ (s.workers v).pc.task = some a) := by
  have hrun : (exec (guarded onlyCaller0 (step id)) (startState 4 32 8 0)
      (dropRun ++ destroyRun ++ [.main .run])).map (fun s =>
        (s.main, (s.heap 1).isSome, (s.heap 2).isSome)) = some (.destroyed, true, false) := by
    decide +kernel
  obtain ⟨s, hs, hv⟩ := Option.map_eq_some_iff.mp hrun
  simp only [Prod.mk.injEq] at hv
  have hreach : ReachableBy id NoOverlap 4 32 8 s :=
    ⟨0, true, true, true, _, rfl, reach_of_onlyCaller0 (fun _ _ => rfl) _ hs⟩
  exact ⟨s, hreach, hv.1, Option.isSome_iff_ne_none.mp hv.2.1,
    Option.isNone_iff_eq_none.mp (by simpa using hv.2.2),
    nodes_accounted id NoOverlap 4 32 8 s hreach⟩

end Pool
