import RobotDialog.Pool.Effects
import RobotDialog.Server.System

/-!
# The server: the moves

Inversion of the step function, and what the phases of the main thread say about the pool.

* `Move.of_step`          a step is a move;
* `PhaseInv`              the main thread is inside the pool only where its program point says so;
* `ReachableBy`           the states of the runs of a server;
* `ReachableBy.pool`      the pool of a server runs as a pool whose callers keep their promise.
-/

namespace Server
open Lts
open Pool (Ptr Job NoOverlap)

variable {fl : ℚ → ℚ} {s s' : State} {w : Nat}

/-! ## phases of the main thread -/

/-- the main thread is in its loop or about to destroy the pool, with no connection in its hands -/
def MainPc.idle : MainPc → Bool
  | .loopTest | .epollWait | .events _ | .accept _ | .stopRunning | .callDestroy => true
  | _ => false

/-- between `init_server` and `thread_pool_destroy` -/
def MainPc.serving : MainPc → Bool
  | .initPool | .initFailed | .inDestroy | .returned => false
  | _ => true

/-- in `thread_pool_add_task` -/
def MainPc.adding : MainPc → Bool
  | .inAddTask _ _ => true
  | _ => false

inductive Move (fl : ℚ → ℚ) (s : State) : State → Prop
  | signal : Move fl s { s with running := false }
  | create (a : Pool.MainAct) (p : Pool.State) (hpc : s.main = .initPool) (ha : a ≠ .destroy)
      (hp : Pool.mainStep s.pool a = some p) : Move fl s (s.setPool p)
  | start (hpc : s.main = .initPool) (hp : s.pool.main = .ready) :
      Move fl s ({ s with running := true }.goto .loopTest)
  | initFails (hpc : s.main = .initPool) : Move fl s (s.goto .initFailed)
  | turn (r : Bool) (pc : MainPc) (hpc : s.main.idle = true) (hpc' : pc.idle = true) :
      Move fl s ({ s with running := r }.goto pc)
  | accept (n : Nat) (hpc : s.main = .accept n) :
      Move fl s ({ s with accepted := s.accepted + 1 }.goto (.mallocPtr n s.accepted))
  | mallocFails (n k : Nat) (hpc : s.main = .mallocPtr n k) :
      Move fl s (s.goto (.closeNoMemory n k))
  | malloc (n k : Nat) (hpc : s.main = .mallocPtr n k) :
      Move fl s ({ s with
        block := Function.update s.block k (some k)
        allocated := s.allocated ++ [k] }.goto (.callAddTask n k))
  | closeNoMemory (n k : Nat) (hpc : s.main = .closeNoMemory n k) :
      Move fl s ((s.close k).goto (.events n))
  | callAddTask (n k : Nat) (p : Pool.State) (hpc : s.main = .callAddTask n k)
      (hp : Pool.callerStep fl s.pool 0 (.addTask (some handleClientTask) k) = some p) :
      Move fl s ((s.setPool p).goto (.inAddTask n k))
  | adding (n k : Nat) (a : Pool.CallerAct) (p : Pool.State) (hpc : s.main = .inAddTask n k)
      (hp : Pool.callerStep fl s.pool 0 a = some p) (hb : (p.callers 0).pc ≠ .idle) :
      Move fl s ((s.setPool p).goto (.inAddTask n k))
  | rejected (n k : Nat) (a : Pool.CallerAct) (p : Pool.State) (hpc : s.main = .inAddTask n k)
      (hp : Pool.callerStep fl s.pool 0 a = some p) (hi : (p.callers 0).pc = .idle)
      (hr : lastResult p < 0) : Move fl s ((s.setPool p).goto (.freePtr n k))
  | added (n k : Nat) (a : Pool.CallerAct) (p : Pool.State) (hpc : s.main = .inAddTask n k)
      (hp : Pool.callerStep fl s.pool 0 a = some p) (hi : (p.callers 0).pc = .idle)
      (hr : ¬ lastResult p < 0) : Move fl s ((s.setPool p).goto (.events n))
  | freePtr (n k : Nat) (hpc : s.main = .freePtr n k) :
      Move fl s ((s.free k).goto (.closeRejected n k))
  | closeRejected (n k : Nat) (hpc : s.main = .closeRejected n k) :
      Move fl s ((s.close k).goto (.events n))
  | callDestroy (p : Pool.State) (hpc : s.main = .callDestroy)
      (hp : Pool.mainStep s.pool .destroy = some p) : Move fl s ((s.setPool p).goto .inDestroy)
  | destroying (p : Pool.State) (hpc : s.main = .inDestroy)
      (hp : Pool.mainStep s.pool .run = some p) (hd : p.main ≠ .destroyed) :
      Move fl s ((s.setPool p).goto .inDestroy)
  | destroyed (p : Pool.State) (hpc : s.main = .inDestroy)
      (hp : Pool.mainStep s.pool .run = some p) (hd : p.main = .destroyed) :
      Move fl s ((s.setPool p).goto .returned)
  | worker (w : Nat) (a : Pool.WorkerAct) (p : Pool.State)
      (hpc : ∀ task start, (s.pool.workers w).pc ≠ .callFunction task start)
      (hp : Pool.workerStep s.pool w a = some p) : Move fl s (s.setPool p)
  | returns (w : Nat) (a : Pool.WorkerAct) (p : Pool.State) (task : Ptr) (start : Pool.Timespec)
      (fd : Nat) (hpc : (s.pool.workers w).pc = .callFunction task start)
      (hh : s.handler w = .actions fd []) (hp : Pool.workerStep s.pool w a = some p) :
      Move fl s ((s.setPool p).handlerGoto w .entry)
  | enter (w : Nat) (job : Job) (fd : Nat) (hc : calling s.pool w = some job)
      (hh : s.handler w = .entry) (hb : s.block job.argument = some fd) :
      Move fl s (s.handlerGoto w (.freeArg job.argument fd))
  | freeArg (w : Nat) (job : Job) (arg fd : Nat) (hc : calling s.pool w = some job)
      (hh : s.handler w = .freeArg arg fd) :
      Move fl s ((s.free arg).handlerGoto w (.process fd))
  | process (w : Nat) (job : Job) (fd : Nat) (c : Calls) (hc : calling s.pool w = some job)
      (hh : s.handler w = .process fd) :
      Move fl s (s.handlerGoto w (.actions fd (processSingleRequestAndClose c)))
  | send (w : Nat) (job : Job) (fd type : Nat) (data : CString.Bytes) (acts : List Action)
      (hc : calling s.pool w = some job) (hh : s.handler w = .actions fd (.send type data :: acts)) :
      Move fl s (s.handlerGoto w (.actions fd acts))
  | closeFd (w : Nat) (job : Job) (fd : Nat) (acts : List Action)
      (hc : calling s.pool w = some job) (hh : s.handler w = .actions fd (.close :: acts)) :
      Move fl s ((s.close fd).handlerGoto w (.actions fd acts))

theorem Move.of_mainStep {a : MainAct} (h : mainStep fl s a = some s') : Move fl s s' := by
  have hidle : ∀ {pc : MainPc}, s.main = pc → pc.idle = true → s.main.idle = true :=
    fun e h => e ▸ h
  unfold mainStep at h
  split at h
  case h_1 pa hpc =>
    obtain ⟨p, hp, h⟩ := Option.bind_eq_some_iff.mp h
    split at h <;> cases h
    exact .create pa p hpc ‹_› hp
  case h_2 hpc =>
    split at h
    · cases h; exact .start hpc ‹_›
    · split at h <;> cases h
      exact .initFails hpc
  case h_3 hpc => split at h <;> cases h <;> exact .turn s.running _ (hidle hpc rfl) rfl
  case h_4 n hpc => split at h <;> cases h; exact .turn s.running _ (hidle hpc rfl) rfl
  case h_5 hpc => cases h; exact .turn s.running _ (hidle hpc rfl) rfl
  case h_6 hpc => cases h; exact .turn s.running _ (hidle hpc rfl) rfl
  case h_7 hpc => cases h; exact .turn s.running _ (hidle hpc rfl) rfl
  case h_8 n hpc => cases h; exact .turn s.running _ (hidle hpc rfl) rfl
  case h_9 n hpc => cases h; exact .turn s.running _ (hidle hpc rfl) rfl
  case h_10 n hpc => cases h; exact .accept n hpc
  case h_11 n k hpc => cases h; exact .mallocFails n k hpc
  case h_12 n k hpc => cases h; exact .malloc n k hpc
  case h_13 n k hpc => cases h; exact .closeNoMemory n k hpc
  case h_14 n k hpc =>
    obtain ⟨p, hp, rfl⟩ := Option.map_eq_some_iff.mp h
    exact .callAddTask n k p hpc hp
  case h_15 n k pa hpc =>
    obtain ⟨p, hp, rfl⟩ := Option.map_eq_some_iff.mp h
    by_cases hb : (p.callers 0).pc = .idle
    · rw [if_neg (not_not.mpr hb)]
      split
      · exact .rejected n k pa p hpc hp hb ‹_›
      · exact .added n k pa p hpc hp hb ‹_›
    · rw [if_pos hb]
      exact .adding n k pa p hpc hp hb
  case h_16 n k hpc => cases h; exact .freePtr n k hpc
  case h_17 n k hpc => cases h; exact .closeRejected n k hpc
  case h_18 hpc => cases h; exact .turn false _ (hidle hpc rfl) rfl
  case h_19 hpc =>
    obtain ⟨p, hp, rfl⟩ := Option.map_eq_some_iff.mp h
    exact .callDestroy p hpc hp
  case h_20 hpc =>
    obtain ⟨p, hp, rfl⟩ := Option.map_eq_some_iff.mp h
    split
    · exact .destroyed p hpc hp ‹_›
    · exact .destroying p hpc hp ‹_›
  case h_21 => cases h

theorem Move.of_workerStep {a : Pool.WorkerAct} (h : workerStep s w a = some s') :
    Move fl s s' := by
  unfold workerStep at h
  split at h
  case h_1 task start hpc =>
    split at h
    · rename_i fd hh
      obtain ⟨p, hp, rfl⟩ := Option.map_eq_some_iff.mp h
      exact .returns w a p task start fd hpc hh hp
    · cases h
  case h_2 hpc =>
    obtain ⟨p, hp, rfl⟩ := Option.map_eq_some_iff.mp h
    exact .worker w a p hpc hp

theorem Move.of_handlerStep {a : HandlerAct} (h : handlerStep s w a = some s') : Move fl s s' := by
  unfold handlerStep at h
  split at h
  case h_1 => cases h
  case h_2 job hc =>
    split at h
    case h_1 hh =>
      obtain ⟨fd, hb, rfl⟩ := Option.map_eq_some_iff.mp h
      exact .enter w job fd hc hh hb
    case h_2 arg fd hh => cases h; exact .freeArg w job arg fd hc hh
    case h_3 fd c hh => cases h; exact .process w job fd c hc hh
    case h_4 fd type data acts hh => cases h; exact .send w job fd type data acts hc hh
    case h_5 fd acts hh => cases h; exact .closeFd w job fd acts hc hh
    case h_6 => cases h

/-- **A step is a move.** -/
theorem Move.of_step {l : Label} (h : step fl l s = some s') : Move fl s s' := by
  cases l with
  | signal => cases h; exact .signal
  | main a => exact .of_mainStep h
  | worker w a => exact .of_workerStep h
  | handler w a => exact .of_handlerStep h

/-! ## the pool of the server -/

/-- what the program point of the main thread says about the pool -/
structure PhaseInv (s : State) : Prop where
  others : ∀ c, c ≠ 0 → (s.pool.callers c).pc = .idle
  outside : s.main.adding = false → (s.pool.callers 0).pc = .idle
  inside : s.main.adding = true →
    (s.pool.callers 0).pc ≠ .idle ∧ ∃ n, (s.pool.callers 0).call = some n
  ready : s.main.serving = true → s.pool.main = .ready

theorem MainPc.idle_spec {pc : MainPc} (h : pc.idle = true) :
    pc.serving = true ∧ pc.adding = false := by
  cases pc <;> first | exact ⟨rfl, rfl⟩ | cases h

theorem PhaseInv.callers_idle (h : PhaseInv s) (ha : s.main.adding = false) (c : Nat) :
    (s.pool.callers c).pc = .idle := by
  by_cases hc : c = 0
  · subst hc
    exact h.outside ha
  · exact h.others c hc

/-- **The pool makes at most one step, and its callers keep their promise.** -/
theorem Move.pool (h : PhaseInv s) (hm : Move fl s s') :
    s'.pool = s.pool ∨ ∃ l, NoOverlap s.pool l ∧ Pool.step fl l s.pool = some s'.pool := by
  cases hm with
  | create a p hpc ha hp =>
    refine .inr ⟨.main a, ?_, hp⟩
    cases a with
    | destroy => exact absurd rfl ha
    | _ => trivial
  | callAddTask n k p hpc hp =>
    exact .inr ⟨.caller 0 (.addTask (some handleClientTask) k), h.ready (by rw [hpc]; rfl), hp⟩
  | adding n k a p hpc hp hb =>
    have hr := h.ready (by rw [hpc]; rfl)
    exact .inr ⟨.caller 0 a, by cases a <;> first | exact hr | trivial, hp⟩
  | rejected n k a p hpc hp hi hr' =>
    have hr := h.ready (by rw [hpc]; rfl)
    exact .inr ⟨.caller 0 a, by cases a <;> first | exact hr | trivial, hp⟩
  | added n k a p hpc hp hi hr' =>
    have hr := h.ready (by rw [hpc]; rfl)
    exact .inr ⟨.caller 0 a, by cases a <;> first | exact hr | trivial, hp⟩
  | callDestroy p hpc hp =>
    exact .inr ⟨.main .destroy, h.callers_idle (by rw [hpc]; rfl), hp⟩
  | destroying p hpc hp hd => exact .inr ⟨.main .run, trivial, hp⟩
  | destroyed p hpc hp hd => exact .inr ⟨.main .run, trivial, hp⟩
  | worker w a p hpc hp => exact .inr ⟨.worker w a, trivial, hp⟩
  | returns w a p task start fd hpc hh hp => exact .inr ⟨.worker w a, trivial, hp⟩
  | _ => exact .inl rfl

theorem PhaseInv.start (p : Pool.State) (hp : ∀ c, (p.callers c).pc = .idle) :
    PhaseInv (startState p) where
  others c _ := hp c
  outside _ := hp 0
  inside h := by cases h
  ready h := by cases h

theorem PhaseInv.same (h : PhaseInv s) (hc : s'.pool.callers = s.pool.callers)
    (ha : s'.main.adding = s.main.adding)
    (hr : s'.main.serving = true → s'.pool.main = .ready) : PhaseInv s' := by
  refine ⟨?_, ?_, ?_, hr⟩
  · rw [hc]; exact h.others
  · rw [hc, ha]; exact h.outside
  · rw [hc, ha]; exact h.inside

theorem PhaseInv.call (h : PhaseInv s) {p : Pool.State} (ha : s.main.adding = true)
    (hm : Pool.CallerMove fl s.pool 0 p) {pc : MainPc} (hs : s.main.serving = true)
    (hpc : pc.adding = true ↔ (p.callers 0).pc ≠ .idle) : PhaseInv ((s.setPool p).goto pc) := by
  refine ⟨fun c hc => ?_, fun hn => ?_, fun hn => ?_, fun _ => ?_⟩
  · show (p.callers c).pc = .idle
    rw [hm.callers_of_ne hc]
    exact h.others c hc
  · by_contra hb
    have hn : pc.adding = false := hn
    rw [hpc.mpr hb] at hn
    cases hn
  · have hb : (p.callers 0).pc ≠ .idle := hpc.mp hn
    obtain ⟨hidle, n, hcall⟩ := h.inside ha
    refine ⟨hb, n, ?_⟩
    cases hm.verdict hidle with
    | continues _ _ _ hc => rw [← hcall]; exact hc
    | accepts a t _ _ _ _ hc => rw [← hcall]; exact hc
    | returns rc _ hi _ _ => exact absurd hi hb
  · show p.main = .ready
    rw [hm.main_eq]
    exact h.ready hs

theorem PhaseInv.move (h : PhaseInv s) (hm : Move fl s s') : PhaseInv s' := by
  have hready := h.ready
  cases hm with
  | signal => exact h.same rfl rfl hready
  | create a p hpc ha hp =>
    exact h.same (Pool.MainMove.of_step hp).callers_eq rfl fun hs => by
      simp [hpc, MainPc.serving] at hs
  | start hpc hp => exact h.same rfl (by rw [hpc]; rfl) fun _ => hp
  | initFails hpc => exact h.same rfl (by rw [hpc]; rfl) fun hs => by cases hs
  | turn r pc hpc hpc' =>
    obtain ⟨hs, ha⟩ := MainPc.idle_spec hpc
    obtain ⟨hs', ha'⟩ := MainPc.idle_spec hpc'
    exact h.same rfl (ha'.trans ha.symm) fun _ => hready hs
  | callAddTask n k p hpc hp =>
    have hr : s.pool.main = .ready := hready (by rw [hpc]; rfl)
    have hi : (s.pool.callers 0).pc = .idle := h.outside (by rw [hpc]; rfl)
    rw [Pool.callerStep_addTask hi (by rw [hr]; rfl), Option.some.injEq] at hp
    subst hp
    refine ⟨fun c hc => ?_, fun ha => (by cases ha), fun _ => ?_, fun _ => hr⟩
    · show (Function.update s.pool.callers 0 _ c).pc = .idle
      rw [Function.update_of_ne hc]
      exact h.others c hc
    · exact ⟨by simp, s.pool.calls, by simp⟩
  | adding n k a p hpc hp hb =>
    exact h.call (by rw [hpc]; rfl) (.of_step hp) (by rw [hpc]; rfl) ⟨fun _ => hb, fun _ => rfl⟩
  | rejected n k a p hpc hp hi hr =>
    exact h.call (by rw [hpc]; rfl) (.of_step hp) (by rw [hpc]; rfl)
      ⟨fun ha => (by cases ha), fun hb => absurd hi hb⟩
  | added n k a p hpc hp hi hr =>
    exact h.call (by rw [hpc]; rfl) (.of_step hp) (by rw [hpc]; rfl)
      ⟨fun ha => (by cases ha), fun hb => absurd hi hb⟩
  | callDestroy p hpc hp =>
    exact h.same (Pool.MainMove.of_step hp).callers_eq (by rw [hpc]; rfl) fun hs => by cases hs
  | destroying p hpc hp hd =>
    exact h.same (Pool.MainMove.of_step hp).callers_eq (by rw [hpc]; rfl) fun hs => by cases hs
  | destroyed p hpc hp hd =>
    exact h.same (Pool.MainMove.of_step hp).callers_eq (by rw [hpc]; rfl) fun hs => by cases hs
  | worker w a p hpc hp =>
    have hm := Pool.WorkerMove.of_step hp
    exact h.same hm.callers_eq rfl fun hs => hm.main_eq.trans (hready hs)
  | returns w a p task start fd hpc hh hp =>
    have hm := Pool.WorkerMove.of_step hp
    exact h.same hm.callers_eq rfl fun hs => hm.main_eq.trans (hready hs)
  | enter w job fd hc hh hb => exact h.same rfl rfl hready
  | freeArg w job arg fd hc hh => exact h.same rfl rfl hready
  | process w job fd c hc hh => exact h.same rfl rfl hready
  | send w job fd type data acts hc hh => exact h.same rfl rfl hready
  | closeFd w job fd acts hc hh => exact h.same rfl rfl hready
  | accept n hpc => exact h.same rfl (by rw [hpc]; rfl) fun _ => hready (by rw [hpc]; rfl)
  | mallocFails n k hpc => exact h.same rfl (by rw [hpc]; rfl) fun _ => hready (by rw [hpc]; rfl)
  | malloc n k hpc => exact h.same rfl (by rw [hpc]; rfl) fun _ => hready (by rw [hpc]; rfl)
  | closeNoMemory n k hpc => exact h.same rfl (by rw [hpc]; rfl) fun _ => hready (by rw [hpc]; rfl)
  | freePtr n k hpc => exact h.same rfl (by rw [hpc]; rfl) fun _ => hready (by rw [hpc]; rfl)
  | closeRejected n k hpc => exact h.same rfl (by rw [hpc]; rfl) fun _ => hready (by rw [hpc]; rfl)

/-! ## the reachable states -/

/-- the states of the runs of a server from the thread loop of its pool's creation on -/
def Reachable (fl : ℚ → ℚ) (minThreads maxThreads initial : Nat) (s : State) : Prop :=
  ∃ now mallocOk mutexOk condOk p₀,
    Pool.threadPoolCreateWithLimits minThreads maxThreads initial now mallocOk mutexOk condOk =
      some p₀ ∧ Reach (step fl) Any (startState p₀) s

section
variable {minThreads maxThreads initial : Nat}

/-- **The invariant rule for servers.** -/
theorem Reachable.inv (I : State → Prop)
    (h0 : ∀ now, I (startState (Pool.startState minThreads maxThreads initial now)))
    (hmove : ∀ s s', Reachable fl minThreads maxThreads initial s → I s → Move fl s s' → I s')
    (h : Reachable fl minThreads maxThreads initial s) : I s := by
  obtain ⟨now, b₁, b₂, b₃, p₀, hc, hr⟩ := h
  obtain ⟨-, -, rfl⟩ := Pool.create_eq hc
  exact hr.inv I (h0 now) fun s l s' hs hI _ hst =>
    hmove s s' ⟨now, b₁, b₂, b₃, _, hc, hs⟩ hI (.of_step hst)

theorem Reachable.phase (h : Reachable fl minThreads maxThreads initial s) : PhaseInv s :=
  h.inv PhaseInv (fun _ => .start _ fun _ => rfl) fun _ _ _ hI hm => hI.move hm

/-- **The pool of a server runs as a pool whose callers keep their promise.** -/
theorem Reachable.pool (h : Reachable fl minThreads maxThreads initial s) :
    Pool.ReachableBy fl NoOverlap minThreads maxThreads initial s.pool := by
  obtain ⟨now, b₁, b₂, b₃, p₀, hc, hr⟩ := h
  have hsim : ∃ p, Reach (Pool.step fl) NoOverlap p₀ p ∧ p = s.pool := by
    refine hr.simulate (R := fun s p => p = s.pool) rfl fun s l s' p hs hp hst => ?_
    subst hp
    have hphase : PhaseInv s := Reachable.phase ⟨now, b₁, b₂, b₃, p₀, hc, hs⟩
    rcases (Move.of_step hst).pool hphase with he | ⟨pl, hG, hp⟩
    · exact .inl he.symm
    · exact .inr ⟨pl, _, hG, hp, rfl⟩
  obtain ⟨p, hp, rfl⟩ := hsim
  exact ⟨now, b₁, b₂, b₃, p₀, hc, hp⟩

end
end Server
