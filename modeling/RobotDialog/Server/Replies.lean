import RobotDialog.Server.Custody

/-!
# Every connection gets the reply to its own request

The log of what is done on the descriptors in a run of the server, in any interleaving: the request
of a connection decides what one worker does on its descriptor, and nobody else touches it.

* `Did`, `emitted`   an action on a descriptor, and who did it;
* `onFd`             what has been done on one descriptor;
* `Own`              the calls of a handler return what the input of its own connection gives;
* `Effect.of_step`   what a step does to the log, to the handlers and to the closed descriptors;
* `ReplyInv.step`    what the log says about a descriptor, after one more step;
* `ReachableLog`     the runs with their logs;
* `replies_own`      in every run, on every descriptor.
-/

namespace Server
open Lts Family CString Wire

variable {fl : ℚ → ℚ} {s s' : State}

/-! ## the log -/

/-- an action on a descriptor; `worker` is `none` for the main thread -/
structure Did where
  fd : Nat
  worker : Option Nat
  act : Action
  deriving DecidableEq, Repr

/-- what the next statement does on a descriptor -/
def emitted (s : State) : Label → List Did
  | .main _ =>
    match s.main with
    | .closeNoMemory _ k | .closeRejected _ k => [⟨k, none, .close⟩]
    | _ => []
  | .handler w _ =>
    match s.handler w with
    | .actions fd (act :: _) => [⟨fd, some w, act⟩]
    | _ => []
  | _ => []

def onFd (log : List Did) (k : Nat) : List Did := log.filter (·.fd == k)

theorem onFd_append (log log' : List Did) (k : Nat) :
    onFd (log ++ log') k = onFd log k ++ onFd log' k := List.filter_append _ _

theorem onFd_self (d : Did) : onFd [d] d.fd = [d] := by
  unfold onFd
  rw [List.filter_cons_of_pos (by simp)]
  rfl

theorem onFd_other {d : Did} {k : Nat} (h : d.fd ≠ k) : onFd [d] k = [] := by
  unfold onFd
  rw [List.filter_cons_of_neg (by simpa using h)]
  rfl

/-- the worker `w` has done `acts` on the descriptor `fd` -/
def doneBy (w fd : Nat) (acts : List Action) : List Did := acts.map fun act => ⟨fd, some w, act⟩

/-- the calls of a handler return what the input of its connection gives -/
def Own (input : Nat → Calls) (s : State) (l : Label) : Prop :=
  ∀ w c fd, l = .handler w (.calls c) → s.handler w = .process fd → c = input fd

/-! ## a step -/

/-- What a step does to the log, to the handlers and to the closed descriptors. -/
inductive Effect (s : State) (l : Label) (s' : State) : Prop
  | quiet (hlog : emitted s l = []) (hclosed : s'.closed = s.closed)
      (hhandler : ∀ w fd acts, s'.handler w = .actions fd acts → s.handler w = .actions fd acts ∨
        ∃ c, l = .handler w (.calls c) ∧ s.handler w = .process fd ∧
          acts = processSingleRequestAndClose c)
      (hkept : ∀ w fd acts, s.handler w = .actions fd acts → acts = [] ∨
        s'.handler w = .actions fd acts)
  | main (k : Nat) (hlog : emitted s l = [⟨k, none, .close⟩]) (hfd : s.mainFd = some k)
      (hclosed : s'.closed = s.closed ++ [k]) (hhandler : s'.handler = s.handler)
  | handler (w fd : Nat) (act : Action) (acts : List Action)
      (hpc : s.handler w = .actions fd (act :: acts)) (hlog : emitted s l = [⟨fd, some w, act⟩])
      (hclosed : s'.closed = if act = .close then s.closed ++ [fd] else s.closed)
      (hhandler : s'.handler = Function.update s.handler w (.actions fd acts))

theorem Effect.same {l : Label} (hlog : emitted s l = []) (hclosed : s'.closed = s.closed)
    (hhandler : s'.handler = s.handler) : Effect s l s' :=
  .quiet hlog hclosed (fun _ _ _ h => .inl (hhandler ▸ h)) fun _ _ _ h => .inr (hhandler ▸ h)

theorem Effect.of_main {a : MainAct} (hst : mainStep fl s a = some s') : Effect s (.main a) s' := by
  -- a step without a close, at a program point where none is due
  have hquiet : ∀ {pc : MainPc} {t : State}, s.main = pc → (∀ n k, pc ≠ .closeNoMemory n k) →
      (∀ n k, pc ≠ .closeRejected n k) → t.closed = s.closed → t.handler = s.handler →
      Effect s (.main a) t := by
    intro pc t hpc hno hno' hclosed hhandler
    refine .same ?_ hclosed hhandler
    unfold emitted
    rw [hpc]
    cases pc with
    | closeNoMemory n k => exact absurd rfl (hno n k)
    | closeRejected n k => exact absurd rfl (hno' n k)
    | _ => rfl
  unfold mainStep at hst
  split at hst
  case h_1 pa hpc =>
    obtain ⟨p, hp, hst⟩ := Option.bind_eq_some_iff.mp hst
    split at hst <;> cases hst
    exact hquiet hpc (by simp) (by simp) rfl rfl
  case h_2 hpc =>
    split at hst
    · cases hst; exact hquiet hpc (by simp) (by simp) rfl rfl
    · split at hst <;> cases hst
      exact hquiet hpc (by simp) (by simp) rfl rfl
  case h_3 hpc => split at hst <;> cases hst <;> exact hquiet hpc (by simp) (by simp) rfl rfl
  case h_4 n hpc => split at hst <;> cases hst; exact hquiet hpc (by simp) (by simp) rfl rfl
  case h_13 n k hpc =>
    cases hst
    exact .main k (by unfold emitted; rw [hpc]) (by unfold State.mainFd; rw [hpc]) rfl rfl
  case h_14 n k hpc =>
    obtain ⟨p, hp, rfl⟩ := Option.map_eq_some_iff.mp hst
    exact hquiet hpc (by simp) (by simp) rfl rfl
  case h_15 n k pa hpc =>
    obtain ⟨p, hp, rfl⟩ := Option.map_eq_some_iff.mp hst
    exact hquiet hpc (by simp) (by simp) rfl rfl
  case h_17 n k hpc =>
    cases hst
    exact .main k (by unfold emitted; rw [hpc]) (by unfold State.mainFd; rw [hpc]) rfl rfl
  case h_19 hpc =>
    obtain ⟨p, hp, rfl⟩ := Option.map_eq_some_iff.mp hst
    exact hquiet hpc (by simp) (by simp) rfl rfl
  case h_20 hpc =>
    obtain ⟨p, hp, rfl⟩ := Option.map_eq_some_iff.mp hst
    exact hquiet hpc (by simp) (by simp) rfl rfl
  case h_21 => cases hst
  all_goals
    rename_i hpc
    cases hst
    exact hquiet hpc (by simp) (by simp) rfl rfl

theorem Effect.of_worker {w : Nat} {a : Pool.WorkerAct} (hst : workerStep s w a = some s') :
    Effect s (.worker w a) s' := by
  unfold workerStep at hst
  split at hst
  · split at hst
    · -- the handler returns: nothing was left to do
      rename_i fd hh
      obtain ⟨p, hp, rfl⟩ := Option.map_eq_some_iff.mp hst
      refine .quiet rfl rfl (fun v fd' acts h => ?_) fun v fd' acts h => ?_
      · rcases update_cases (· = HandlerPc.actions fd' acts) h with ⟨-, hnew⟩ | ⟨-, hold⟩
        · cases hnew
        · exact .inl hold
      · by_cases e : v = w
        · subst e
          rw [hh] at h
          cases h
          exact .inl rfl
        · refine .inr ?_
          show Function.update s.handler w .entry v = _
          rw [Function.update_of_ne e, h]
    · cases hst
  · obtain ⟨p, hp, rfl⟩ := Option.map_eq_some_iff.mp hst
    exact .same rfl rfl rfl

theorem Effect.of_handler {w : Nat} {a : HandlerAct} (hst : handlerStep s w a = some s') :
    Effect s (.handler w a) s' := by
  -- a step to a program point before the actions
  have hquiet : ∀ {pc : HandlerPc} {t : State}, (∀ fd acts, s.handler w ≠ .actions fd acts) →
      (∀ fd acts, pc = .actions fd acts → ∃ c, Label.handler w a = .handler w (.calls c) ∧
        s.handler w = .process fd ∧ acts = processSingleRequestAndClose c) →
      t.closed = s.closed → t.handler = Function.update s.handler w pc →
      Effect s (.handler w a) t := by
    intro pc t hbefore hnew hclosed hhandler
    refine .quiet ?_ hclosed (fun v fd acts h => ?_) fun v fd acts h => ?_
    · simp only [emitted]
      split
      · rename_i fd act acts e
        exact absurd e (hbefore fd (act :: acts))
      · rfl
    · rw [hhandler] at h
      rcases update_cases (· = HandlerPc.actions fd acts) h with ⟨rfl, hpc⟩ | ⟨-, hold⟩
      · exact .inr (hnew fd acts hpc)
      · exact .inl hold
    · refine .inr ?_
      have hne : v ≠ w := by
        rintro rfl
        exact hbefore fd acts h
      rw [hhandler, Function.update_of_ne hne, h]
  unfold handlerStep at hst
  split at hst
  · cases hst
  · split at hst
    case h_1 hh =>
      obtain ⟨fd, hb, rfl⟩ := Option.map_eq_some_iff.mp hst
      exact hquiet (by rw [hh]; simp) (fun _ _ e => by cases e) rfl rfl
    case h_2 arg fd hh =>
      cases hst
      exact hquiet (by rw [hh]; simp) (fun _ _ e => by cases e) rfl rfl
    case h_3 fd c hh =>
      cases hst
      refine hquiet (by rw [hh]; simp) (fun _ _ e => ?_) rfl rfl
      cases e
      exact ⟨c, rfl, hh, rfl⟩
    case h_4 fd type data acts hh =>
      cases hst
      exact .handler w fd (.send type data) acts hh (by simp only [emitted, hh]) rfl rfl
    case h_5 fd acts hh =>
      cases hst
      exact .handler w fd .close acts hh (by simp only [emitted, hh]) rfl rfl
    case h_6 => cases hst

theorem Effect.of_step {l : Label} (hst : step fl l s = some s') : Effect s l s' := by
  cases l with
  | signal =>
    cases hst
    exact .same rfl rfl rfl
  | main a => exact .of_main hst
  | worker w a => exact .of_worker hst
  | handler w a => exact .of_handler hst

/-! ## what the log says -/

/-- What has been done on the descriptors, by the log of a run. -/
structure ReplyInv (input : Nat → Calls) (s : State) (log : List Did) : Prop where
  doing : ∀ w fd acts, s.handler w = .actions fd acts → ∃ did, onFd log fd = doneBy w fd did ∧
    did ++ acts = processSingleRequestAndClose (input fd)
  finished : ∀ w fd, s.handler w = .actions fd [] → fd ∈ s.closed
  fresh : ∀ k, k ∉ s.closed → (∀ w acts, s.handler w ≠ .actions k acts) → onFd log k = []
  closed : ∀ k ∈ s.closed, (∃ w, onFd log k =
      doneBy w k (processSingleRequestAndClose (input k))) ∨ onFd log k = [⟨k, none, .close⟩]

theorem ReplyInv.start (input : Nat → Calls) (p : Pool.State) :
    ReplyInv input (startState p) [] where
  doing _ _ _ h := by cases h
  finished _ _ h := by cases h
  fresh _ _ _ := rfl
  closed _ h := by cases h

variable {minThreads maxThreads initial : Nat}

/-- Nobody has begun to act on a descriptor that is still somewhere else. -/
theorem ReplyInv.untouched {input : Nat → Calls} {log : List Did}
    (hs : Reachable fl minThreads maxThreads initial s) (h : ReplyInv input s log) {p : Place}
    {k : Nat} (hp : s.FdAt p k) (hret : p ≠ .returned)
    (hno : ∀ w acts, p = .member w → s.handler w ≠ .actions k acts) :
    k ∉ s.closed ∧ (∀ w acts, s.handler w ≠ .actions k acts) ∧ onFd log k = [] := by
  have hlt := Multiset.mem_range.mp (hs.fds.issued_of_holds hp)
  have hclosed : k ∉ s.closed := fun hc =>
    hret ((hs.fd_place hlt).unique hp (show s.FdAt .returned k from hc))
  have hhandler : ∀ w acts, s.handler w ≠ .actions k acts := by
    intro w acts hw
    cases acts with
    | nil => exact hclosed (h.finished w k hw)
    | cons act acts =>
      have hat : s.FdAt (.member w) k :=
        hs.descriptor_at (l := .handler w .run) (by simp only [Label.descriptor, hw])
      exact hno w _ ((hs.fd_place hlt).unique hp hat) hw
  exact ⟨hclosed, hhandler, h.fresh k hclosed hhandler⟩

theorem doneBy_snoc (w fd : Nat) (did : List Action) (act : Action) :
    doneBy w fd (did ++ [act]) = doneBy w fd did ++ [⟨fd, some w, act⟩] := List.map_append

theorem ReplyInv.quiet {input : Nat → Calls} {log : List Did}
    (hs : Reachable fl minThreads maxThreads initial s) (h : ReplyInv input s log) {l : Label}
    (hown : Own input s l) (hclosed : s'.closed = s.closed)
    (hhandler : ∀ w fd acts, s'.handler w = .actions fd acts → s.handler w = .actions fd acts ∨
      ∃ c, l = .handler w (.calls c) ∧ s.handler w = .process fd ∧
        acts = processSingleRequestAndClose c)
    (hkept : ∀ w fd acts, s.handler w = .actions fd acts → acts = [] ∨
      s'.handler w = .actions fd acts) : ReplyInv input s' log where
  doing w fd acts hw := by
    rcases hhandler w fd acts hw with hold | ⟨c, hl, hpc, rfl⟩
    · exact h.doing w fd acts hold
    · -- the handler has just called everything: nobody has touched its descriptor
      have hat : s.FdAt (.member w) fd :=
        hs.descriptor_at (l := .handler w .run) (by simp only [Label.descriptor, hpc])
      obtain ⟨-, -, hlog⟩ := h.untouched hs hat Place.noConfusion fun v acts hv e => by
        cases hv
        rw [hpc] at e
        cases e
      exact ⟨[], hlog, by rw [List.nil_append, hown w c fd hl hpc]⟩
  finished w fd hw := by
    rw [hclosed]
    rcases hhandler w fd [] hw with hold | ⟨c, hl, hpc, hnil⟩
    · exact h.finished w fd hold
    · exact absurd hnil.symm (handler_closes_last c).ne_nil
  fresh k hk hno := by
    rw [hclosed] at hk
    refine h.fresh k hk fun w acts hw => ?_
    rcases hkept w k acts hw with rfl | hnew
    · exact hk (h.finished w k hw)
    · exact hno w acts hnew
  closed := hclosed ▸ h.closed

/-- The main thread closes a descriptor that it could not hand on. -/
theorem ReplyInv.main {input : Nat → Calls} {log : List Did}
    (hs : Reachable fl minThreads maxThreads initial s) (h : ReplyInv input s log) {k : Nat}
    (hfd : s.mainFd = some k) (hclosed : s'.closed = s.closed ++ [k])
    (hhandler : s'.handler = s.handler) : ReplyInv input s' (log ++ [⟨k, none, .close⟩]) := by
  obtain ⟨hk, hno, hlog⟩ := h.untouched hs (show s.FdAt .owner k from hfd) Place.noConfusion
    fun w acts e => by cases e
  have hother : ∀ j, j ≠ k → onFd (log ++ [⟨k, none, .close⟩]) j = onFd log j := by
    intro j hj
    rw [onFd_append, onFd_other (Ne.symm hj), List.append_nil]
  refine ⟨fun w fd acts hw => ?_, fun w fd hw => ?_, fun j hj hno' => ?_, fun j hj => ?_⟩
  · rw [hhandler] at hw
    rw [hother fd fun e => hno w acts (e ▸ hw)]
    exact h.doing w fd acts hw
  · rw [hhandler] at hw
    rw [hclosed]
    exact List.mem_append_left _ (h.finished w fd hw)
  · rw [hclosed, List.mem_append, not_or] at hj
    rw [hhandler] at hno'
    rw [hother j fun e => hj.2 (List.mem_singleton.mpr e)]
    exact h.fresh j hj.1 hno'
  · rw [hclosed, List.mem_append] at hj
    by_cases e : j = k
    · subst e
      right
      rw [onFd_append, hlog]
      exact onFd_self _
    · rw [hother j e]
      exact h.closed j (hj.resolve_right fun hmem => e (List.mem_singleton.mp hmem))

theorem ReplyInv.handler {input : Nat → Calls} {log : List Did}
    (hs : Reachable fl minThreads maxThreads initial s) (h : ReplyInv input s log) {w fd : Nat}
    {act : Action} {acts : List Action} (hpc : s.handler w = .actions fd (act :: acts))
    (hclosed : s'.closed = if act = .close then s.closed ++ [fd] else s.closed)
    (hhandler : s'.handler = Function.update s.handler w (.actions fd acts)) :
    ReplyInv input s' (log ++ [⟨fd, some w, act⟩]) := by
  have hat : s.FdAt (.member w) fd :=
    hs.descriptor_at (l := .handler w .run) (by simp only [Label.descriptor, hpc])
  have hlt := Multiset.mem_range.mp (hs.fds.issued_of_holds hat)
  have hopen : fd ∉ s.closed := fun hc =>
    Place.noConfusion ((hs.fd_place hlt).unique hat (show s.FdAt .returned fd from hc))
  -- no other handler is at this descriptor
  have halone : ∀ v acts', s.handler v = .actions fd acts' → v = w := by
    intro v acts' hv
    cases acts' with
    | nil => exact absurd (h.finished v fd hv) hopen
    | cons act' acts' =>
      have hat' : s.FdAt (.member v) fd :=
        hs.descriptor_at (l := .handler v .run) (by simp only [Label.descriptor, hv])
      exact Place.member.inj ((hs.fd_place hlt).unique hat' hat)
  have hlast : ClosesLast (act :: acts) :=
    (hs.handlers.last w fd _ hpc).resolve_left (List.cons_ne_nil _ _)
  obtain ⟨did, hlog, hdid⟩ := h.doing w fd _ hpc
  have hlog' : onFd (log ++ [⟨fd, some w, act⟩]) fd = doneBy w fd (did ++ [act]) := by
    rw [onFd_append, hlog, doneBy_snoc, onFd_self ⟨fd, some w, act⟩]
  have hdid' : did ++ [act] ++ acts = processSingleRequestAndClose (input fd) := by
    rw [List.append_assoc, List.singleton_append, hdid]
  have hother : ∀ j, j ≠ fd → onFd (log ++ [⟨fd, some w, act⟩]) j = onFd log j := by
    intro j hj
    rw [onFd_append, onFd_other (Ne.symm hj), List.append_nil]
  have hmem : ∀ j, j ∈ s'.closed ↔ j ∈ s.closed ∨ act = .close ∧ j = fd := by
    intro j
    rw [hclosed]
    split
    · rename_i e
      rw [List.mem_append, List.mem_singleton, and_iff_right e]
    · rename_i e
      rw [or_iff_left fun he => e he.1]
  refine ⟨fun v j acts' hv => ?_, fun v j hv => ?_, fun j hj hno => ?_, fun j hj => ?_⟩
  · rw [hhandler] at hv
    rcases update_cases (· = HandlerPc.actions j acts') hv with ⟨rfl, hnew⟩ | ⟨hne, hold⟩
    · cases hnew
      exact ⟨_, hlog', hdid'⟩
    · rw [hother j fun e => hne (halone v acts' (e ▸ hold))]
      exact h.doing v j acts' hold
  · rw [hhandler] at hv
    rw [hmem]
    rcases update_cases (· = HandlerPc.actions j []) hv with ⟨rfl, hnew⟩ | ⟨hne, hold⟩
    · cases hnew
      right
      refine ⟨?_, rfl⟩
      by_contra hact
      exact (hlast.tail.2 hact).ne_nil rfl
    · exact .inl (h.finished v j hold)
  · rw [hmem, not_or] at hj
    have hne : j ≠ fd := by
      rintro rfl
      refine hno w acts ?_
      rw [hhandler, Function.update_self]
    rw [hother j hne]
    refine h.fresh j hj.1 fun v acts' hv => ?_
    by_cases e : v = w
    · subst e
      rw [hpc] at hv
      cases hv
      exact hne rfl
    · exact hno v acts' (by rw [hhandler, Function.update_of_ne e, hv])
  · rcases (hmem j).mp hj with hj | ⟨hact, rfl⟩
    · rw [hother j fun e => hopen (e ▸ hj)]
      exact h.closed j hj
    · left
      refine ⟨w, ?_⟩
      rw [hlog', ← hdid', hlast.tail.1 hact, List.append_nil]

theorem ReplyInv.step {input : Nat → Calls} {log : List Did}
    (hs : Reachable fl minThreads maxThreads initial s) (h : ReplyInv input s log) {l : Label}
    (hown : Own input s l) (hst : Server.step fl l s = some s') :
    ReplyInv input s' (log ++ emitted s l) := by
  cases Effect.of_step hst with
  | quiet hlog hclosed hhandler hkept =>
    rw [hlog, List.append_nil]
    exact h.quiet hs hown hclosed hhandler hkept
  | main k hlog hfd hclosed hhandler =>
    rw [hlog]
    exact h.main hs hfd hclosed hhandler
  | handler w fd act acts hpc hlog hclosed hhandler =>
    rw [hlog]
    exact h.handler hs hpc hclosed hhandler

/-! ## every run -/

/-- the states and the logs of the runs of a server whose connection `k` gets `input k` -/
def ReachableLog (fl : ℚ → ℚ) (minThreads maxThreads initial : Nat) (input : Nat → Calls)
    (p : State × List Did) : Prop :=
  ∃ now mallocOk mutexOk condOk p₀,
    Pool.threadPoolCreateWithLimits minThreads maxThreads initial now mallocOk mutexOk condOk =
      some p₀ ∧ Reach (logged (step fl) emitted) (fun p => Own input p.1) (startState p₀, []) p

theorem ReachableLog.reachable {input : Nat → Calls} {p : State × List Did}
    (h : ReachableLog fl minThreads maxThreads initial input p) :
    Reachable fl minThreads maxThreads initial p.1 := by
  obtain ⟨now, b₁, b₂, b₃, p₀, hc, hr⟩ := h
  exact ⟨now, b₁, b₂, b₃, p₀, hc, hr.of_logged.mono fun _ _ _ => trivial⟩

theorem ReachableLog.inv {input : Nat → Calls} {p : State × List Did}
    (h : ReachableLog fl minThreads maxThreads initial input p) : ReplyInv input p.1 p.2 := by
  obtain ⟨now, b₁, b₂, b₃, p₀, hc, hr⟩ := h
  refine hr.inv (fun p => ReplyInv input p.1 p.2) (.start input p₀) fun q l q' hq hI hown hst => ?_
  obtain ⟨s', hs', rfl⟩ := Option.map_eq_some_iff.mp hst
  exact hI.step (ReachableLog.reachable ⟨now, b₁, b₂, b₃, p₀, hc, hq⟩) hown hs'

/-- **Every connection gets the reply to its own request.**  Whatever the interleaving of the main
thread, the workers and the handlers: what has been done on a descriptor is a beginning of what the
handler does on the input of this very connection, by one worker and in order, the whole of it exactly
if the descriptor is closed; or it is one `close` of the main thread. -/
theorem replies_own (fl : ℚ → ℚ) (minThreads maxThreads initial : Nat) (input : Nat → Calls)
    (p : State × List Did) (h : ReachableLog fl minThreads maxThreads initial input p) (k : Nat) :
    (∃ w did rest, onFd p.2 k = doneBy w k did ∧
      did ++ rest = processSingleRequestAndClose (input k) ∧ (k ∈ p.1.closed ↔ rest = [])) ∨
    (k ∈ p.1.closed ∧ onFd p.2 k = [⟨k, none, .close⟩]) := by
  have hI := h.inv
  by_cases hk : k ∈ p.1.closed
  · rcases hI.closed k hk with ⟨w, hdone⟩ | hmain
    · exact .inl ⟨w, _, [], hdone, List.append_nil _, iff_of_true hk rfl⟩
    · exact .inr ⟨hk, hmain⟩
  · left
    by_cases hat : ∃ w acts, p.1.handler w = .actions k acts
    · obtain ⟨w, acts, hw⟩ := hat
      obtain ⟨did, hlog, hdid⟩ := hI.doing w k acts hw
      refine ⟨w, did, acts, hlog, hdid, iff_of_false hk fun hnil => ?_⟩
      exact hk (hI.finished w k (hnil ▸ hw))
    · -- the connection is not being served yet
      refine ⟨0, [], _, hI.fresh k hk fun w acts hw => hat ⟨w, acts, hw⟩, List.nil_append _,
        iff_of_false hk (handler_closes_last _).ne_nil⟩

theorem replies_own_serveRun :
    ∃ p, ReachableLog id 4 32 8 (fun _ => testCalls) p ∧ p.1.closed = [0] ∧
      p.2 = [⟨0, some 0, .send msgTestDialogResponse (ascii "Vai a zappare.")⟩,
        ⟨0, some 0, .close⟩] ∧
      ((∃ w did rest, onFd p.2 0 = doneBy w 0 did ∧
        did ++ rest = processSingleRequestAndClose testCalls ∧ (0 ∈ p.1.closed ↔ rest = [])) ∨
      (0 ∈ p.1.closed ∧ onFd p.2 0 = [⟨0, none, .close⟩])) := by
  have hrun : (exec (logged (step id) emitted) (startState (Pool.startState 4 32 8 0), [])
      (acceptRun ++ serveRun)).map (fun p => (p.1.closed, p.2)) =
      some ([0], [⟨0, some 0, .send msgTestDialogResponse (ascii "Vai a zappare.")⟩,
        ⟨0, some 0, .close⟩]) := by decide +kernel
  obtain ⟨p, hp, hv⟩ := Option.map_eq_some_iff.mp hrun
  simp only [Prod.mk.injEq] at hv
  have hown : ∀ (q : State × List Did) l, l ∈ acceptRun ++ serveRun →
      Own (fun _ => testCalls) q.1 l := by
    intro q l hl w c fd e _
    subst e
    have hmem : ∀ m ∈ acceptRun ++ serveRun, ∀ v d, m = .handler v (.calls d) → d = testCalls := by
      unfold acceptRun serveRun
      simp
    exact hmem _ hl w c rfl
  have hreach : ReachableLog id 4 32 8 (fun _ => testCalls) p :=
    ⟨0, true, true, true, _, rfl, Reach.of_exec_from _ .start hown hp⟩
  exact ⟨p, hreach, hv.1, hv.2, replies_own id 4 32 8 _ p hreach 0⟩

end Server
