import RobotDialog.Client.Isolation

/-!
# The robot client: a connection opened too early

The converse of `listener_isolated`.

* `Ending`             in every run, what is left of a listener is the end of `finishError`;
* `Crossing`           a listener that has yet to close the socket of a later connection;
* `listener_crosses`   a connection is opened while a listener is active: when that listener has
                       finished, it has closed the socket of a later connection.
-/

namespace Client
open Lts CString Wire

variable {s s' : State} {l : Label}

theorem Move.run_cases (hm : Move s l s') {c : Nat} {ops : List Op}
    (h : s'.listener c = .run ops) : s.listener c = .run ops ∨ ops = disconnect ∨ ops = finish ∨
      ops = finishError ∨ ∃ op, s.listener c = .run (op :: ops) ∧
        ∀ part d, op = .close part → s.field part = some d → (c, part, d) ∈ s'.closes := by
  have hupd : ∀ {d : Nat} {pc : ListenerPc}, Function.update s.listener d pc c = .run ops →
      s.listener c = .run ops ∨ (c = d ∧ pc = .run ops) := by
    intro d pc hu
    rcases update_cases (· = ListenerPc.run ops) hu with hnew | ⟨-, hold⟩
    · exact .inr hnew
    · exact .inl hold
  cases hm with
  | startListening | check | read | line =>
    rcases hupd h with h | ⟨-, h⟩
    · exact .inl h
    · cases h
  | skip | noReader | ended | deliver =>
    rcases hupd h with h | ⟨-, h⟩
    · exact .inl h
    · cases h
      simp
  | handle d r response m p hpc hm =>
    rcases hupd h with h | ⟨-, h⟩
    · exact .inl h
    · unfold afterMessage at h
      split at h <;> cases h <;> simp
  | setDisconnected d xs hpc =>
    rcases hupd h with hold | ⟨rfl, hx⟩
    · exact .inl hold
    · cases hx
      exact .inr (.inr (.inr (.inr ⟨_, hpc, fun _ _ e => by cases e⟩)))
  | closeNothing d part xs hpc hf =>
    rcases hupd h with hold | ⟨rfl, hx⟩
    · exact .inl hold
    · cases hx
      refine .inr (.inr (.inr (.inr ⟨_, hpc, fun part' e hp he => ?_⟩)))
      cases hp
      rw [hf] at he
      cases he
  | close d e part xs hpc hf =>
    rcases hupd h with hold | ⟨rfl, hx⟩
    · exact .inl hold
    · cases hx
      refine .inr (.inr (.inr (.inr ⟨_, hpc, fun part' e' hp he => ?_⟩)))
      cases hp
      cases hf.symm.trans he
      exact List.mem_append_right _ List.mem_cons_self
  | _ => exact .inl h

/-- what is left of a listener is the end of `finishError` -/
def Ending (s : State) : Prop := ∀ c ops, s.listener c = .run ops → ops <:+ finishError

theorem Ending.start (testMode : Bool) : Ending (startState testMode) := by
  intro c ops h
  cases h

theorem Ending.move (h : Ending s) (hm : Move s l s') : Ending s' := by
  intro c ops hc
  rcases hm.run_cases hc with e | rfl | rfl | rfl | ⟨op, e, -⟩
  · exact h c ops e
  · decide
  · decide
  · exact List.suffix_refl _
  · exact (List.suffix_cons op ops).trans (h c _ e)

theorem ReachableBy.ending {G : State → Label → Prop} {testMode : Bool}
    (h : ReachableBy G testMode s) : Ending s :=
  h.inv Ending (.start testMode) fun _ _ _ hI _ hm => hI.move hm

theorem socket_mem_of_suffix {ops : List Op} (h : ops <:+ finishError) (hne : ops ≠ []) :
    .close .socket ∈ ops := by
  obtain ⟨xs, hx⟩ := h
  have hlast : ops.getLast hne = .close .socket := by
    have happ := List.getLast_append_of_ne_nil (List.append_ne_nil_of_right_ne_nil xs hne) hne
    rw [← happ]
    simp only [hx]
    rfl
  rw [← hlast]
  exact List.getLast_mem hne

theorem Move.socket_cases (hm : Move s l s') :
    (s'.socket = s.socket ∧ s'.opened = s.opened) ∨
      (s'.socket = some s.opened ∧ s'.opened = s.opened + 1) := by
  cases hm with
  | openSocket t hpc => exact .inr ⟨rfl, rfl⟩
  | _ => exact .inl ⟨rfl, rfl⟩

theorem Move.closes_subset (hm : Move s l s') {e : Nat × Part × Nat} (he : e ∈ s.closes) :
    e ∈ s'.closes := by
  cases hm with
  | close c d part ops hpc hf => exact List.mem_append_left _ he
  | _ => exact he

/-- listener `c` closed the socket of a later connection, or the field holds a later one and the
listener has yet to close it -/
def Crossing (c : Nat) (s : State) : Prop :=
  (∃ d, c < d ∧ (c, .socket, d) ∈ s.closes) ∨
    (c < s.opened ∧ (∃ d, c < d ∧ s.socket = some d) ∧
      ∀ ops, s.listener c = .run ops → .close .socket ∈ ops)

theorem Crossing.move {c : Nat} (h : Crossing c s) (hm : Move s l s') : Crossing c s' := by
  rcases h with ⟨d, hd, he⟩ | ⟨ho, ⟨d, hd, hsock⟩, hops⟩
  · exact .inl ⟨d, hd, hm.closes_subset he⟩
  · have hsock' : c < s'.opened ∧ ∃ d, c < d ∧ s'.socket = some d := by
      rcases hm.socket_cases with ⟨h1, h2⟩ | ⟨h1, h2⟩
      · rw [h1, h2]; exact ⟨ho, d, hd, hsock⟩
      · exact ⟨by omega, s.opened, ho, h1⟩
    by_cases hclosed : (c, .socket, d) ∈ s'.closes
    · exact .inl ⟨d, hd, hclosed⟩
    · refine .inr ⟨hsock'.1, hsock'.2, fun ops hc => ?_⟩
      rcases hm.run_cases hc with e | rfl | rfl | rfl | ⟨op, e, hclose⟩
      · exact hops ops e
      · exact (disconnect_closes .socket).1
      · exact (disconnect_closes .socket).2.1
      · exact (disconnect_closes .socket).2.2
      · rcases List.mem_cons.mp (hops _ e) with ho' | ho'
        · -- the listener closes what the field holds
          exact absurd (hclose .socket d ho'.symm hsock) hclosed
        · exact ho'

/-! ## the connections that have been opened -/

theorem Move.conn_cases (hm : Move s l s') {t d : Nat} (h : (s'.sender t).conn = some d) :
    (s.sender t).conn = some d ∨ (d = s.opened ∧ s'.opened = s.opened + 1) := by
  have hupd : ∀ {u : Nat} {pc : SenderPc}, (Function.update s.sender u pc t).conn = some d →
      (s.sender t).conn = some d ∨ (t = u ∧ pc.conn = some d) := by
    intro u pc hu
    rcases update_cases (fun x : SenderPc => x.conn = some d) hu with hnew | ⟨-, hold⟩
    · exact .inr hnew
    · exact .inl hold
  cases hm with
  | openSocket u hpc =>
    rcases hupd h with h | ⟨-, h⟩
    · exact .inl h
    · cases h
      exact .inr ⟨rfl, rfl⟩
  | openWriter u c e hpc hs =>
    rcases hupd h with hold | ⟨rfl, hc⟩
    · exact .inl hold
    · exact .inl (by rw [hpc]; exact hc)
  | openReader u c e hpc hs =>
    rcases hupd h with hold | ⟨rfl, hc⟩
    · exact .inl hold
    · exact .inl (by rw [hpc]; exact hc)
  | setConnected u c hpc =>
    rcases hupd h with hold | ⟨rfl, hc⟩
    · exact .inl hold
    · exact .inl (by rw [hpc]; exact hc)
  | senderEnds | startListening | connected | setPayload | print | respond =>
    rcases hupd h with h | ⟨-, h⟩
    · exact .inl h
    · cases h
  | _ => exact .inl h

theorem Move.started_cases (hm : Move s l s') {d : Nat} (h : s'.listener d ≠ .notStarted) :
    s.listener d ≠ .notStarted ∨ ∃ t, (s.sender t).conn = some d := by
  have hupd : ∀ {c : Nat} (pc : ListenerPc) {q : ListenerPc}, s.listener c = q →
      q ≠ .notStarted → Function.update s.listener c pc d ≠ .notStarted →
      s.listener d ≠ .notStarted := by
    intro c pc q hc hne hu
    rcases update_cases (· ≠ ListenerPc.notStarted) hu with ⟨rfl, -⟩ | ⟨-, hold⟩
    · rw [hc]
      exact hne
    · exact hold
  cases hm with
  | startListening t c hpc =>
    by_cases e : d = c
    · subst e
      exact .inr ⟨t, by rw [hpc]; rfl⟩
    · refine .inl fun hn => h ?_
      exact (Function.update_of_ne e _ _).trans hn
  | skip c hpc => exact .inl (hupd _ hpc (by simp) h)
  | check c hpc => exact .inl (hupd _ hpc (by simp) h)
  | noReader c hpc => exact .inl (hupd _ hpc (by simp) h)
  | read c r hpc hr => exact .inl (hupd _ hpc (by simp) h)
  | line c r response hpc hr ht => exact .inl (hupd _ hpc (by simp) h)
  | ended c r a hpc => exact .inl (hupd _ hpc (by simp) h)
  | deliver c r payload line hpc hl => exact .inl (hupd _ hpc (by simp) h)
  | handle c r response m p hpc hm => exact .inl (hupd _ hpc (by simp) h)
  | setDisconnected c ops hpc => exact .inl (hupd _ hpc (by simp) h)
  | closeNothing c part ops hpc hf => exact .inl (hupd _ hpc (by simp) h)
  | close c e part ops hpc hf => exact .inl (hupd _ hpc (by simp) h)
  | _ => exact .inl h

structure Begun (s : State) : Prop where
  conn : ∀ t d, (s.sender t).conn = some d → d < s.opened
  listener : ∀ d, s.listener d ≠ .notStarted → d < s.opened

theorem Begun.move (h : Begun s) (hm : Move s l s') : Begun s' := by
  have hle : s.opened ≤ s'.opened := by
    rcases hm.socket_cases with ⟨-, e⟩ | ⟨-, e⟩ <;> omega
  refine ⟨fun t d hd => ?_, fun d hd => ?_⟩
  · rcases hm.conn_cases hd with hd | ⟨hd, ho⟩
    · exact lt_of_lt_of_le (h.conn t d hd) hle
    · omega
  · rcases hm.started_cases hd with hd | ⟨t, hd⟩
    · exact lt_of_lt_of_le (h.listener d hd) hle
    · exact lt_of_lt_of_le (h.conn t d hd) hle

theorem ReachableBy.begun {G : State → Label → Prop} {testMode : Bool}
    (h : ReachableBy G testMode s) : Begun s := by
  refine h.inv Begun ⟨fun t d hd => ?_, fun d hd => ?_⟩ fun _ _ _ hI _ hm => hI.move hm
  · cases hd
  · exact absurd rfl hd

/-- **A connection opened too early.**  When a connection is opened while listener `c` is active, then
that listener, once it has finished, has closed the socket of a later connection. -/
theorem listener_crosses {G : State → Label → Prop} {testMode : Bool} {s₀ s₁ : State} {t c : Nat}
    (h : ReachableBy G testMode s₀) (hact : (s₀.listener c).active)
    (hpc : s₀.sender t = .openSocket) (hopen : step (.sender t .run) s₀ = some s₁)
    (hs : Reach step Any s₁ s) (hfin : (s.listener c).finished) :
    ∃ d, c < d ∧ (c, .socket, d) ∈ s.closes := by
  have hfirst : Crossing c s₁ := by
    have hlt := h.begun.listener c hact.1
    have hs₁ : s₁ = { s₀.setConn s₀.opened ⟨fun _ => false, none, none, false⟩ with
        socket := some s₀.opened
        opened := s₀.opened + 1 }.senderGoto t (.openWriter s₀.opened) := by
      simp only [step, senderStep, hpc, Option.some.injEq] at hopen
      exact hopen.symm
    subst hs₁
    refine .inr ⟨Nat.lt_succ_of_lt hlt, ⟨s₀.opened, hlt, rfl⟩, fun ops hops => ?_⟩
    refine socket_mem_of_suffix (h.ending c ops hops) ?_
    rintro rfl
    exact hact.2 hops
  have hall : Crossing c s :=
    hs.inv (Crossing c) hfirst fun _ _ _ _ hI _ hst => hI.move (.of_step hst)
  rcases hall with he | ⟨-, -, hops⟩
  · exact he
  · exact absurd (hops [] hfin) (by simp)

end Client
