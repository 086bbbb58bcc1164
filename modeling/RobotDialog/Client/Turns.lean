import RobotDialog.Client.Replies

/-!
# The robot client: what is spoken at a turn

The channel of a conversation carries payloads without a turn.

* `Answers`              a text is the payload of the reply to the request of a turn;
* `Timely`               the condition: a reply is handed over while the handler of its turn waits,
                         and the handler leaves none behind;
* `replies_correlated`   then the text spoken at a turn answers the request of that turn;
* `reply_shifted`        a late reply: turn 1 speaks the reply to turn 0.
-/

namespace Client
open Lts CString Wire

variable {s s' : State} {l : Label}

/-- a reply is handed to the channel only while the handler of the turn whose request it answers is
waiting, and the handler does not give up with a reply in the channel -/
def Timely (s : State) : Label → Prop
  | .listener c .run => ∀ r payload line, s.listener c = .deliver r payload →
      (s.conn r).request = some line → ∃ first, s.flow = .waiting line.turn first
  | .flow .timeout => ∀ t, s.flow = .waiting t false → s.channel = []
  | _ => True

/-- **The text is the reply to turn `k`**: the payload of the server's reply on the connection that
received the request of that turn. -/
def Answers (s : State) (k : Nat) (r : Reply) : Prop :=
  r.turn = k ∧ ∃ c line response, (s.conn c).request = some line ∧ line.turn = k ∧
    (s.conn c).reply = some response ∧ Carries response r.payload

/-- the reply to the request of turn `k` has left the listeners -/
def Delivered (s : State) (k : Nat) : Prop :=
  ∃ c line, (s.conn c).request = some line ∧ line.turn = k ∧ (s.conn c).taken = true ∧
    ∀ d, (s.listener d).holds ≠ some c

theorem Answers.grows (hg : Grows s s') {k : Nat} {r : Reply} (h : Answers s k r) :
    Answers s' k r := by
  obtain ⟨ht, c, line, response, h1, h2, h3, h4⟩ := h
  obtain ⟨g1, g2, -⟩ := hg c line h1
  exact ⟨ht, c, line, response, g1, h2, g2 response h3, h4⟩

theorem Delivered.move (hs : Sent s) (hm : Move s l s') {k : Nat} (h : Delivered s k) :
    Delivered s' k := by
  obtain ⟨c, line, h1, h2, h3, h4⟩ := h
  obtain ⟨g1, -, g3⟩ := hs.grows hm c line h1
  refine ⟨c, line, g1, h2, g3 h3, fun d hd => ?_⟩
  rcases hm.holds hd with hd | hd
  · exact h4 d hd
  · rw [h3] at hd
    cases hd

theorem Delivered.not_deliver (hs : Sent s) {c r : Nat} {payload : Bytes} {line : Line}
    (hpc : s.listener c = .deliver r payload) (hl : (s.conn r).request = some line) :
    ¬ Delivered s line.turn := by
  rintro ⟨d, line', h1, h2, -, h4⟩
  have hd : d = r := hs.unique d r line' line h1 hl h2
  subst hd
  exact h4 c (by rw [hpc]; rfl)

structure TurnInv (s : State) : Prop where
  listening : s.flow = .listening → s.channel = []
  waiting : ∀ k first, s.flow = .waiting k first →
    s.channel = [] ∨ ∃ r, s.channel = [r] ∧ Answers s k r ∧ Delivered s k
  speak : ∀ k text, s.flow = .speak k text →
    s.channel = [] ∧ ∀ r, text = some r → Answers s k r
  spoken : ∀ k r, (k, some r) ∈ s.spoken → Answers s k r

theorem TurnInv.start (testMode : Bool) : TurnInv (startState testMode) where
  listening _ := rfl
  waiting k first h := by cases h
  speak k text h := by cases h
  spoken k r h := by cases h

theorem TurnInv.frame (h : TurnInv s) (hs : Sent s) (hm : Move s l s') (hf : s'.flow = s.flow)
    (hc : s'.channel = s.channel) (hsp : s'.spoken = s.spoken) : TurnInv s' := by
  have hg := hs.grows hm
  refine ⟨?_, fun k first hk => ?_, fun k text hk => ?_, fun k r hk => ?_⟩
  · rw [hf, hc]; exact h.listening
  · rw [hf] at hk
    rw [hc]
    rcases h.waiting k first hk with e | ⟨r, e, ha, hd⟩
    · exact .inl e
    · exact .inr ⟨r, e, ha.grows hg, hd.move hs hm⟩
  · rw [hf] at hk
    rw [hc]
    obtain ⟨e, ha⟩ := h.speak k text hk
    exact ⟨e, fun r hr => (ha r hr).grows hg⟩
  · rw [hsp] at hk
    exact (h.spoken k r hk).grows hg

theorem TurnInv.empty (h : TurnInv s) (hg : Grows s s') (hc : s'.channel = [])
    (hsp : s'.spoken = s.spoken)
    (ht : ∀ k r, s'.flow = .speak k (some r) → Answers s' k r) : TurnInv s' where
  listening _ := hc
  waiting _ _ _ := .inl hc
  speak k text hk := by
    refine ⟨hc, fun r hr => ?_⟩
    subst hr
    exact ht k r hk
  spoken k r hk := by
    rw [hsp] at hk
    exact (h.spoken k r hk).grows hg

theorem afterTimeout_silent (t k : Nat) (first : Bool) (r : Reply) :
    afterTimeout t first ≠ .speak k (some r) := by
  cases first <;> simp [afterTimeout]

theorem TurnInv.deliver_move (h : TurnInv s) (hs : Sent s) (hh : Heard s) {c r : Nat}
    {payload : Bytes} {line : Line} (hpc : s.listener c = .deliver r payload)
    (hl : (s.conn r).request = some line) {first : Bool}
    (hw : s.flow = .waiting line.turn first) :
    TurnInv ({ s with channel := s.channel ++ [Reply.mk line.turn payload] }.listenerGoto c
      (.run finish)) := by
  have hholds : (s.listener c).holds = some r := by rw [hpc]; rfl
  obtain ⟨response, hreply, hcarries⟩ : ∃ response, (s.conn r).reply = some response ∧
      Carries response payload := by
    have hf := hh.fromReply c
    rw [hpc] at hf
    exact hf
  have hempty : s.channel = [] := by
    rcases h.waiting _ _ hw with e | ⟨q, -, -, hd⟩
    · exact e
    · exact absurd hd (Delivered.not_deliver hs hpc hl)
  refine ⟨fun hf => ?_, fun k f hf => .inr ⟨⟨line.turn, payload⟩, ?_, ?_, ?_⟩,
    fun k text hf => ?_, h.spoken⟩
  · cases hw.symm.trans hf
  · show s.channel ++ [_] = _
    rw [hempty]
    rfl
  · cases hw.symm.trans hf
    exact ⟨rfl, r, line, response, hl, rfl, hreply, hcarries⟩
  · cases hw.symm.trans hf
    refine ⟨r, line, hl, rfl, (hh.taken c r hholds).1, fun d hd => ?_⟩
    have hd : (Function.update s.listener c (.run finish) d).holds = some r := hd
    rcases Lts.update_cases (fun x : ListenerPc => x.holds = some r) hd with ⟨-, hnew⟩ | ⟨e, hold⟩
    · cases hnew
    · exact e (hh.alone d c r hold hholds)
  · cases hw.symm.trans hf

theorem TurnInv.move (h : TurnInv s) (hs : Sent s) (hh : Heard s) (hG : Timely s l)
    (hm : Move s l s') : TurnInv s' := by
  have hone : ∀ {t first r rest}, s.flow = .waiting t first → s.channel = r :: rest →
      rest = [] ∧ Answers s t r := by
    intro t first r rest hw hc
    rcases h.waiting t first hw with e | ⟨q, e, ha, -⟩ <;> rw [hc] at e <;> cases e
    exact ⟨rfl, ha⟩
  have hg := hs.grows hm
  have hmove := hm
  cases hm with
  | deliver c r payload line hpc hl =>
    obtain ⟨first, hw⟩ := hG r payload line hpc hl
    exact h.deliver_move hs hh hpc hl hw
  | enter hpc =>
    refine h.empty hg rfl rfl fun k r hk => ?_
    cases hpc.symm.trans hk
  | respond hpc => exact h.empty hg (h.listening hpc) rfl fun k r hk => by cases hk
  | receive t first r rest hpc hc =>
    obtain ⟨hrest, ha⟩ := hone hpc hc
    refine h.empty hg hrest rfl fun k q hk => ?_
    cases hk
    exact ha
  | timeout t first hpc =>
    cases first with
    | true =>
      refine ⟨fun hf => (by cases hf), fun k f hf => ?_, fun k text hf => (by cases hf), h.spoken⟩
      cases hf
      exact h.waiting t true hpc
    | false => exact h.empty hg (hG t hpc) rfl fun k r hk => by cases hk
  | lost t first r rest hpc hc =>
    exact h.empty hg (hone hpc hc).1 rfl fun k q hk => absurd hk (afterTimeout_silent t k first q)
  | say t text hpc =>
    obtain ⟨hc, ha⟩ := h.speak t text hpc
    refine ⟨fun _ => hc, fun k f hf => (by cases hf), fun k text hf => (by cases hf),
      fun k r hk => ?_⟩
    rcases List.mem_append.mp hk with hk | hk
    · exact h.spoken k r hk
    · rw [List.mem_singleton] at hk
      cases hk
      exact ha r rfl
  | _ => exact h.frame hs hmove rfl rfl rfl

theorem ReachableBy.turns {testMode : Bool} (h : ReachableBy Timely testMode s) :
    Sent s ∧ Heard s ∧ TurnInv s :=
  h.inv (fun s => Sent s ∧ Heard s ∧ TurnInv s)
    ⟨.start testMode, .start testMode, .start testMode⟩
    fun _ _ _ ⟨hs, hh, ht⟩ hG hm => ⟨hs.move hm, hh.move hs hm, ht.move hs hh hG hm⟩

/-- **Replies are correlated.**  In every run in which the replies are timely, every text that is
spoken at a turn is the reply to the request of that turn. -/
theorem replies_correlated (testMode : Bool) (s : State) (h : ReachableBy Timely testMode s)
    (k : Nat) (r : Reply) (hk : (k, some r) ∈ s.spoken) : Answers s k r :=
  h.turns.2.2.spoken k r hk

/-- the reply to turn `t` arrives during the second wait -/
def slowRun (t : Nat) : List Label :=
  askRun t t ++ [.flow .timeout] ++ answerRun t (ascii "3|Bene.") ++ speakRun ++
    List.replicate 9 (.listener t .run)

def timely (s : State) : Label → Bool
  | .listener c .run =>
    match s.listener c with
    | .deliver r _ =>
      (s.conn r).request.all fun line =>
        s.flow == .waiting line.turn true || s.flow == .waiting line.turn false
    | _ => true
  | .flow .timeout => s.channel.isEmpty
  | _ => true

theorem reach_of_timely {s₀ : State} (ls : List Label)
    (h : exec (guarded timely step) s₀ ls = some s) : Reach step Timely s₀ s := by
  refine Reach.of_guarded (fun _ => True) timely (fun s l _ hg => ?_)
    (fun _ _ _ _ _ _ => trivial) trivial ls h
  cases l with
  | listener c a =>
    cases a with
    | run =>
      intro r payload line hpc hl
      simp only [timely, hpc, hl, Option.all_some, Bool.or_eq_true, beq_iff_eq] at hg
      rcases hg with hg | hg
      · exact ⟨true, hg⟩
      · exact ⟨false, hg⟩
    | _ => trivial
  | flow a =>
    cases a with
    | timeout =>
      intro t _
      exact List.isEmpty_iff.mp hg
    | _ => trivial
  | _ => trivial

theorem replies_correlated_slow :
    ∃ s, ReachableBy Timely false s ∧
      Answers s 0 ⟨0, ascii "Ciao."⟩ ∧ Answers s 1 ⟨1, ascii "Bene."⟩ := by
  have hrun : (exec (guarded timely step) (startState false) (promptRun 0 ++ slowRun 1)).map
      State.spoken = some [(0, some ⟨0, ascii "Ciao."⟩), (1, some ⟨1, ascii "Bene."⟩)] := by
    decide +kernel
  obtain ⟨s, hs, hv⟩ := Option.map_eq_some_iff.mp hrun
  have hreach : ReachableBy Timely false s := reach_of_timely _ hs
  refine ⟨s, hreach, replies_correlated false s hreach 0 _ ?_,
    replies_correlated false s hreach 1 _ ?_⟩
  · rw [hv]; decide
  · rw [hv]; decide

/-- **A late reply.**  The reply to turn 0 arrives in the wait of turn 1, whose own request has no
reply yet, and is spoken there. -/
theorem reply_shifted :
    ∃ s, ReachableBy Any false s ∧ ∃ r, (1, some r) ∈ s.spoken ∧ r.turn = 0 ∧
      (s.conn 1).reply = none ∧ ¬ Answers s 1 r := by
  have hrun : (exec step (startState false) lateRun).map
      (fun s => (s.spoken, (s.conn 1).reply)) =
      some ([(0, none), (1, some ⟨0, ascii "Ciao."⟩)], none) := by decide +kernel
  obtain ⟨s, hs, hv⟩ := Option.map_eq_some_iff.mp hrun
  obtain ⟨h1, h2⟩ := Prod.mk.inj hv
  refine ⟨s, Reach.of_exec _ hs, ⟨0, ascii "Ciao."⟩, ?_, rfl, h2, fun ha => ?_⟩
  · rw [h1]; decide
  · exact absurd ha.1 (by decide)

end Client
