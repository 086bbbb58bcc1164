import RobotDialog.Client.Turns

/-!
# The robot client: no reply is spoken twice

The turns and the replies of every run, whatever the delays.

* `State.replies`   what has been spoken, is about to be spoken or waits in the channel;
* `OnceInv`         each of them answers a request of its own;
* `OnceInv.move`    every move keeps it: one is handed over, or some are dropped;
* `spoken_once`     a turn says one thing, and no reply is said twice.
-/

namespace Client
open Lts CString Wire

variable {s s' : State} {l : Label}

/-- the turn whose handler runs -/
def FlowPc.turn : FlowPc → Option Nat
  | .listening => none
  | .waiting t _ | .speak t _ => some t

/-- the reply that the handler is about to speak -/
def FlowPc.text : FlowPc → Option Reply
  | .speak _ text => text
  | _ => none

/-- the replies that have left the listeners and have not been dropped, the oldest first -/
def State.replies (s : State) : List Reply :=
  s.spoken.filterMap Prod.snd ++ s.flow.text.toList ++ s.channel

@[simp] theorem afterTimeout_turn (t : Nat) (first : Bool) :
    (afterTimeout t first).turn = some t := by
  cases first <;> rfl

@[simp] theorem afterTimeout_text (t : Nat) (first : Bool) : (afterTimeout t first).text = none := by
  cases first <;> rfl

theorem Answers.begun (h : Sent s) {k : Nat} {r : Reply} (ha : Answers s k r) : k < s.turns := by
  obtain ⟨-, c, line, -, hl, rfl, -⟩ := ha
  by_contra hge
  have hdone := h.printed c line hl
  rw [h.later _ (by omega)] at hdone
  cases hdone

/-! ## the invariant -/

structure OnceInv (s : State) : Prop where
  /-- the turns come to their end one behind the other -/
  order : s.spoken.map Prod.fst ++ s.flow.turn.toList = List.range s.turns
  nodup : (s.replies.map Reply.turn).Nodup
  answers : ∀ r ∈ s.replies, Answers s r.turn r ∧ Delivered s r.turn
  past : ∀ k r, (k, some r) ∈ s.spoken → r.turn ≤ k

theorem OnceInv.start (testMode : Bool) : OnceInv (startState testMode) where
  order := rfl
  nodup := List.nodup_nil
  answers r h := by cases h
  past k r h := by cases h

theorem OnceInv.keep (h : OnceInv s) (hs : Sent s) (hm : Move s l s')
    (ho : s'.spoken.map Prod.fst ++ s'.flow.turn.toList = List.range s'.turns)
    (hr : s'.replies.Sublist s.replies)
    (hp : ∀ k r, (k, some r) ∈ s'.spoken → r.turn ≤ k) : OnceInv s' where
  order := ho
  nodup := h.nodup.sublist (hr.map _)
  answers r hmem := by
    obtain ⟨ha, hd⟩ := h.answers r (hr.subset hmem)
    exact ⟨ha.grows (hs.grows hm), hd.move hs hm⟩
  past := hp

theorem OnceInv.last (h : OnceInv s) {t : Nat} (ht : s.flow.turn = some t) :
    s.turns = t + 1 := by
  have ho := h.order
  rw [ht, Option.toList_some] at ho
  have hlen := congrArg List.length ho
  have hlast := congrArg List.getLast? ho
  cases hn : s.turns with
  | zero => simp [hn] at hlen
  | succ n =>
    rw [hn, List.range_succ, List.getLast?_concat, List.getLast?_concat] at hlast
    rw [Option.some.inj hlast]

/-- the state behind `onMessageReceived(payload)` in the listener of connection `c` -/
def State.handOver (s : State) (c turn : Nat) (payload : Bytes) : State :=
  { s with channel := s.channel ++ [Reply.mk turn payload] }.listenerGoto c (.run finish)

theorem replies_handOver (s : State) (c turn : Nat) (payload : Bytes) :
    (s.handOver c turn payload).replies = s.replies ++ [Reply.mk turn payload] :=
  (List.append_assoc ..).symm

section
variable {c r : Nat} {payload : Bytes} {line : Line}

theorem Heard.answers (hh : Heard s) (hpc : s.listener c = .deliver r payload)
    (hl : (s.conn r).request = some line) :
    Answers (s.handOver c line.turn payload) line.turn ⟨line.turn, payload⟩ := by
  obtain ⟨response, hreply, hcarries⟩ : ∃ response, (s.conn r).reply = some response ∧
      Carries response payload := by
    have hf := hh.fromReply c
    rw [hpc] at hf
    exact hf
  exact ⟨rfl, r, line, response, hl, rfl, hreply, hcarries⟩

theorem Heard.delivered (hh : Heard s) (hpc : s.listener c = .deliver r payload)
    (hl : (s.conn r).request = some line) :
    Delivered (s.handOver c line.turn payload) line.turn := by
  have hholds : (s.listener c).holds = some r := by rw [hpc]; rfl
  refine ⟨r, line, hl, rfl, (hh.taken c r hholds).1, fun d hd => ?_⟩
  rcases Lts.update_cases (fun x : ListenerPc => x.holds = some r) hd with ⟨-, hx⟩ | ⟨e, hx⟩
  · cases hx
  · exact e (hh.alone d c r hx hholds)

theorem OnceInv.unanswered (h : OnceInv s) (hs : Sent s) (hpc : s.listener c = .deliver r payload)
    (hl : (s.conn r).request = some line) : line.turn ∉ s.replies.map Reply.turn := by
  intro hmem
  obtain ⟨q, hq, hturn⟩ := List.mem_map.mp hmem
  have hd := (h.answers q hq).2
  rw [hturn] at hd
  exact Delivered.not_deliver hs hpc hl hd

theorem OnceInv.deliver_move (h : OnceInv s) (hs : Sent s) (hh : Heard s)
    (hpc : s.listener c = .deliver r payload) (hl : (s.conn r).request = some line) :
    OnceInv (s.handOver c line.turn payload) := by
  have hm : Move s _ (s.handOver c line.turn payload) := .deliver c r payload line hpc hl
  have hnew := h.unanswered hs hpc hl
  refine ⟨h.order, ?_, fun q hq => ?_, h.past⟩
  · rw [replies_handOver, List.map_append]
    refine List.nodup_append.mpr ⟨h.nodup, List.pairwise_singleton .., fun k hk j hj => ?_⟩
    obtain rfl : j = line.turn := List.mem_singleton.mp hj
    rintro rfl
    exact hnew hk
  · rw [replies_handOver, List.mem_append, List.mem_singleton] at hq
    rcases hq with hq | rfl
    · obtain ⟨ha, hd⟩ := h.answers q hq
      exact ⟨ha.grows (hs.grows hm), hd.move hs hm⟩
    · exact ⟨hh.answers hpc hl, hh.delivered hpc hl⟩

end

theorem OnceInv.move (h : OnceInv s) (hs : Sent s) (hh : Heard s) (hm : Move s l s') :
    OnceInv s' := by
  have hmove := hm
  have ho := h.order
  cases hm with
  | deliver c r payload line hpc hl => exact h.deliver_move hs hh hpc hl
  | enter hpc => exact h.keep hs hmove ho (by simp [State.replies]) h.past
  | respond hpc =>
    rw [hpc] at ho
    refine h.keep hs hmove ?_ (by simp [State.replies, hpc, FlowPc.text]) h.past
    rw [List.range_succ, ← ho]
    simp [FlowPc.turn]
  | receive t first r rest hpc hc =>
    rw [hpc] at ho
    refine h.keep hs hmove ho ?_ h.past
    simp [State.replies, hpc, hc, FlowPc.text]
  | timeout t first hpc =>
    rw [hpc] at ho
    refine h.keep hs hmove ?_ ?_ h.past
    · rw [afterTimeout_turn]
      exact ho
    · simp only [State.replies, afterTimeout_text, hpc]
      exact List.Sublist.refl _
  | lost t first r rest hpc hc =>
    rw [hpc] at ho
    refine h.keep hs hmove ?_ ?_ h.past
    · rw [afterTimeout_turn]
      exact ho
    · simp only [State.replies, afterTimeout_text, hpc, hc]
      exact (List.sublist_cons_self r rest).append_left _
  | say t text hpc =>
    have hturn : s.flow.turn = some t := by rw [hpc]; rfl
    have hlast := h.last hturn
    rw [hpc] at ho
    refine h.keep hs hmove ?_ ?_ fun k r hk => ?_
    · simpa [FlowPc.turn] using ho
    · cases text <;> simp [State.replies, hpc, FlowPc.text]
    · rcases List.mem_append.mp hk with hk | hk
      · exact h.past k r hk
      · rw [List.mem_singleton] at hk
        cases hk
        -- its request was sent, so its turn has begun
        have ha := (h.answers r (by simp [State.replies, hpc, FlowPc.text])).1
        have hbegun := ha.begun hs
        omega
  | _ => exact h.keep hs hmove ho (List.Sublist.refl _) h.past

/-! ## every run -/

theorem ReachableBy.once {G : State → Label → Prop} {testMode : Bool}
    (h : ReachableBy G testMode s) : Sent s ∧ Heard s ∧ OnceInv s :=
  h.inv (fun s => Sent s ∧ Heard s ∧ OnceInv s)
    ⟨.start testMode, .start testMode, .start testMode⟩
    fun _ _ _ ⟨hs, hh, ho⟩ _ hm => ⟨hs.move hm, hh.move hs hm, ho.move hs hh hm⟩

/-- **No reply is spoken twice.**  Whatever the delays and the losses, the turns come to their end in
order and each of them once; of the replies that have been spoken, are about to be spoken or wait in
the channel no two answer the same request; and what is spoken at a turn is the server's reply to the
request of this turn or of an earlier one. -/
theorem spoken_once (G : State → Label → Prop) (testMode : Bool) (s : State)
    (h : ReachableBy G testMode s) :
    s.spoken.map Prod.fst ++ s.flow.turn.toList = List.range s.turns ∧
    (s.replies.map Reply.turn).Nodup ∧
    ∀ k r, (k, some r) ∈ s.spoken → r.turn ≤ k ∧ Answers s r.turn r := by
  obtain ⟨-, -, ho⟩ := h.once
  refine ⟨ho.order, ho.nodup, fun k r hk => ⟨ho.past k r hk, (ho.answers r ?_).1⟩⟩
  have hmem : r ∈ s.spoken.filterMap Prod.snd := List.mem_filterMap.mpr ⟨_, hk, rfl⟩
  exact List.mem_append_left _ (List.mem_append_left _ hmem)

/-- The reply to turn 0 is spoken at turn 1, and at no other turn. -/
theorem spoken_once_late :
    ∃ s, ReachableBy Any false s ∧ s.spoken = [(0, none), (1, some ⟨0, ascii "Ciao."⟩)] ∧
      s.spoken.map Prod.fst ++ s.flow.turn.toList = List.range s.turns ∧
      (s.replies.map Reply.turn).Nodup ∧
      ∀ k r, (k, some r) ∈ s.spoken → r.turn ≤ k ∧ Answers s r.turn r := by
  have hrun : (exec step (startState false) lateRun).map State.spoken =
      some [(0, none), (1, some ⟨0, ascii "Ciao."⟩)] := by decide +kernel
  obtain ⟨s, hs, hv⟩ := Option.map_eq_some_iff.mp hrun
  have hreach : ReachableBy Any false s := Reach.of_exec _ hs
  exact ⟨s, hreach, hv, spoken_once Any false s hreach⟩

end Client
