import RobotDialog.Client.Socket

/-!
# The robot client: the moves

Inversion of the step function: `Move s l s'` has one constructor for each statement and each of
its outcomes, `l` is the label of the step.

* `Move.of_step`     a step is a move;
* `ReachableBy.inv`   what holds first and is kept by a move holds in every run.
-/

namespace Client
open Lts CString Wire

variable {s s' : State}

inductive Move (s : State) : Label → State → Prop
  | openSocket (t : Nat) (hpc : s.sender t = .openSocket) :
      Move s (.sender t .run) ({ s.setConn s.opened ⟨fun _ => false, none, none, false⟩ with
        socket := some s.opened
        opened := s.opened + 1 }.senderGoto t (.openWriter s.opened))
  | openWriter (t c d : Nat) (hpc : s.sender t = .openWriter c) (hs : s.socket = some d) :
      Move s (.sender t .run) ({ s with writer := some d }.senderGoto t (.openReader c))
  | openReader (t c d : Nat) (hpc : s.sender t = .openReader c) (hs : s.socket = some d) :
      Move s (.sender t .run) ({ s with reader := some d }.senderGoto t (.setConnected c))
  | senderEnds (t : Nat) (a : SenderAct) (hpc : s.sender t ≠ .notStarted) :
      Move s (.sender t a) (s.senderGoto t .done)
  | setConnected (t c : Nat) (hpc : s.sender t = .setConnected c) :
      Move s (.sender t .run) ({ s with isConnected := true }.senderGoto t (.startListening c))
  | startListening (t c : Nat) (hpc : s.sender t = .startListening c) :
      Move s (.sender t .run) ((s.listenerGoto c .test).senderGoto t .testConnected)
  | connected (t : Nat) (hpc : s.sender t = .testConnected) :
      Move s (.sender t .run) (s.senderGoto t .setPayload)
  | setPayload (t : Nat) (hpc : s.sender t = .setPayload) :
      Move s (.sender t .run) ({ s with payload := some t }.senderGoto t .print)
  | print (t d : Nat) (hpc : s.sender t = .print) (hw : s.writer = some d) :
      Move s (.sender t .run) ((s.setConn d { s.conn d with
        request := (s.conn d).request.or (some ⟨t, s.payload⟩) }).senderGoto t .done)
  | skip (c : Nat) (hpc : s.listener c = .test) :
      Move s (.listener c .run) (s.listenerGoto c (.run disconnect))
  | check (c : Nat) (hpc : s.listener c = .test) :
      Move s (.listener c .run) (s.listenerGoto c .readField)
  | noReader (c : Nat) (hpc : s.listener c = .readField) :
      Move s (.listener c .run) (s.listenerGoto c (.run finish))
  | read (c r : Nat) (hpc : s.listener c = .readField) (hr : s.reader = some r) :
      Move s (.listener c .run) (s.listenerGoto c (.reading r))
  | line (c r : Nat) (response : Bytes) (hpc : s.listener c = .reading r)
      (hr : (s.conn r).reply = some response) (ht : (s.conn r).taken = false) :
      Move s (.listener c .line)
        ((s.setConn r { s.conn r with taken := true }).listenerGoto c (.handle r response))
  | ended (c r : Nat) (a : ListenerAct) (hpc : s.listener c = .reading r) :
      Move s (.listener c a) (s.listenerGoto c (.run finish))
  | handle (c r : Nat) (response : Bytes) (m : RequestType) (p : Option Nat)
      (hpc : s.listener c = .handle r response)
      (hm : messageAfter s response = { s with message := m, payload := p }) :
      Move s (.listener c .run)
        ({ s with message := m, payload := p }.listenerGoto c (afterMessage r response))
  | deliver (c r : Nat) (payload : Bytes) (line : Line) (hpc : s.listener c = .deliver r payload)
      (hl : (s.conn r).request = some line) :
      Move s (.listener c .run)
        ({ s with channel := s.channel ++ [Reply.mk line.turn payload] }.listenerGoto c
          (.run finish))
  | setDisconnected (c : Nat) (ops : List Op)
      (hpc : s.listener c = .run (.setDisconnected :: ops)) :
      Move s (.listener c .run) ({ s with isConnected := false }.listenerGoto c (.run ops))
  | closeNothing (c : Nat) (part : Part) (ops : List Op)
      (hpc : s.listener c = .run (.close part :: ops)) (hf : s.field part = none) :
      Move s (.listener c .run) (s.listenerGoto c (.run ops))
  | close (c d : Nat) (part : Part) (ops : List Op)
      (hpc : s.listener c = .run (.close part :: ops)) (hf : s.field part = some d) :
      Move s (.listener c .run) ((s.closePart c part d).listenerGoto c (.run ops))
  | reply (c : Nat) (reply : Bytes) (line : Line) (hl : (s.conn c).request = some line)
      (hr : (s.conn c).reply = none) :
      Move s (.server c reply) (s.setConn c { s.conn c with reply := some reply })
  | enter (hpc : s.flow = .listening) : Move s (.flow .enter) { s with channel := [] }
  | respond (hpc : s.flow = .listening) :
      Move s (.flow .respond) { s with
        turns := s.turns + 1
        sender := Function.update s.sender s.turns .openSocket
        flow := .waiting s.turns true }
  | receive (t : Nat) (first : Bool) (r : Reply) (rest : List Reply)
      (hpc : s.flow = .waiting t first) (hc : s.channel = r :: rest) :
      Move s (.flow .receive) { s with channel := rest, flow := .speak t (some r) }
  | timeout (t : Nat) (first : Bool) (hpc : s.flow = .waiting t first) :
      Move s (.flow .timeout) { s with flow := afterTimeout t first }
  | lost (t : Nat) (first : Bool) (r : Reply) (rest : List Reply)
      (hpc : s.flow = .waiting t first) (hc : s.channel = r :: rest) :
      Move s (.flow .lost) { s with channel := rest, flow := afterTimeout t first }
  | say (t : Nat) (text : Option Reply) (hpc : s.flow = .speak t text) :
      Move s (.flow .say) { s with spoken := s.spoken ++ [(t, text)], flow := .listening }

theorem Move.of_senderStep {t : Nat} {a : SenderAct} (h : senderStep s t a = some s') :
    Move s (.sender t a) s' := by
  unfold senderStep at h
  split at h
  case h_1 hpc => cases h; exact .openSocket t hpc
  case h_2 c hpc =>
    split at h
    · cases h
    · split at h <;> cases h
      exact .openWriter t c _ hpc ‹_›
  case h_3 c hpc =>
    split at h
    · cases h
    · split at h <;> cases h
      exact .openReader t c _ hpc ‹_›
  case h_4 hpc => cases h; exact .senderEnds t _ (by simp [hpc])
  case h_5 hpc => cases h; exact .senderEnds t _ (by simp [hpc])
  case h_6 hpc => cases h; exact .senderEnds t _ (by simp [hpc])
  case h_7 c hpc => cases h; exact .setConnected t c hpc
  case h_8 c hpc => cases h; exact .startListening t c hpc
  case h_9 hpc =>
    split at h <;> cases h
    · exact .connected t hpc
    · exact .senderEnds t _ (by simp [hpc])
  case h_10 hpc => cases h; exact .setPayload t hpc
  case h_11 hpc =>
    split at h
    · cases h; exact .senderEnds t _ (by simp [hpc])
    · split at h <;> cases h
      · exact .senderEnds t _ (by simp [hpc])
      · exact .print t _ hpc ‹_›
  case h_12 => cases h

theorem messageAfter_eq (s : State) (response : Bytes) :
    ∃ m p, messageAfter s response = { s with message := m, payload := p } := by
  unfold messageAfter
  split
  · split
    · exact ⟨s.message, s.payload, rfl⟩
    · exact ⟨.testRequest, none, rfl⟩
  · exact ⟨s.message, s.payload, rfl⟩

theorem Move.of_listenerStep {c : Nat} {a : ListenerAct} (h : listenerStep s c a = some s') :
    Move s (.listener c a) s' := by
  unfold listenerStep at h
  split at h
  case h_1 hpc =>
    split at h <;> cases h
    · exact .check c hpc
    · exact .skip c hpc
  case h_2 hpc =>
    split at h <;> cases h
    · exact .noReader c hpc
    · exact .read c _ hpc ‹_›
  case h_3 r hpc =>
    split at h
    · cases h
    · split at h <;> cases h
      rename_i hr ht
      exact .line c r _ hpc hr (by simpa using ht)
  case h_4 r hpc => cases h; exact .ended c r _ hpc
  case h_5 r hpc => cases h; exact .ended c r _ hpc
  case h_6 r response hpc =>
    obtain ⟨m, p, hm⟩ := messageAfter_eq s response
    rw [hm, Option.some.injEq] at h
    subst h
    exact .handle c r response m p hpc hm
  case h_7 r payload hpc =>
    split at h
    · cases h
    · cases h; exact .deliver c r payload _ hpc ‹_›
  case h_8 op ops hpc =>
    rw [Option.some.injEq] at h
    subst h
    cases op with
    | setDisconnected => exact .setDisconnected c ops hpc
    | close part =>
      simp only [State.perform]
      split
      · exact .closeNothing c part ops hpc ‹_›
      · exact .close c _ part ops hpc ‹_›
  case h_9 => cases h

theorem Move.of_flowStep {a : FlowAct} (h : flowStep s a = some s') :
    Move s (.flow a) s' := by
  unfold flowStep at h
  split at h
  case h_1 hpc => cases h; exact .enter hpc
  case h_2 hpc => cases h; exact .respond hpc
  case h_3 t first hpc =>
    split at h <;> cases h
    exact .receive t first _ _ hpc ‹_›
  case h_4 t first hpc => cases h; exact .timeout t first hpc
  case h_5 t first hpc =>
    split at h <;> cases h
    exact .lost t first _ _ hpc ‹_›
  case h_6 t text hpc => cases h; exact .say t text hpc
  case h_7 => cases h

/-- **A step is a move.** -/
theorem Move.of_step {l : Label} (h : step l s = some s') : Move s l s' := by
  cases l with
  | sender t a => exact .of_senderStep h
  | listener c a => exact .of_listenerStep h
  | server c reply =>
    simp only [step, serverStep] at h
    split at h <;> cases h
    rename_i hc
    obtain ⟨line, hl⟩ := Option.ne_none_iff_exists'.mp hc.1
    exact .reply c reply line hl hc.2
  | flow a => exact .of_flowStep h

def ReachableBy (G : State → Label → Prop) (testMode : Bool) (s : State) : Prop :=
  Reach step G (startState testMode) s

theorem ReachableBy.inv {G : State → Label → Prop} {testMode : Bool} (I : State → Prop)
    (h0 : I (startState testMode)) (hmove : ∀ s l s', I s → G s l → Move s l s' → I s')
    (h : ReachableBy G testMode s) : I s :=
  Reach.inv I h0 (fun s l s' _ hI hG hst => hmove s l s' hI hG (.of_step hst)) h

end Client
