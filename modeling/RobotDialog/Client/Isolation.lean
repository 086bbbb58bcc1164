import RobotDialog.Client.Moves

/-!
# The robot client: what a listener closes

A listener ends with `disconnect`, which closes whatever the shared fields hold at that moment.

* `ListenersDone`        the condition: a connection is opened only when every earlier connection is
                         over;
* `IsoInv`               what it gives in every state;
* `listener_isolated`    then a listener closes its own connection, all of it, and no other;
* `listener_closes_other`   a late reply: the listener closes the connection of the next turn.
-/

namespace Client
open Lts CString Wire

variable {s s' : State} {l : Label}

def ListenerPc.finished (pc : ListenerPc) : Prop := pc = .run []

def ListenerPc.active (pc : ListenerPc) : Prop := pc ≠ .notStarted ∧ ¬ pc.finished

/-- the connection of a sender that has not started its listener yet -/
def SenderPc.conn : SenderPc → Option Nat
  | .openWriter c | .openReader c | .setConnected c | .startListening c => some c
  | _ => none

/-- nobody uses connection `d`: its listener has finished, or its sender failed before it started
one -/
def Over (s : State) (d : Nat) : Prop :=
  (s.listener d).finished ∨ (s.listener d = .notStarted ∧ ∀ u, (s.sender u).conn ≠ some d)

/-- a connection is opened only when every earlier connection is over -/
def ListenersDone (s : State) : Label → Prop
  | .sender t .run => s.sender t = .openSocket → ∀ d, d < s.opened → Over s d
  | _ => True

/-- the fields that a sender has assigned -/
def SenderPc.FieldsOk (s : State) : SenderPc → Prop
  | .openWriter c => s.socket = some c
  | .openReader c => s.socket = some c ∧ s.writer = some c
  | .setConnected c | .startListening c => ∀ part, s.field part = some c
  | _ => True

structure IsoInv (s : State) : Prop where
  beyond : ∀ d, s.opened ≤ d → s.listener d = .notStarted
  older : ∀ d, d + 1 < s.opened → ¬ (s.listener d).active
  phase : ∀ t d, (s.sender t).conn = some d →
    d + 1 = s.opened ∧ s.listener d = .notStarted ∧ (s.sender t).FieldsOk s
  single : ∀ t u d, (s.sender t).conn = some d → (s.sender u).conn = some d → t = u
  active : ∀ d, (s.listener d).active → ∀ part, s.field part = some d
  closes : ∀ e ∈ s.closes, e.2.2 = e.1
  progress : ∀ d ops, s.listener d = .run ops → ∀ part, .close part ∉ ops →
    (s.conn d).closed part = true

theorem IsoInv.start (testMode : Bool) : IsoInv (startState testMode) where
  beyond _ _ := rfl
  older d h := by simp [startState] at h
  phase t d h := by simp [startState, SenderPc.conn] at h
  single t u d h := by simp [startState, SenderPc.conn] at h
  active d h := absurd rfl h.1
  closes e h := by simp [startState] at h
  progress d ops h := by simp [startState] at h

theorem IsoInv.quiet (h : IsoInv s) {t c : Nat} (hc : (s.sender t).conn = some c) (d : Nat) :
    ¬ (s.listener d).active := by
  rintro ⟨hne, hnf⟩
  obtain ⟨h1, h2, -⟩ := h.phase t c hc
  rcases lt_trichotomy (d + 1) s.opened with hd | hd | hd
  · exact h.older d hd ⟨hne, hnf⟩
  · have hdc : d = c := by omega
    subst hdc
    exact hne h2
  · exact hne (h.beyond d (by omega))

theorem IsoInv.alone (h : IsoInv s) {t u c d : Nat} (ht : (s.sender t).conn = some c)
    (hu : (s.sender u).conn = some d) : u = t := by
  have h1 := (h.phase t c ht).1
  have h2 := (h.phase u d hu).1
  have hdc : d = c := by omega
  subst hdc
  exact h.single u t d hu ht

/-- What is left alone by the moves that neither connect nor listen. -/
structure Same (s s' : State) : Prop where
  fields : s'.socket = s.socket ∧ s'.writer = s.writer ∧ s'.reader = s.reader
  opened : s'.opened = s.opened
  closed : ∀ d part, (s'.conn d).closed part = (s.conn d).closed part
  listener : s'.listener = s.listener
  closes : s'.closes = s.closes

theorem Same.field (h : Same s s') (part : Part) : s'.field part = s.field part := by
  obtain ⟨h1, h2, h3⟩ := h.fields
  cases part
  · exact h2
  · exact h3
  · exact h1

theorem Same.fieldsOk (h : Same s s') (pc : SenderPc) : pc.FieldsOk s' ↔ pc.FieldsOk s := by
  obtain ⟨h1, h2, h3⟩ := h.fields
  cases pc <;> simp [SenderPc.FieldsOk, h1, h2, h.field]

/-- Senders may move on or end, as long as none gets a connection that it did not have. -/
theorem IsoInv.same (h : IsoInv s) (hs : Same s s')
    (hsend : ∀ t, s'.sender t = s.sender t ∨ (s'.sender t).conn = none ∨
      ((s'.sender t).conn = (s.sender t).conn ∧
        ((s.sender t).FieldsOk s → (s'.sender t).FieldsOk s))) : IsoInv s' := by
  have hconn : ∀ t d, (s'.sender t).conn = some d → (s.sender t).conn = some d := by
    intro t d hd
    rcases hsend t with he | he | ⟨he, -⟩
    · rw [← he]; exact hd
    · rw [he] at hd; cases hd
    · rw [← he]; exact hd
  refine ⟨?_, ?_, fun t d hd => ?_, ?_, ?_, ?_, ?_⟩
  · rw [hs.opened, hs.listener]; exact h.beyond
  · rw [hs.opened, hs.listener]; exact h.older
  · obtain ⟨h1, h2, h3⟩ := h.phase t d (hconn t d hd)
    rw [hs.opened, hs.listener, hs.fieldsOk]
    refine ⟨h1, h2, ?_⟩
    rcases hsend t with he | he | ⟨-, he⟩
    · rw [he]; exact h3
    · rw [he] at hd; cases hd
    · exact he h3
  · exact fun t u d ht hu => h.single t u d (hconn t d ht) (hconn u d hu)
  · intro d hd part
    rw [hs.listener] at hd
    rw [hs.field]
    exact h.active d hd part
  · rw [hs.closes]; exact h.closes
  · intro d ops hd part hp
    rw [hs.listener] at hd
    rw [hs.closed]
    exact h.progress d ops hd part hp

theorem IsoInv.listener_move (h : IsoInv s) {c : Nat} (hact : (s.listener c).active)
    {pc : ListenerPc} (hl : s'.listener = Function.update s.listener c pc)
    (hf : ∀ part, s'.field part = s.field part) (ho : s'.opened = s.opened)
    (hsend : s'.sender = s.sender) (hcl : ∀ e ∈ s'.closes, e ∈ s.closes ∨ e.2.2 = e.1)
    (hkeep : ∀ d part, (s.conn d).closed part = true → (s'.conn d).closed part = true)
    (hp : ∀ ops, pc = .run ops → ∀ part, .close part ∉ ops → (s'.conn c).closed part = true) :
    IsoInv s' := by
  have hlast : c + 1 = s.opened := by
    rcases lt_trichotomy (c + 1) s.opened with hd | hd | hd
    · exact absurd hact (h.older c hd)
    · exact hd
    · exact absurd (h.beyond c (by omega)) hact.1
  have hother : ∀ d, d ≠ c → s'.listener d = s.listener d := by
    intro d hd
    rw [hl, Function.update_of_ne hd]
  refine ⟨fun d hd => ?_, fun d hd => ?_, fun t d hd => ?_, ?_, fun d hd part => ?_, ?_, ?_⟩
  · rw [ho] at hd
    rw [hother d (by omega)]
    exact h.beyond d hd
  · rw [ho] at hd
    rw [hother d (by omega)]
    exact h.older d hd
  · rw [hsend] at hd
    exact absurd hact (h.quiet hd c)
  · rw [hsend]; exact h.single
  · rw [hf]
    by_cases e : d = c
    · subst e
      exact h.active d hact part
    · rw [hother d e] at hd
      exact h.active d hd part
  · intro e he
    rcases hcl e he with he | he
    · exact h.closes e he
    · exact he
  · intro d ops hd part hpart
    rw [hl] at hd
    rcases update_cases (· = ListenerPc.run ops) hd with ⟨rfl, hnew⟩ | ⟨-, hold⟩
    · exact hp ops hnew part hpart
    · exact hkeep d part (h.progress d ops hold part hpart)

theorem IsoInv.sender_move (h : IsoInv s) (hs : Same s s') {t : Nat} {pc : SenderPc}
    (hsend : s'.sender = Function.update s.sender t pc)
    (hpc : pc.conn = none ∨ (pc.conn = (s.sender t).conn ∧
      ((s.sender t).FieldsOk s → pc.FieldsOk s))) : IsoInv s' := by
  refine h.same hs fun u => ?_
  by_cases e : u = t
  · subst e
    rw [hsend, Function.update_self]
    exact .inr hpc
  · rw [hsend, Function.update_of_ne e]
    exact .inl rfl

theorem IsoInv.open_move (h : IsoInv s) {t : Nat}
    (hdone : ∀ d, d < s.opened → Over s d) :
    IsoInv ({ s.setConn s.opened ⟨fun _ => false, none, none, false⟩ with
      socket := some s.opened
      opened := s.opened + 1 }.senderGoto t (.openWriter s.opened)) := by
  have hnone : ∀ u d, (s.sender u).conn ≠ some d := by
    intro u d hu
    obtain ⟨h1, h2, -⟩ := h.phase u d hu
    rcases hdone d (by omega) with hfin | ⟨-, hno⟩
    · rw [h2] at hfin
      cases hfin
    · exact hno u hu
  have hquiet : ∀ d, ¬ (s.listener d).active := by
    rintro d ⟨hne, hnf⟩
    by_cases e : d < s.opened
    · rcases hdone d e with hfin | ⟨hnot, -⟩
      · exact hnf hfin
      · exact hne hnot
    · exact hne (h.beyond d (by omega))
  have hconn : ∀ u d, (Function.update s.sender t (.openWriter s.opened) u).conn = some d →
      u = t ∧ d = s.opened := by
    intro u d hu
    rcases update_cases (fun x : SenderPc => x.conn = some d) hu with ⟨e, hnew⟩ | ⟨-, hold⟩
    · exact ⟨e, (Option.some.inj hnew).symm⟩
    · exact absurd hold (hnone u d)
  refine ⟨fun d hd => ?_, fun d hd => ?_, fun u d hu => ?_, fun u v d hu hv => ?_,
    fun d hd part => ?_, h.closes, fun d ops hd part hp => ?_⟩
  · have hd : s.opened + 1 ≤ d := hd
    exact h.beyond d (by omega)
  · exact hquiet d
  · obtain ⟨rfl, rfl⟩ := hconn u d hu
    refine ⟨rfl, h.beyond _ (le_refl _), ?_⟩
    show (Function.update s.sender u (.openWriter s.opened) u).FieldsOk _
    rw [Function.update_self]
    rfl
  · rw [(hconn u d hu).1, (hconn v d hv).1]
  · exact absurd hd (hquiet d)
  · have hd : s.listener d = .run ops := hd
    have hne : d ≠ s.opened := by
      rintro rfl
      rw [h.beyond s.opened (le_refl _)] at hd
      cases hd
    show (Function.update s.conn s.opened _ d).closed part = true
    rw [Function.update_of_ne hne]
    exact h.progress d ops hd part hp

theorem IsoInv.assign_move (h : IsoInv s) {t c : Nat} (hc : (s.sender t).conn = some c)
    {pc : SenderPc} (hsend : s'.sender = Function.update s.sender t pc) (hpc : pc.conn = some c)
    (hf : pc.FieldsOk s') (ho : s'.opened = s.opened) (hl : s'.listener = s.listener)
    (hcl : s'.closes = s.closes) (hconn : s'.conn = s.conn) : IsoInv s' := by
  obtain ⟨hlast, hnot, -⟩ := h.phase t c hc
  have honly : ∀ u d, (s'.sender u).conn = some d → u = t ∧ d = c := by
    intro u d hu
    rw [hsend] at hu
    rcases update_cases (fun x : SenderPc => x.conn = some d) hu with ⟨e, hnew⟩ | ⟨hne, hold⟩
    · rw [hpc] at hnew
      exact ⟨e, (Option.some.inj hnew).symm⟩
    · exact absurd (h.alone hc hold) hne
  refine ⟨?_, ?_, fun u d hu => ?_, fun u v d hu hv => ?_, fun d hd => ?_, ?_, ?_⟩
  · rw [ho, hl]; exact h.beyond
  · rw [ho, hl]; exact h.older
  · obtain ⟨rfl, rfl⟩ := honly u d hu
    rw [ho, hl, hsend, Function.update_self]
    exact ⟨hlast, hnot, hf⟩
  · rw [(honly u d hu).1, (honly v d hv).1]
  · rw [hl] at hd
    exact absurd hd (h.quiet hc d)
  · rw [hcl]; exact h.closes
  · rw [hl, hconn]; exact h.progress

theorem IsoInv.start_move (h : IsoInv s) {t c : Nat} (hpc : s.sender t = .startListening c) :
    IsoInv ((s.listenerGoto c .test).senderGoto t .testConnected) := by
  have htc : (s.sender t).conn = some c := by rw [hpc]; rfl
  obtain ⟨hlast, hnot, hfields⟩ := h.phase t c htc
  rw [hpc] at hfields
  have hnone : ∀ u d, (Function.update s.sender t .testConnected u).conn ≠ some d := by
    intro u d hu
    rcases update_cases (fun x : SenderPc => x.conn = some d) hu with ⟨-, hnew⟩ | ⟨hne, hold⟩
    · cases hnew
    · exact hne (h.alone htc hold)
  have hother : ∀ d, d ≠ c → Function.update s.listener c .test d = s.listener d :=
    fun d hd => Function.update_of_ne hd _ _
  refine ⟨fun d hd => ?_, fun d hd => ?_, fun u d hu => absurd hu (hnone u d),
    fun u v d hu => absurd hu (hnone u d), fun d hd part => ?_, h.closes,
    fun d ops hd part hp => ?_⟩
  · have hd : s.opened ≤ d := hd
    show Function.update s.listener c .test d = _
    rw [hother d (by omega)]
    exact h.beyond d hd
  · have hd : d + 1 < s.opened := hd
    show ¬ (Function.update s.listener c .test d).active
    rw [hother d (by omega)]
    exact h.older d hd
  · by_cases e : d = c
    · subst e
      exact hfields part
    · have hd : (Function.update s.listener c .test d).active := hd
      rw [hother d e] at hd
      exact absurd hd (h.quiet htc d)
  · have hd : Function.update s.listener c .test d = .run ops := hd
    rcases update_cases (· = ListenerPc.run ops) hd with ⟨-, hnew⟩ | ⟨-, hold⟩
    · cases hnew
    · exact h.progress d ops hold part hp

theorem disconnect_closes (part : Part) :
    .close part ∈ disconnect ∧ .close part ∈ finish ∧ .close part ∈ finishError := by
  cases part <;> decide

theorem afterMessage_closes (r : Nat) (response : Bytes) {ops : List Op}
    (h : afterMessage r response = .run ops) (part : Part) : .close part ∈ ops := by
  unfold afterMessage at h
  split at h <;> cases h
  · exact (disconnect_closes part).2.1
  · exact (disconnect_closes part).2.2

theorem IsoInv.listener_goto (h : IsoInv s) {c : Nat} (hact : (s.listener c).active)
    (pc : ListenerPc) (hl : s'.listener = Function.update s.listener c pc)
    (hs : Same { s with listener := s'.listener } s') (hsend : s'.sender = s.sender)
    (hp : ∀ ops, pc = .run ops → ∀ part, .close part ∉ ops → (s.conn c).closed part = true) :
    IsoInv s' := by
  refine h.listener_move hact hl hs.field hs.opened hsend (fun e he => .inl ?_)
    (fun d part hd => ?_) fun ops hpc part hpart => ?_
  · rw [hs.closes] at he
    exact he
  · rw [hs.closed]
    exact hd
  · rw [hs.closed]
    exact hp ops hpc part hpart

theorem IsoInv.close_move (h : IsoInv s) {c d : Nat} {part : Part} {ops : List Op}
    (hpc : s.listener c = .run (.close part :: ops)) (hf : s.field part = some d) :
    IsoInv ((s.closePart c part d).listenerGoto c (.run ops)) := by
  have hact : (s.listener c).active := by
    rw [hpc]
    exact ⟨by simp, by simp [ListenerPc.finished]⟩
  have hdc : d = c := by
    rw [h.active c hact part, Option.some.injEq] at hf
    exact hf.symm
  subst hdc
  refine h.listener_move hact rfl (fun p => by cases p <;> rfl) rfl rfl (fun e he => ?_)
    (fun e p hd => ?_) fun ops' he p hp => ?_
  · rcases List.mem_append.mp he with he | he
    · exact .inl he
    · rw [List.mem_singleton] at he
      exact .inr (by rw [he])
  · by_cases e' : e = d
    · subst e'
      simp [Function.update_apply, hd]
    · simpa [e'] using hd
  · cases he
    by_cases e : p = part
    · subst e
      simp
    · have hold := h.progress d _ hpc p (by simp [e, hp])
      simp [Function.update_apply, hold]

theorem IsoInv.move (h : IsoInv s) (hG : ListenersDone s l) (hm : Move s l s') : IsoInv s' := by
  have hact : ∀ {c : Nat} {pc : ListenerPc}, s.listener c = pc → pc ≠ .notStarted → pc ≠ .run [] →
      (s.listener c).active := fun e h1 h2 => e ▸ ⟨h1, h2⟩
  have hfinish : ∀ {c : Nat} ops, ListenerPc.run finish = .run ops →
      ∀ part, .close part ∉ ops → (s.conn c).closed part = true := by
    intro c ops e part hp
    cases e
    exact absurd (disconnect_closes part).2.1 hp
  have hsame : ∀ {f : Nat → ListenerPc}, Same { s with listener := f } { s with listener := f } :=
    ⟨⟨rfl, rfl, rfl⟩, rfl, fun _ _ => rfl, rfl, rfl⟩
  have hid : ∀ {s'' : State}, Same s s'' → s''.sender = s.sender → IsoInv s'' :=
    fun hs he => h.same hs fun t => .inl (by rw [he])
  cases hm with
  | openSocket t hpc => exact h.open_move (hG hpc)
  | openWriter t c d hpc hs =>
    have hc : (s.sender t).conn = some c := by rw [hpc]; rfl
    obtain ⟨-, -, hf⟩ := h.phase t c hc
    rw [hpc] at hf
    have hdc : some d = some c := hs.symm.trans hf
    exact h.assign_move hc rfl rfl ⟨hf, hdc⟩ rfl rfl rfl rfl
  | openReader t c d hpc hs =>
    have hc : (s.sender t).conn = some c := by rw [hpc]; rfl
    obtain ⟨-, -, hf⟩ := h.phase t c hc
    rw [hpc] at hf
    have hdc : some d = some c := hs.symm.trans hf.1
    refine h.assign_move hc rfl rfl (fun part => ?_) rfl rfl rfl rfl
    cases part
    · exact hf.2
    · exact hdc
    · exact hf.1
  | senderEnds | connected | setPayload | respond =>
    exact h.sender_move ⟨⟨rfl, rfl, rfl⟩, rfl, fun _ _ => rfl, rfl, rfl⟩ rfl (.inl rfl)
  | setConnected t c hpc =>
    refine h.sender_move ⟨⟨rfl, rfl, rfl⟩, rfl, fun _ _ => rfl, rfl, rfl⟩ (t := t) rfl
      (.inr ⟨?_, ?_⟩)
    · rw [hpc]; rfl
    · rw [hpc]; exact id
  | startListening t c hpc => exact h.start_move hpc
  | print t d hpc hw =>
    refine h.sender_move ⟨⟨rfl, rfl, rfl⟩, rfl, fun e part => ?_, rfl, rfl⟩ (t := t) rfl (.inl rfl)
    by_cases e' : e = d
    · subst e'; simp
    · simp [e']
  | skip c hpc =>
    refine h.listener_goto (hact hpc (by simp) (by simp)) _ rfl hsame rfl fun ops e part hp => ?_
    cases e
    exact absurd (disconnect_closes part).1 hp
  | check c hpc =>
    exact h.listener_goto (hact hpc (by simp) (by simp)) _ rfl hsame rfl fun _ e => by cases e
  | noReader c hpc =>
    exact h.listener_goto (hact hpc (by simp) (by simp)) _ rfl hsame rfl hfinish
  | read c r hpc hr =>
    exact h.listener_goto (hact hpc (by simp) (by simp)) _ rfl hsame rfl fun _ e => by cases e
  | line c r response hpc hr ht =>
    refine h.listener_goto (hact hpc (by simp) (by simp)) _ rfl ?_ rfl fun _ e => by cases e
    refine ⟨⟨rfl, rfl, rfl⟩, rfl, fun d part => ?_, rfl, rfl⟩
    by_cases e : d = r
    · subst e; simp
    · simp [e]
  | ended c r a hpc =>
    exact h.listener_goto (hact hpc (by simp) (by simp)) _ rfl hsame rfl hfinish
  | handle c r response m p hpc hm =>
    refine h.listener_goto (hact hpc (by simp) (by simp)) _ rfl
      ⟨⟨rfl, rfl, rfl⟩, rfl, fun _ _ => rfl, rfl, rfl⟩ rfl fun ops e part hp => ?_
    exact absurd (afterMessage_closes r response e part) hp
  | deliver c r payload line hpc hl =>
    exact h.listener_goto (hact hpc (by simp) (by simp)) _ rfl
      ⟨⟨rfl, rfl, rfl⟩, rfl, fun _ _ => rfl, rfl, rfl⟩ rfl hfinish
  | setDisconnected c ops hpc =>
    refine h.listener_goto (hact hpc (by simp) (by simp)) _ rfl
      ⟨⟨rfl, rfl, rfl⟩, rfl, fun _ _ => rfl, rfl, rfl⟩ rfl fun ops' e part hp => ?_
    cases e
    exact h.progress c _ hpc part (by simpa using hp)
  | closeNothing c part ops hpc hf =>
    have hfield := h.active c (hact hpc (by simp) (by simp)) part
    rw [hf] at hfield
    cases hfield
  | close c d part ops hpc hf => exact h.close_move hpc hf
  | reply c reply line hl hr =>
    refine hid ⟨⟨rfl, rfl, rfl⟩, rfl, fun e part => ?_, rfl, rfl⟩ rfl
    by_cases e' : e = c
    · subst e'; simp
    · simp [e']
  | enter | receive | timeout | lost | say =>
    exact hid ⟨⟨rfl, rfl, rfl⟩, rfl, fun _ _ => rfl, rfl, rfl⟩ rfl

/-! ## the reachable states -/

theorem ReachableBy.isolation {testMode : Bool} (h : ReachableBy ListenersDone testMode s) :
    IsoInv s :=
  h.inv IsoInv (.start testMode) fun _ _ _ hI hG hm => hI.move hG hm

/-- **Listeners are isolated.**  In every run in which a connection is opened only when every
earlier connection is over, a listener closes nothing but parts of its own connection, and when it has
finished all parts of its connection are closed. -/
theorem listener_isolated (testMode : Bool) (s : State)
    (h : ReachableBy ListenersDone testMode s) :
    (∀ e ∈ s.closes, e.2.2 = e.1) ∧
      ∀ c, (s.listener c).finished → ∀ part, (s.conn c).closed part = true := by
  refine ⟨h.isolation.closes, fun c hc part => ?_⟩
  exact h.isolation.progress c [] hc part (by simp)

/-! ## two runs -/

/-- turn `t` connects, starts its listener and sends its request; the listener of connection `c`
reads -/
def askRun (t c : Nat) : List Label :=
  .flow .respond :: List.replicate 8 (.sender t .run) ++ List.replicate 2 (.listener c .run)

/-- the server answers on connection `c`, and its listener hands the payload to the channel -/
def answerRun (c : Nat) (reply : Bytes) : List Label :=
  [.server c reply, .listener c .line, .listener c .run, .listener c .run]

/-- the flow thread receives and speaks -/
def speakRun : List Label := [.flow .receive, .flow .say]

/-- a turn whose reply arrives in time -/
def promptRun (t : Nat) : List Label :=
  askRun t t ++ answerRun t (ascii "3|Ciao.") ++ speakRun ++ List.replicate 9 (.listener t .run)

/-- The reply to turn 0 arrives when turn 1 has connected; turn 1 speaks it, and listener 0 ends.
Listener 1 is in `readLine` and leaves it when its connection is closed. -/
def lateRun : List Label :=
  askRun 0 0 ++ [.flow .timeout, .flow .timeout, .flow .say] ++ askRun 1 1 ++
    answerRun 0 (ascii "3|Ciao.") ++ speakRun ++ List.replicate 3 (.listener 0 .run) ++
    [.listener 1 .fails] ++ List.replicate 6 (.listener 0 .run)

def listenersDone (s : State) : Label → Bool
  | .sender t .run =>
    s.sender t != .openSocket || (List.range s.opened).all fun d => s.listener d == .run []
  | _ => true

theorem reach_of_listenersDone {s₀ : State} (ls : List Label)
    (h : exec (guarded listenersDone step) s₀ ls = some s) : Reach step ListenersDone s₀ s := by
  refine Reach.of_guarded (fun _ => True) listenersDone (fun s l _ hg => ?_)
    (fun _ _ _ _ _ _ => trivial) trivial ls h
  cases l with
  | sender t a =>
    cases a with
    | run =>
      intro hpc d hd
      simp only [listenersDone, hpc, bne_self_eq_false, Bool.false_or, List.all_eq_true,
        List.mem_range, beq_iff_eq] at hg
      exact .inl (hg d hd)
    | fails => trivial
  | _ => trivial

theorem listener_isolated_prompt :
    ∃ s, ReachableBy ListenersDone false s ∧ s.closes.length = 12 ∧
      (s.listener 0).finished ∧ (s.listener 1).finished ∧
      (∀ e ∈ s.closes, e.2.2 = e.1) ∧
      ∀ c, (s.listener c).finished → ∀ part, (s.conn c).closed part = true := by
  have hrun : (exec (guarded listenersDone step) (startState false)
      (promptRun 0 ++ promptRun 1)).map
        (fun s => (s.closes.length, s.listener 0, s.listener 1)) =
      some (12, .run [], .run []) := by decide +kernel
  obtain ⟨s, hs, hv⟩ := Option.map_eq_some_iff.mp hrun
  simp only [Prod.mk.injEq] at hv
  have hreach : ReachableBy ListenersDone false s := reach_of_listenersDone _ hs
  exact ⟨s, hreach, hv.1, hv.2.1, hv.2.2, listener_isolated false s hreach⟩

/-- **A late reply.**  Listener 0 closes writer, reader and socket of connection 1, and connection 0
stays open. -/
theorem listener_closes_other :
    ∃ s, ReachableBy Any false s ∧ (s.listener 0).finished ∧
      (∀ part, (0, part, 1) ∈ s.closes) ∧ ∀ part, (s.conn 0).closed part = false := by
  have hrun : (exec step (startState false) lateRun).map (fun s => (s.listener 0, s.closes)) =
      some (.run [], [(0, .writer, 1), (0, .reader, 1), (0, .socket, 1), (0, .writer, 1),
        (0, .reader, 1), (0, .socket, 1)]) := by decide +kernel
  have hopen : (exec step (startState false) lateRun).map (fun s =>
      [Part.writer, .reader, .socket].map (s.conn 0).closed) =
      some [false, false, false] := by decide +kernel
  obtain ⟨s, hs, hv⟩ := Option.map_eq_some_iff.mp hrun
  rw [hs, Option.map_some, Option.some.injEq] at hopen
  obtain ⟨h1, h2⟩ := Prod.mk.inj hv
  simp only [List.map_cons, List.map_nil, List.cons.injEq] at hopen
  refine ⟨s, Reach.of_exec _ hs, h1, fun part => ?_, fun part => ?_⟩
  · rw [h2]
    cases part <;> decide
  · cases part
    · exact hopen.1
    · exact hopen.2.1
    · exact hopen.2.2.1

end Client
