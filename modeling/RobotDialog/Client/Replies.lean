import RobotDialog.Client.Isolation

/-!
# The robot client: requests and replies

What holds in every run, whatever the delays.

* `Sent`      which connection received the request of which turn: a turn sends on one connection;
* `Grows`     what has been sent, answered and read stays so;
* `Heard`     what a listener holds is the reply on a connection, and no two hold the same one.
-/

namespace Client
open CString Wire

variable {s s' : State} {l : Label}

/-! ## requests -/

structure Sent (s : State) : Prop where
  field : ∀ part d, s.field part = some d → d < s.opened
  fresh : ∀ d, s.opened ≤ d → (s.conn d).request = none
  later : ∀ t, s.turns ≤ t → s.sender t = .notStarted
  printed : ∀ c line, (s.conn c).request = some line → s.sender line.turn = .done
  unique : ∀ c d line line', (s.conn c).request = some line → (s.conn d).request = some line' →
    line.turn = line'.turn → c = d
  answered : ∀ c, (s.conn c).reply ≠ none → (s.conn c).request ≠ none

theorem Sent.start (testMode : Bool) : Sent (startState testMode) where
  field part d h := by cases part <;> cases h
  fresh d _ := rfl
  later t _ := rfl
  printed c line h := by cases h
  unique c d line line' h := by cases h
  answered c h := absurd rfl h

theorem Sent.frame (h : Sent s) (hf : ∀ part d, s'.field part = some d → d < s'.opened)
    (ho : s.opened ≤ s'.opened) (ht : s'.turns = s.turns)
    (hs : ∀ t, s.sender t = .notStarted ∨ s.sender t = .done → s'.sender t = s.sender t)
    (hr : ∀ d, (s'.conn d).request = (s.conn d).request)
    (ha : ∀ d, (s'.conn d).reply ≠ none → (s.conn d).request ≠ none) : Sent s' where
  field := hf
  fresh d hd := (hr d).trans (h.fresh d (by omega))
  later t hlt := by
    have hn := h.later t (by omega)
    rw [hs t (.inl hn), hn]
  printed c line hc := by
    rw [hr] at hc
    have hd := h.printed c line hc
    rw [hs _ (.inr hd), hd]
  unique c d line line' hc hd := by
    rw [hr] at hc hd
    exact h.unique c d line line' hc hd
  answered c hc := by
    rw [hr]
    exact ha c hc

theorem Sent.conn_move (h : Sent s) {d : Nat} {x : Conn}
    (hc : s'.conn = Function.update s.conn d x) (hx : x.request = (s.conn d).request)
    (ha : x.reply ≠ none → (s.conn d).request ≠ none)
    (hf : ∀ part, s'.field part = s.field part) (ho : s'.opened = s.opened)
    (ht : s'.turns = s.turns)
    (hs : ∀ t, s.sender t = .notStarted ∨ s.sender t = .done → s'.sender t = s.sender t) :
    Sent s' := by
  refine h.frame (fun part e he => ?_) ho.ge ht hs ?_ ?_
  · rw [hf] at he
    rw [ho]
    exact h.field part e he
  · rw [hc]
    exact (Function.forall_update_iff s.conn fun e y => y.request = (s.conn e).request).mpr
      ⟨hx, fun _ _ => rfl⟩
  · rw [hc]
    exact (Function.forall_update_iff s.conn fun e y => y.reply ≠ none →
      (s.conn e).request ≠ none).mpr ⟨ha, fun e _ => h.answered e⟩

theorem idle_update {t : Nat} (pc : SenderPc) (hn : s.sender t ≠ .notStarted)
    (hd : s.sender t ≠ .done) (u : Nat) (hu : s.sender u = .notStarted ∨ s.sender u = .done) :
    Function.update s.sender t pc u = s.sender u := by
  by_cases e : u = t
  · subst e
    rcases hu with hu | hu
    · exact absurd hu hn
    · exact absurd hu hd
  · exact Function.update_of_ne e _ _

theorem Sent.print_move (h : Sent s) {t d : Nat} (hpc : s.sender t = .print) (hd : d < s.opened) :
    Sent ((s.setConn d { s.conn d with
      request := (s.conn d).request.or (some ⟨t, s.payload⟩) }).senderGoto t .done) := by
  have hsend := idle_update (s := s) (t := t) .done (by simp [hpc]) (by simp [hpc])
  cases hr : (s.conn d).request with
  | some line =>
    exact h.conn_move rfl (by rw [hr]; rfl) (fun _ => by simp [hr]) (fun _ => rfl) rfl rfl hsend
  | none =>
    have hnew : ∀ c line, (Function.update s.conn d { s.conn d with
        request := some ⟨t, s.payload⟩ } c).request = some line →
        (c = d ∧ line.turn = t) ∨ (c ≠ d ∧ (s.conn c).request = some line) := by
      intro c line hc
      rcases Lts.update_cases (fun x : Conn => x.request = some line) hc with ⟨e, hnew⟩ | hold
      · exact .inl ⟨e, (congrArg Line.turn (Option.some.inj hnew)).symm⟩
      · exact .inr hold
    have hold : ∀ c line, (s.conn c).request = some line → line.turn ≠ t := by
      intro c line hc e
      have hdone := h.printed c line hc
      rw [e, hpc] at hdone
      cases hdone
    refine ⟨h.field, fun e he => ?_, fun u hu => ?_, fun c line hc => ?_,
      fun c e line line' hc he htt => ?_, fun e he => ?_⟩
    · have he : s.opened ≤ e := he
      have hne : e ≠ d := by omega
      show (Function.update s.conn d _ e).request = none
      rw [Function.update_of_ne hne]
      exact h.fresh e he
    · have hn := h.later u hu
      exact (hsend u (.inl hn)).trans hn
    · rcases hnew c line hc with ⟨-, rfl⟩ | ⟨-, hc⟩
      · exact Function.update_self _ _ _
      · have hdone := h.printed c line hc
        exact (hsend _ (.inr hdone)).trans hdone
    · rcases hnew c line hc with ⟨hcd, h1⟩ | ⟨-, hc'⟩
      · rcases hnew e line' he with ⟨hed, -⟩ | ⟨-, he'⟩
        · exact hcd.trans hed.symm
        · exact absurd (htt.symm.trans h1) (hold e line' he')
      · rcases hnew e line' he with ⟨-, h2⟩ | ⟨-, he'⟩
        · exact absurd (htt.trans h2) (hold c line hc')
        · exact h.unique c e line line' hc' he' htt
    · by_cases e' : e = d
      · subst e'; simp
      · simp only [State.senderGoto, State.setConn, Function.update_of_ne e'] at he ⊢
        exact h.answered e he

theorem Sent.move (h : Sent s) (hm : Move s l s') : Sent s' := by
  have hid : ∀ t, s.sender t = .notStarted ∨ s.sender t = .done → s.sender t = s.sender t :=
    fun _ _ => rfl
  cases hm with
  | openSocket t hpc =>
    refine h.frame (fun part d hd => ?_) (Nat.le_succ _) rfl
      (idle_update _ (by simp [hpc]) (by simp [hpc])) (fun d => ?_) (fun d hd => ?_)
    · show d < s.opened + 1
      cases part
      · exact Nat.lt_succ_of_lt (h.field .writer d hd)
      · exact Nat.lt_succ_of_lt (h.field .reader d hd)
      · have hd : some s.opened = some d := hd
        cases hd
        omega
    · by_cases e : d = s.opened
      · subst e
        simp [h.fresh _ (le_refl _)]
      · simp [e]
    · by_cases e : d = s.opened
      · subst e; simp at hd
      · exact h.answered d (by simpa [e] using hd)
  | openWriter t c d hpc hs =>
    refine h.frame (fun part e he => ?_) (le_refl _) rfl
      (idle_update _ (by simp [hpc]) (by simp [hpc])) (fun _ => rfl) h.answered
    cases part
    · exact h.field .socket e (hs.trans he)
    · exact h.field .reader e he
    · exact h.field .socket e he
  | openReader t c d hpc hs =>
    refine h.frame (fun part e he => ?_) (le_refl _) rfl
      (idle_update _ (by simp [hpc]) (by simp [hpc])) (fun _ => rfl) h.answered
    cases part
    · exact h.field .writer e he
    · exact h.field .socket e (hs.trans he)
    · exact h.field .socket e he
  | senderEnds t a hpc =>
    refine h.frame h.field (le_refl _) rfl (fun u hu => ?_) (fun _ => rfl) h.answered
    by_cases e : u = t
    · subst e
      rcases hu with hu | hu
      · exact absurd hu hpc
      · exact (Function.update_self _ _ _).trans hu.symm
    · exact Function.update_of_ne e _ _
  | setConnected t c hpc =>
    exact h.frame h.field (le_refl _) rfl (idle_update _ (by simp [hpc]) (by simp [hpc]))
      (fun _ => rfl) h.answered
  | startListening t c hpc =>
    exact h.frame h.field (le_refl _) rfl (idle_update _ (by simp [hpc]) (by simp [hpc]))
      (fun _ => rfl) h.answered
  | connected t hpc =>
    exact h.frame h.field (le_refl _) rfl (idle_update _ (by simp [hpc]) (by simp [hpc]))
      (fun _ => rfl) h.answered
  | setPayload t hpc =>
    exact h.frame h.field (le_refl _) rfl (idle_update _ (by simp [hpc]) (by simp [hpc]))
      (fun _ => rfl) h.answered
  | print t d hpc hw => exact h.print_move hpc (h.field .writer d hw)
  | line c r response hpc hr ht =>
    exact h.conn_move rfl rfl (h.answered r) (fun _ => rfl) rfl rfl hid
  | close c d part ops hpc hf =>
    exact h.conn_move rfl rfl (h.answered d) (fun _ => rfl) rfl rfl hid
  | reply c reply line hl hr =>
    exact h.conn_move rfl rfl (fun _ => by simp [hl]) (fun _ => rfl) rfl rfl hid
  | respond hpc =>
    have hother : ∀ t, t ≠ s.turns →
        Function.update s.sender s.turns .openSocket t = s.sender t :=
      fun t ht => Function.update_of_ne ht _ _
    refine ⟨h.field, h.fresh, fun t ht => ?_, fun c line hc => ?_, h.unique, h.answered⟩
    · have ht : s.turns + 1 ≤ t := ht
      exact (hother t (by omega)).trans (h.later t (by omega))
    · have hdone := h.printed c line hc
      refine (hother _ ?_).trans hdone
      intro e
      rw [e, h.later _ (le_refl _)] at hdone
      cases hdone
  | _ => exact h.frame h.field (le_refl _) rfl hid (fun _ => rfl) h.answered

/-! ## replies -/

/-- What has been sent, answered and read stays so. -/
def Grows (s s' : State) : Prop :=
  ∀ c line, (s.conn c).request = some line →
    (s'.conn c).request = some line ∧
      (∀ response, (s.conn c).reply = some response → (s'.conn c).reply = some response) ∧
      ((s.conn c).taken = true → (s'.conn c).taken = true)

theorem Grows.of_eq (h : s'.conn = s.conn) : Grows s s' := by
  intro c line hc
  rw [h]
  exact ⟨hc, fun _ => id, id⟩

theorem Grows.update {d : Nat} {x : Conn} (h : s'.conn = Function.update s.conn d x)
    (hx : ∀ line, (s.conn d).request = some line →
      x.request = some line ∧ (∀ response, (s.conn d).reply = some response →
        x.reply = some response) ∧ ((s.conn d).taken = true → x.taken = true)) : Grows s s' := by
  intro c line hc
  rw [h]
  by_cases e : c = d
  · subst e
    rw [Function.update_self]
    exact hx line hc
  · rw [Function.update_of_ne e]
    exact ⟨hc, fun _ => id, id⟩

theorem Sent.grows (h : Sent s) (hm : Move s l s') : Grows s s' := by
  cases hm with
  | openSocket t hpc =>
    refine .update rfl fun line hl => ?_
    rw [h.fresh _ (le_refl _)] at hl
    cases hl
  | print t d hpc hw => exact .update rfl fun line hl => ⟨by rw [hl]; rfl, fun _ => id, id⟩
  | line c r response hpc hr ht => exact .update rfl fun line hl => ⟨hl, fun _ => id, fun _ => rfl⟩
  | close c d part ops hpc hf => exact .update rfl fun line hl => ⟨hl, fun _ => id, id⟩
  | reply c reply line hl hr =>
    refine .update rfl fun line hl => ⟨hl, fun response he => ?_, id⟩
    rw [hr] at he
    cases he
  | _ => exact .of_eq rfl

/-- the response carries the payload to `onMessageReceived` -/
def Carries (response payload : Bytes) : Prop :=
  toMessage response = some (.aiResponse payload) ∨
    toMessage response = some (.testResponse payload)

/-- the connection whose reply a listener has read and not handed over -/
def ListenerPc.holds : ListenerPc → Option Nat
  | .handle r _ | .deliver r _ => some r
  | _ => none

/-- what a listener has read is the reply -/
def ListenerPc.FromReply (s : State) : ListenerPc → Prop
  | .handle r response => (s.conn r).reply = some response
  | .deliver r payload => ∃ response, (s.conn r).reply = some response ∧ Carries response payload
  | _ => True

theorem afterMessage_holds (r : Nat) (response : Bytes) :
    (afterMessage r response).holds = some r ∨ (afterMessage r response).holds = none := by
  unfold afterMessage
  split
  · exact .inr rfl
  · exact .inl rfl
  · exact .inl rfl
  · exact .inr rfl

theorem afterMessage_fromReply {r : Nat} {response : Bytes}
    (h : (s.conn r).reply = some response) : (afterMessage r response).FromReply s := by
  unfold afterMessage
  split
  · trivial
  · exact ⟨response, h, .inl ‹_›⟩
  · exact ⟨response, h, .inr ‹_›⟩
  · trivial

structure Heard (s : State) : Prop where
  fromReply : ∀ c, (s.listener c).FromReply s
  taken : ∀ c r, (s.listener c).holds = some r →
    (s.conn r).taken = true ∧ ∃ line, (s.conn r).request = some line
  alone : ∀ c d r, (s.listener c).holds = some r → (s.listener d).holds = some r → c = d

theorem Heard.start (testMode : Bool) : Heard (startState testMode) where
  fromReply c := trivial
  taken c r h := by cases h
  alone c d r h := by cases h

theorem Heard.keep (h : Heard s) (hg : Grows s s') {c : Nat} :
    (s.listener c).FromReply s' ∧ ∀ r, (s.listener c).holds = some r →
      (s'.conn r).taken = true ∧ ∃ line, (s'.conn r).request = some line := by
  have hreply : ∀ r, (s.listener c).holds = some r → ∀ response,
      (s.conn r).reply = some response → (s'.conn r).reply = some response := by
    intro r hr
    obtain ⟨-, line, hl⟩ := h.taken c r hr
    exact (hg r line hl).2.1
  refine ⟨?_, fun r hr => ?_⟩
  · have hf := h.fromReply c
    revert hf hreply
    cases s.listener c with
    | handle r response => exact fun hreply hf => hreply r rfl response hf
    | deliver r payload =>
      rintro hreply ⟨response, h1, h2⟩
      exact ⟨response, hreply r rfl response h1, h2⟩
    | _ => exact fun _ _ => trivial
  · obtain ⟨ht, line, hl⟩ := h.taken c r hr
    exact ⟨(hg r line hl).2.2 ht, line, (hg r line hl).1⟩

theorem Heard.frame (h : Heard s) (hg : Grows s s')
    (hl : ∀ c, s'.listener c = s.listener c ∨ ((s'.listener c).holds = none ∧
      (s'.listener c).FromReply s')) : Heard s' := by
  have hold : ∀ c r, (s'.listener c).holds = some r → (s.listener c).holds = some r := by
    intro c r hr
    rcases hl c with e | ⟨e, -⟩
    · rw [← e]; exact hr
    · rw [e] at hr; cases hr
  refine ⟨fun c => ?_, fun c r hr => (h.keep hg).2 r (hold c r hr),
    fun c d r hc hd => h.alone c d r (hold c r hc) (hold d r hd)⟩
  rcases hl c with e | ⟨-, e⟩
  · rw [e]; exact (h.keep hg).1
  · exact e

/-- The listener of connection `c` comes to hold the reply of connection `r`, which nobody else
holds. -/
theorem Heard.hold (h : Heard s) (hg : Grows s s') {c r : Nat} {pc : ListenerPc}
    (hl : s'.listener = Function.update s.listener c pc)
    (hpc : pc.holds = some r ∨ pc.holds = none) (hf : pc.FromReply s')
    (ht : (s'.conn r).taken = true ∧ ∃ line, (s'.conn r).request = some line)
    (hno : ∀ d, d ≠ c → (s.listener d).holds ≠ some r) : Heard s' := by
  have hself : s'.listener c = pc := by rw [hl, Function.update_self]
  have hother : ∀ d, d ≠ c → s'.listener d = s.listener d := by
    intro d hd
    rw [hl, Function.update_of_ne hd]
  have hwho : ∀ d q, (s'.listener d).holds = some q →
      (d = c ∧ q = r) ∨ (d ≠ c ∧ (s.listener d).holds = some q ∧ q ≠ r) := by
    intro d q hq
    by_cases e : d = c
    · subst e
      rw [hself] at hq
      rcases hpc with hp | hp
      · exact .inl ⟨rfl, Option.some.inj (hq.symm.trans hp)⟩
      · rw [hp] at hq; cases hq
    · rw [hother d e] at hq
      refine .inr ⟨e, hq, ?_⟩
      rintro rfl
      exact hno d e hq
  refine ⟨fun d => ?_, fun d q hq => ?_, fun d e q hd he => ?_⟩
  · by_cases e : d = c
    · subst e; rw [hself]; exact hf
    · rw [hother d e]; exact (h.keep hg).1
  · rcases hwho d q hq with ⟨-, rfl⟩ | ⟨-, hq, -⟩
    · exact ht
    · exact (h.keep hg).2 q hq
  · rcases hwho d q hd with ⟨h1, h2⟩ | ⟨-, h1, h2⟩
    · rcases hwho e q he with ⟨h3, -⟩ | ⟨-, -, h4⟩
      · exact h1.trans h3.symm
      · exact absurd h2 h4
    · rcases hwho e q he with ⟨-, h4⟩ | ⟨-, h3, -⟩
      · exact absurd h4 h2
      · exact h.alone d e q h1 h3

theorem Heard.move (h : Heard s) (hs : Sent s) (hm : Move s l s') : Heard s' := by
  have hg := hs.grows hm
  have hsame : ∀ {f : Nat → ListenerPc}, f = s.listener → ∀ c, f c = s.listener c ∨
      ((f c).holds = none ∧ (f c).FromReply s') := fun e c => .inl (congrFun e c)
  have hdrop : ∀ {f : Nat → ListenerPc} (c : Nat) (pc : ListenerPc),
      f = Function.update s.listener c pc → pc.holds = none → pc.FromReply s' →
      ∀ d, f d = s.listener d ∨ ((f d).holds = none ∧ (f d).FromReply s') := by
    rintro f c pc rfl h1 h2 d
    by_cases e : d = c
    · subst e
      rw [Function.update_self]
      exact .inr ⟨h1, h2⟩
    · exact .inl (Function.update_of_ne e _ _)
  cases hm with
  | startListening t c hpc => exact h.frame hg (hdrop c .test rfl rfl trivial)
  | skip c hpc => exact h.frame hg (hdrop c _ rfl rfl trivial)
  | check c hpc => exact h.frame hg (hdrop c _ rfl rfl trivial)
  | noReader c hpc => exact h.frame hg (hdrop c _ rfl rfl trivial)
  | read c r hpc hr => exact h.frame hg (hdrop c _ rfl rfl trivial)
  | ended c r a hpc => exact h.frame hg (hdrop c _ rfl rfl trivial)
  | deliver c r payload line hpc hl => exact h.frame hg (hdrop c _ rfl rfl trivial)
  | setDisconnected c ops hpc => exact h.frame hg (hdrop c _ rfl rfl trivial)
  | closeNothing c part ops hpc hf => exact h.frame hg (hdrop c _ rfl rfl trivial)
  | close c d part ops hpc hf => exact h.frame hg (hdrop c _ rfl rfl trivial)
  | line c r response hpc hr ht =>
    obtain ⟨line, hl⟩ := Option.ne_none_iff_exists'.mp (hs.answered r (by simp [hr]))
    refine h.hold hg rfl (.inl rfl) (r := r) ?_ ⟨?_, line, ?_⟩ fun d _ hd => ?_
    · show (Function.update s.conn r _ r).reply = some response
      rw [Function.update_self]
      exact hr
    · show (Function.update s.conn r _ r).taken = true
      rw [Function.update_self]
    · show (Function.update s.conn r _ r).request = some line
      rw [Function.update_self]
      exact hl
    · rw [(h.taken d r hd).1] at ht
      cases ht
  | handle c r response m p hpc hm =>
    have hholds : (s.listener c).holds = some r := by rw [hpc]; rfl
    obtain ⟨ht, line, hl⟩ := h.taken c r hholds
    have hreply : (s.conn r).reply = some response := by
      have hf := h.fromReply c
      rw [hpc] at hf
      exact hf
    obtain ⟨h1, h2, h3⟩ := hg r line hl
    exact h.hold hg rfl (afterMessage_holds r response) (afterMessage_fromReply (h2 _ hreply))
      ⟨h3 ht, line, h1⟩ fun d hd he => hd (h.alone d c r he hholds)
  | _ => exact h.frame hg (hsame rfl)

theorem Move.holds (hm : Move s l s') {c r : Nat} (h : (s'.listener c).holds = some r) :
    (s.listener c).holds = some r ∨ (s.conn r).taken = false := by
  have hupd : ∀ (d : Nat) (pc : ListenerPc),
      (Function.update s.listener d pc c).holds = some r → pc.holds = none →
      (s.listener c).holds = some r := by
    intro d pc hu hn
    rcases Lts.update_cases (fun x : ListenerPc => x.holds = some r) hu with ⟨-, hnew⟩ | ⟨-, hold⟩
    · rw [hn] at hnew
      cases hnew
    · exact hold
  cases hm with
  | startListening t d hpc => exact .inl (hupd d _ h rfl)
  | skip d hpc => exact .inl (hupd d _ h rfl)
  | check d hpc => exact .inl (hupd d _ h rfl)
  | noReader d hpc => exact .inl (hupd d _ h rfl)
  | read d q hpc hr => exact .inl (hupd d _ h rfl)
  | ended d q a hpc => exact .inl (hupd d _ h rfl)
  | deliver d q payload line hpc hl => exact .inl (hupd d _ h rfl)
  | setDisconnected d ops hpc => exact .inl (hupd d _ h rfl)
  | closeNothing d part ops hpc hf => exact .inl (hupd d _ h rfl)
  | close d e part ops hpc hf => exact .inl (hupd d _ h rfl)
  | line d q response hpc hr ht =>
    by_cases e : c = d
    · subst e
      have hq : (ListenerPc.handle q response).holds = some r := by
        simpa [Function.update_self] using h
      cases hq
      exact .inr ht
    · exact .inl (by simpa [e] using h)
  | handle d q response m p hpc hm =>
    have h : (Function.update s.listener d (afterMessage q response) c).holds = some r := h
    rcases Lts.update_cases (fun x : ListenerPc => x.holds = some r) h with ⟨rfl, hnew⟩ | ⟨-, hold⟩
    · rcases afterMessage_holds q response with hq | hq <;> rw [hq] at hnew <;> cases hnew
      rw [hpc]
      exact .inl rfl
    · exact .inl hold
  | _ => exact .inl h

end Client
