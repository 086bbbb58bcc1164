import RobotDialog.Client.Exchange

/-!
# What a failed AI call does to the dialogue

The client and the server together: the server answers each request with what its handler sends.
When an AI call fails the handler falls through and answers with a test response, and a test
response turns the client's message into a test request, for good.

* `World`            what the environment decides: payloads, AI outcomes, test texts;
* `Dialog`, `dialogStep`   the client, what it has sent, and the replies it has handled;
* `DialogMove`       the moves;
* `FallbackInv`      the message is a test request exactly behind a handled failure;
* `fallback_iff`     which request a turn sends, and which reply it gets;
* `fallback_stays`   an AI call that would succeed is not made.
-/

namespace Client
open Lts CString Wire Server

/-! ## the client and the server -/

/-- the payload of the request of each turn, the AI call of each turn (`none` is a failure), the
test texts, and what `println` appends -/
structure World where
  payload : Nat → Bytes
  outcome : Nat → Option AiText
  testResponse : Bytes → Bytes
  lineSeparator : Bytes

/-- a printed request: its line, its type, and the connections whose replies the client had handled
before -/
structure Asked where
  line : Line
  type : RequestType
  heard : List Nat
  deriving DecidableEq, Repr

/-- the client; the first request on each connection, which the server receives; every request
printed; and the connections whose replies have gone through `handleServerMessage` -/
structure Dialog where
  client : State
  asked : Nat → Option Asked
  sent : List Asked
  heard : List Nat

def World.bytes (W : World) (type : RequestType) (line : Line) : Bytes :=
  SocketClient.sendMessage W.lineSeparator type (line.payload.elim [] W.payload)

def World.serve (W : World) (a : Asked) : Option Bytes :=
  Client.serve W.testResponse (W.bytes a.type a.line) (W.outcome a.line.turn)

namespace Dialog

def prints (s : Dialog) (t : Nat) : Option Nat :=
  match s.client.sender t, s.client.writer with
  | .print, some d =>
    if (s.client.conn d).closed .writer ∨ (s.client.conn d).closed .socket then none else some d
  | _, _ => none

def request (s : Dialog) (t : Nat) : Asked :=
  ⟨⟨t, s.client.payload⟩, s.client.message, s.heard⟩

/-- the history behind a step of the client -/
def advance (s : Dialog) (l : Label) (client : State) : Dialog :=
  match l with
  | .sender t .run =>
    match s.prints t with
    | some d =>
      { client := client
        asked := Function.update s.asked d ((s.asked d).or (some (s.request t)))
        sent := s.sent ++ [s.request t]
        heard := s.heard }
    | none => { s with client := client }
  | .listener c .run =>
    match s.client.listener c with
    | .handle r _ => { s with client := client, heard := s.heard ++ [r] }
    | _ => { s with client := client }
  | _ => { s with client := client }

def serves (W : World) (s : Dialog) (c : Nat) (reply : Bytes) : Bool :=
  decide ((s.asked c).bind W.serve = some reply)

end Dialog

/-- what a label of the client is allowed to do: a reply of the server comes from its handler -/
def allowed (W : World) (s : Dialog) : Label → Bool
  | .server c reply => s.serves W c reply
  | _ => true

/-- one statement of the client, or a reply of the server to a request that it has received -/
def dialogStep (W : World) (l : Label) (s : Dialog) : Option Dialog :=
  if allowed W s l then (step l s.client).map (s.advance l) else none

/-- a client that was started with `TEST_MODE = false` -/
def startDialog : Dialog := ⟨startState false, fun _ => none, [], []⟩

/-! ## the moves -/

variable {W : World} {s s' : Dialog} {l : Label}

/-- a step of the client that prints nothing, handles no reply and receives none -/
structure Quiet (s s' : State) : Prop where
  message : s'.message = s.message
  request : ∀ d, (s'.conn d).request = (s.conn d).request
  reply : ∀ d, (s'.conn d).reply = (s.conn d).reply

theorem Quiet.of_eq {s s' : State} (h : s'.message = s.message) (hc : s'.conn = s.conn) :
    Quiet s s' :=
  ⟨h, fun _ => by rw [hc], fun _ => by rw [hc]⟩

theorem Quiet.update {s s' : State} {d : Nat} {x : Conn} (h : s'.message = s.message)
    (hc : s'.conn = Function.update s.conn d x) (hq : x.request = (s.conn d).request)
    (hr : x.reply = (s.conn d).reply) : Quiet s s' := by
  refine ⟨h, ?_, ?_⟩
  · rw [hc]
    exact (Function.forall_update_iff s.conn fun e y => y.request = (s.conn e).request).mpr
      ⟨hq, fun _ _ => rfl⟩
  · rw [hc]
    exact (Function.forall_update_iff s.conn fun e y => y.reply = (s.conn e).reply).mpr
      ⟨hr, fun _ _ => rfl⟩

theorem Move.quiet {s s' : State} (hs : Sent s) (hm : Move s l s')
    (hprint : ∀ t, l = .sender t .run → s.sender t ≠ .print)
    (hhandle : ∀ c r response, l = .listener c .run → s.listener c ≠ .handle r response)
    (hserver : ∀ c reply, l ≠ .server c reply) : Quiet s s' := by
  cases hm with
  | openSocket t hpc =>
    have hq := hs.fresh s.opened le_rfl
    have hr : (s.conn s.opened).reply = none := by
      by_contra h
      exact hs.answered s.opened h hq
    exact .update rfl rfl hq.symm hr.symm
  | print t d hpc hw => exact absurd hpc (hprint t rfl)
  | line c r response hpc hr ht => exact .update rfl rfl rfl rfl
  | handle c r response m p hpc hm => exact absurd hpc (hhandle c r response rfl)
  | close c d part ops hpc hf => exact .update rfl rfl rfl rfl
  | reply c reply line hl hr => exact absurd rfl (hserver c reply)
  | _ => exact .of_eq rfl rfl

inductive DialogMove (W : World) (s : Dialog) : Dialog → Prop
  | print (t d : Nat) (client : State) (hm : Move s.client (.sender t .run) client)
      (hmsg : client.message = s.client.message)
      (hconn : client.conn = Function.update s.client.conn d { s.client.conn d with
        request := (s.client.conn d).request.or (some ⟨t, s.client.payload⟩) }) :
      DialogMove W s
        { client := client
          asked := Function.update s.asked d ((s.asked d).or (some (s.request t)))
          sent := s.sent ++ [s.request t]
          heard := s.heard }
  | handle (c r : Nat) (response : Bytes) (client : State)
      (hm : Move s.client (.listener c .run) client)
      (hpc : s.client.listener c = .handle r response)
      (hmsg : client.message = (messageAfter s.client response).message)
      (hconn : client.conn = s.client.conn) :
      DialogMove W s { s with client := client, heard := s.heard ++ [r] }
  | serve (c : Nat) (reply : Bytes) (a : Asked) (client : State)
      (hm : Move s.client (.server c reply) client) (ha : s.asked c = some a)
      (hserve : W.serve a = some reply) (hmsg : client.message = s.client.message)
      (hconn : client.conn = Function.update s.client.conn c { s.client.conn c with
        reply := some reply }) :
      DialogMove W s { s with client := client }
  | quiet (l : Label) (client : State) (hm : Move s.client l client)
      (hq : Quiet s.client client) : DialogMove W s { s with client := client }

theorem messageAfter_conn (s : State) (response : Bytes) :
    (messageAfter s response).conn = s.conn := by
  obtain ⟨m, p, h⟩ := messageAfter_eq s response
  rw [h]

theorem DialogMove.of_sender {t : Nat} {a : SenderAct} {client : State} (hs : Sent s.client)
    (hst : senderStep s.client t a = some client) :
    DialogMove W s (s.advance (.sender t a) client) := by
  have hm := Move.of_senderStep hst
  have hquiet : ¬ (a = .run ∧ s.client.sender t = .print) → Quiet s.client client := by
    intro hno
    refine hm.quiet hs (fun t' ht' hpc => ?_) (fun c r response h => by cases h)
      (fun c reply h => by cases h)
    cases ht'
    exact hno ⟨rfl, hpc⟩
  by_cases hp : a = .run ∧ s.client.sender t = .print
  · obtain ⟨rfl, hpc⟩ := hp
    unfold senderStep at hst
    simp only [hpc] at hst
    unfold Dialog.advance Dialog.prints
    simp only [hpc]
    cases hw : s.client.writer with
    | none =>
      rw [hw] at hst
      obtain rfl := Option.some.inj hst
      exact .quiet _ _ hm (.of_eq rfl rfl)
    | some d =>
      rw [hw] at hst
      by_cases hclosed : (s.client.conn d).closed .writer ∨ (s.client.conn d).closed .socket
      · simp only [if_pos hclosed] at hst ⊢
        obtain rfl := Option.some.inj hst
        exact .quiet _ _ hm (.of_eq rfl rfl)
      · simp only [if_neg hclosed] at hst ⊢
        obtain rfl := Option.some.inj hst
        exact .print t d _ hm rfl rfl
  · have hadv : s.advance (.sender t a) client = { s with client := client } := by
      cases a with
      | run =>
        have hpc : s.client.sender t ≠ .print := fun h => hp ⟨rfl, h⟩
        have hnone : s.prints t = none := by
          unfold Dialog.prints
          split
          · exact absurd ‹_› hpc
          · rfl
        simp only [Dialog.advance, hnone]
      | fails => rfl
    rw [hadv]
    exact .quiet _ _ hm (hquiet hp)

theorem DialogMove.of_listener {c : Nat} {a : ListenerAct} {client : State} (hs : Sent s.client)
    (hst : listenerStep s.client c a = some client) :
    DialogMove W s (s.advance (.listener c a) client) := by
  have hm := Move.of_listenerStep hst
  by_cases hp : a = .run ∧ ∃ r response, s.client.listener c = .handle r response
  · obtain ⟨rfl, r, response, hpc⟩ := hp
    unfold listenerStep at hst
    simp only [hpc, Option.some.injEq] at hst
    unfold Dialog.advance
    simp only [hpc]
    subst hst
    exact .handle c r response _ hm hpc rfl (messageAfter_conn s.client response)
  · have hadv : s.advance (.listener c a) client = { s with client := client } := by
      cases a with
      | run =>
        unfold Dialog.advance
        simp only
        split
        · rename_i r response hpc
          exact absurd ⟨rfl, r, response, hpc⟩ hp
        · rfl
      | _ => rfl
    rw [hadv]
    refine .quiet _ _ hm (hm.quiet hs (fun t h => by cases h) (fun c' r response h hpc => ?_)
      fun c' reply h => by cases h)
    cases h
    exact hp ⟨rfl, r, response, hpc⟩

/-- **A step of the dialogue is a move.** -/
theorem DialogMove.of_step (hs : Sent s.client) (hst : dialogStep W l s = some s') :
    DialogMove W s s' := by
  unfold dialogStep at hst
  split at hst
  · rename_i hallowed
    obtain ⟨client, hclient, rfl⟩ := Option.map_eq_some_iff.mp hst
    cases l with
    | sender t a => exact .of_sender hs hclient
    | listener c a => exact .of_listener hs hclient
    | server c reply =>
      have hserves : (s.asked c).bind W.serve = some reply := of_decide_eq_true hallowed
      obtain ⟨a, ha, hreply⟩ := Option.bind_eq_some_iff.mp hserves
      have hm := Move.of_step hclient
      simp only [step, serverStep] at hclient
      split at hclient
      · obtain rfl := Option.some.inj hclient
        exact .serve c reply a _ hm ha hreply rfl rfl
      · cases hclient
    | flow a =>
      have hm := Move.of_flowStep hclient
      exact .quiet _ _ hm (hm.quiet hs (fun t h => by cases h) (fun c r response h => by cases h)
        fun c reply h => by cases h)
  · cases hst

/-! ## failed AI calls -/

/-- the server parsed an AI request and its AI call failed -/
def World.Fails (W : World) (a : Asked) : Prop :=
  (∃ request, Parsed (W.bytes a.type a.line) msgAiDialogRequest request) ∧
    W.outcome a.line.turn = none

/-- an AI request with this line is parsed, and the AI call of the turn succeeds -/
def World.Succeeds (W : World) (line : Line) : Prop :=
  (∃ request, Parsed (W.bytes .aiRequest line) msgAiDialogRequest request) ∧
    W.outcome line.turn ≠ none

/-- the AI call of the request on connection `r` failed -/
def Failed (W : World) (s : Dialog) (r : Nat) : Prop :=
  ∃ a, s.asked r = some a ∧ W.Fails a

theorem World.parsed_ai {type : RequestType} {line : Line} {request : ClientMessage}
    (h : Parsed (W.bytes type line) msgAiDialogRequest request) : type = .aiRequest := by
  have hcode := parsed_code h
  cases type with
  | aiRequest => rfl
  | testRequest => exact absurd hcode (by decide)

theorem World.parsed_test {type : RequestType} {line : Line} {request : ClientMessage}
    (h : Parsed (W.bytes type line) msgTestDialogRequest request) : type = .testRequest := by
  have hcode := parsed_code h
  cases type with
  | aiRequest => exact absurd hcode (by decide)
  | testRequest => rfl

theorem World.serve_ai {a : Asked} {reply : Bytes} (h : W.serve a = some reply) :
    (∃ p, toMessage reply = some (.aiResponse p)) ↔
      a.type = .aiRequest ∧ W.Succeeds a.line := by
  rw [(serve_response h).1]
  constructor
  · rintro ⟨text, request, t, hr, ht, -⟩
    have htype := W.parsed_ai hr
    have ho : W.outcome a.line.turn = some t := ht
    rw [htype] at hr
    exact ⟨htype, ⟨request, hr⟩, by simp [ho]⟩
  · rintro ⟨htype, ⟨request, hr⟩, ho⟩
    obtain ⟨t, ht⟩ := Option.ne_none_iff_exists'.mp ho
    rw [← htype] at hr
    exact ⟨t.text, request, t, hr, ht, rfl⟩

/-- It answers with a test response to a failed AI call, and to a test request. -/
theorem World.serve_test {a : Asked} {reply : Bytes} (h : W.serve a = some reply) :
    (W.Fails a → ∃ p, toMessage reply = some (.testResponse p)) ∧
      ((∃ p, toMessage reply = some (.testResponse p)) → W.Fails a ∨ a.type = .testRequest) := by
  rw [(serve_response h).2]
  refine ⟨?_, ?_⟩
  · rintro ⟨⟨request, hr⟩, ho⟩
    exact .inr ⟨request, hr, ho⟩
  · rintro (⟨request, hr⟩ | ⟨request, hr, ho⟩)
    · exact .inr (W.parsed_test hr)
    · exact .inl ⟨⟨request, hr⟩, ho⟩

theorem messageAfter_test (s : State) (response : Bytes) :
    (messageAfter s response).message = .testRequest ↔
      s.message = .testRequest ∨ ∃ p, toMessage response = some (.testResponse p) := by
  unfold messageAfter
  split
  · rename_i p hp
    refine iff_of_true ?_ (.inr ⟨p, hp⟩)
    split
    · assumption
    · rfl
  · rename_i hno
    exact ⟨.inl, fun h => h.resolve_right fun ⟨p, hp⟩ => hno p hp⟩

/-! ## the invariant -/

structure FallbackInv (W : World) (s : Dialog) : Prop where
  client : Sent s.client ∧ Heard s.client
  request : ∀ c, (s.client.conn c).request = (s.asked c).map Asked.line
  printed : ∀ c a, s.asked c = some a → a ∈ s.sent
  reply : ∀ c reply, (s.client.conn c).reply = some reply →
    ∃ a, s.asked c = some a ∧ W.serve a = some reply
  known : ∀ r ∈ s.heard, s.asked r ≠ none
  earlier : ∀ a ∈ s.sent, a.heard ⊆ s.heard
  message : s.client.message = .testRequest ↔ ∃ r ∈ s.heard, Failed W s r
  types : ∀ a ∈ s.sent, a.type = .testRequest ↔ ∃ r ∈ a.heard, Failed W s r

theorem FallbackInv.start : FallbackInv W startDialog where
  client := ⟨.start false, .start false⟩
  request c := rfl
  printed c a h := by cases h
  reply c reply h := by cases h
  known r h := by cases h
  earlier a h := by cases h
  message := by simp [startDialog, startState]
  types a h := by cases h

theorem FallbackInv.frame {client : State} (h : FallbackInv W s) (hm : Move s.client l client)
    (hmsg : client.message = s.client.message)
    (hreq : ∀ d, (client.conn d).request = (s.client.conn d).request)
    (hreply : ∀ d reply, (client.conn d).reply = some reply →
      (s.client.conn d).reply = some reply ∨ ∃ a, s.asked d = some a ∧ W.serve a = some reply) :
    FallbackInv W { s with client := client } where
  client := ⟨h.client.1.move hm, h.client.2.move h.client.1 hm⟩
  request c := (hreq c).trans (h.request c)
  printed := h.printed
  reply c reply hr := (hreply c reply hr).elim (h.reply c reply) id
  known := h.known
  earlier := h.earlier
  message := hmsg ▸ h.message
  types := h.types

/-- What has been asked on a connection stays, so a handled failure stays one. -/
theorem FallbackInv.failed_print (h : FallbackInv W s) {d : Nat} {a : Asked} {client : State}
    {sent : List Asked} {rs : List Nat} (hrs : rs ⊆ s.heard) :
    (∃ r ∈ rs, Failed W
      ⟨client, Function.update s.asked d ((s.asked d).or (some a)), sent, s.heard⟩ r) ↔
    ∃ r ∈ rs, Failed W s r := by
  refine exists_congr fun r => and_congr_right fun hr => ?_
  obtain ⟨b, hb⟩ := Option.ne_none_iff_exists'.mp (h.known r (hrs hr))
  have hkept : Function.update s.asked d ((s.asked d).or (some a)) r = s.asked r := by
    by_cases e : r = d
    · subst e
      rw [Function.update_self, hb]
      rfl
    · exact Function.update_of_ne e _ _
  unfold Failed
  show (∃ b, Function.update s.asked d ((s.asked d).or (some a)) r = some b ∧ _) ↔ _
  rw [hkept]

theorem related_update {α β : Type*} {f : Nat → α} {g : Nat → β} {d : Nat} {x : α} {y : β}
    (R : α → β → Prop) (hd : R x y) (h : ∀ e, R (f e) (g e)) (e : Nat) :
    R (Function.update f d x e) (Function.update g d y e) := by
  by_cases he : e = d
  · subst he
    rw [Function.update_self, Function.update_self]
    exact hd
  · rw [Function.update_of_ne he, Function.update_of_ne he]
    exact h e

theorem FallbackInv.print_move (h : FallbackInv W s) {t d : Nat} {client : State}
    (hm : Move s.client (.sender t .run) client) (hmsg : client.message = s.client.message)
    (hconn : client.conn = Function.update s.client.conn d { s.client.conn d with
      request := (s.client.conn d).request.or (some ⟨t, s.client.payload⟩) }) :
    FallbackInv W
      { client := client
        asked := Function.update s.asked d ((s.asked d).or (some (s.request t)))
        sent := s.sent ++ [s.request t]
        heard := s.heard } where
  client := ⟨h.client.1.move hm, h.client.2.move h.client.1 hm⟩
  request c := by
    rw [hconn]
    refine related_update (fun (x : Conn) (a : Option Asked) => x.request = a.map Asked.line) ?_
      h.request c
    show (s.client.conn d).request.or _ = _
    rw [h.request d]
    cases s.asked d <;> rfl
  printed := by
    refine (Function.forall_update_iff s.asked fun _ x => ∀ a, x = some a →
      a ∈ s.sent ++ [s.request t]).mpr ⟨fun a ha => ?_, fun c _ a ha => ?_⟩
    · cases hb : s.asked d with
      | none =>
        rw [hb] at ha
        exact List.mem_append_right _ (List.mem_singleton.mpr (Option.some.inj ha).symm)
      | some b =>
        rw [hb] at ha
        exact List.mem_append_left _ (h.printed d a (hb.trans ha))
    · exact List.mem_append_left _ (h.printed c a ha)
  reply c := by
    rw [hconn]
    refine related_update (fun (x : Conn) (b : Option Asked) => ∀ reply, x.reply = some reply →
      ∃ a, b = some a ∧ W.serve a = some reply) (fun reply hr => ?_) h.reply c
    obtain ⟨a, ha, hserve⟩ := h.reply d reply hr
    exact ⟨a, by rw [ha]; rfl, hserve⟩
  known := by
    intro r hr
    refine (Function.forall_update_iff s.asked fun c x => c ∈ s.heard → x ≠ none).mpr
      ⟨fun _ => by simp, fun c _ => h.known c⟩ r hr
  earlier a ha := by
    rcases List.mem_append.mp ha with ha | ha
    · exact h.earlier a ha
    · obtain rfl := List.mem_singleton.mp ha
      exact List.Subset.refl _
  message := by
    rw [h.failed_print (List.Subset.refl _), ← h.message, hmsg]
  types a ha := by
    rcases List.mem_append.mp ha with ha | ha
    · rw [h.failed_print (h.earlier a ha)]
      exact h.types a ha
    · obtain rfl := List.mem_singleton.mp ha
      exact h.message.trans (h.failed_print (List.Subset.refl _)).symm

theorem FallbackInv.handle_move (h : FallbackInv W s) {c r : Nat} {response : Bytes}
    {client : State} (hm : Move s.client (.listener c .run) client)
    (hpc : s.client.listener c = .handle r response)
    (hmsg : client.message = (messageAfter s.client response).message)
    (hconn : client.conn = s.client.conn) :
    FallbackInv W { s with client := client, heard := s.heard ++ [r] } := by
  have hreply : (s.client.conn r).reply = some response := by
    have hf := h.client.2.fromReply c
    rw [hpc] at hf
    exact hf
  obtain ⟨a, ha, hserve⟩ := h.reply r response hreply
  have hfailed : Failed W s r ↔ W.Fails a := by
    refine ⟨?_, fun hf => ⟨a, ha, hf⟩⟩
    rintro ⟨b, hb, hf⟩
    obtain rfl := Option.some.inj (ha.symm.trans hb)
    exact hf
  have hheard : (∃ q ∈ s.heard ++ [r], Failed W s q) ↔
      (∃ q ∈ s.heard, Failed W s q) ∨ Failed W s r := by
    simp only [List.mem_append, List.mem_singleton, or_and_right, exists_or, exists_eq_left]
  have hsent := h.printed r a ha
  refine ⟨⟨h.client.1.move hm, h.client.2.move h.client.1 hm⟩, fun d => ?_, h.printed,
    fun d reply hr => ?_, fun q hq => ?_, fun b hb => ?_, ?_, h.types⟩
  · rw [hconn]
    exact h.request d
  · rw [hconn] at hr
    exact h.reply d reply hr
  · rcases List.mem_append.mp hq with hq | hq
    · exact h.known q hq
    · obtain rfl := List.mem_singleton.mp hq
      rw [ha]
      simp
  · exact List.subset_append_of_subset_left _ (h.earlier b hb)
  · show client.message = .testRequest ↔ ∃ q ∈ s.heard ++ [r], Failed W s q
    rw [hmsg, messageAfter_test, hheard, h.message, hfailed]
    obtain ⟨hfails, htest⟩ := W.serve_test hserve
    constructor
    · rintro (hold | hresponse)
      · exact .inl hold
      · rcases htest hresponse with hf | htype
        · exact .inr hf
        · -- a test request was printed behind a handled failure
          obtain ⟨q, hq, hf⟩ := (h.types a hsent).mp htype
          exact .inl ⟨q, h.earlier a hsent hq, hf⟩
    · exact Or.imp id hfails

theorem FallbackInv.move (h : FallbackInv W s) (hm : DialogMove W s s') : FallbackInv W s' := by
  cases hm with
  | print t d client hm hmsg hconn => exact h.print_move hm hmsg hconn
  | handle c r response client hm hpc hmsg hconn => exact h.handle_move hm hpc hmsg hconn
  | serve c reply a client hm ha hserve hmsg hconn =>
    refine h.frame hm hmsg ?_ ?_
    · rw [hconn]
      exact (Function.forall_update_iff s.client.conn
        fun d x => x.request = (s.client.conn d).request).mpr ⟨rfl, fun _ _ => rfl⟩
    · rw [hconn]
      refine (Function.forall_update_iff s.client.conn fun d x => ∀ reply', x.reply = some reply' →
        (s.client.conn d).reply = some reply' ∨
          ∃ a, s.asked d = some a ∧ W.serve a = some reply').mpr ⟨?_, fun d _ reply' => .inl⟩
      rintro reply' hr
      obtain rfl := Option.some.inj hr
      exact .inr ⟨a, ha, hserve⟩
  | quiet l client hm hq =>
    exact h.frame hm hq.message hq.request fun d reply hr => .inl ((hq.reply d).symm.trans hr)

theorem FallbackInv.of_reach (h : Reach (dialogStep W) Any startDialog s) : FallbackInv W s :=
  h.inv (FallbackInv W) .start fun _ _ _ _ hI _ hst => hI.move (.of_step hI.client.1 hst)

/-- **When a failed AI call stays with the client.**  In every run a printed request is an AI
request iff none of the replies handled before it was printed answered a failed AI call; and the
reply to a request is an AI response iff that is so and the AI call of its turn succeeds. -/
theorem fallback_iff (W : World) (s : Dialog) (h : Reach (dialogStep W) Any startDialog s) :
    (∀ a ∈ s.sent, a.type = .aiRequest ↔ ∀ r ∈ a.heard, ¬ Failed W s r) ∧
      ∀ c a reply, s.asked c = some a → (s.client.conn c).reply = some reply →
        ((∃ p, toMessage reply = some (.aiResponse p)) ↔
          (∀ r ∈ a.heard, ¬ Failed W s r) ∧ W.Succeeds a.line) := by
  have hI := FallbackInv.of_reach h
  have htypes : ∀ a ∈ s.sent, a.type = .aiRequest ↔ ∀ r ∈ a.heard, ¬ Failed W s r := by
    intro a ha
    have htype : a.type = .aiRequest ↔ ¬ a.type = .testRequest := by cases a.type <;> simp
    rw [htype, hI.types a ha, not_exists]
    exact forall_congr' fun r => not_and
  refine ⟨htypes, fun c a reply ha hr => ?_⟩
  obtain ⟨b, hb, hserve⟩ := hI.reply c reply hr
  obtain rfl := Option.some.inj (ha.symm.trans hb)
  rw [W.serve_ai hserve, htypes a (hI.printed c a ha)]

/-! ## two turns -/

def bene : AiText := ⟨ascii "Bene.", by decide, by decide⟩

/-- every turn has the same payload and its own outcome -/
def twoTurns (first second : Option AiText) : World where
  payload _ := ascii "P|it|1"
  outcome t := if t = 0 then first else second
  testResponse _ := ascii "Ciao."
  lineSeparator := [lf]

/-- turn 0 is answered, its listener ends, and turn 1 is answered -/
def twoTurnsRun (reply reply' : Bytes) : List Label :=
  askRun 0 0 ++ answerRun 0 reply ++ speakRun ++ List.replicate 9 (.listener 0 .run) ++
    askRun 1 1 ++ answerRun 1 reply'

theorem fallback_iff_two :
    ∃ s, Reach (dialogStep (twoTurns (some bene) none)) Any startDialog s ∧
      s.sent = [⟨⟨0, some 0⟩, .aiRequest, []⟩, ⟨⟨1, some 1⟩, .aiRequest, [0]⟩] ∧
      (∀ a ∈ s.sent, a.type = .aiRequest ↔
        ∀ r ∈ a.heard, ¬ Failed (twoTurns (some bene) none) s r) ∧
      ∀ c a reply, s.asked c = some a → (s.client.conn c).reply = some reply →
        ((∃ p, toMessage reply = some (.aiResponse p)) ↔
          (∀ r ∈ a.heard, ¬ Failed (twoTurns (some bene) none) s r) ∧
            (twoTurns (some bene) none).Succeeds a.line) := by
  have hrun : (exec (dialogStep (twoTurns (some bene) none)) startDialog
      (twoTurnsRun (ascii "3|Bene.") (ascii "4|Ciao."))).map Dialog.sent =
      some [⟨⟨0, some 0⟩, .aiRequest, []⟩, ⟨⟨1, some 1⟩, .aiRequest, [0]⟩] := by
    decide +kernel
  obtain ⟨s, hs, hv⟩ := Option.map_eq_some_iff.mp hrun
  have hreach := Reach.of_exec _ hs
  exact ⟨s, hreach, hv, fallback_iff _ s hreach⟩

/-- **A failure that stays.**  The AI call of turn 0 fails.  Turn 1 sends a test request and gets a
test response, although its AI call would succeed. -/
theorem fallback_stays :
    ∃ s a reply, Reach (dialogStep (twoTurns none (some bene))) Any startDialog s ∧
      a ∈ s.sent ∧ a.line.turn = 1 ∧ a.type = .testRequest ∧ s.asked 1 = some a ∧
      (s.client.conn 1).reply = some reply ∧
      toMessage reply = some (.testResponse (ascii "Ciao.")) ∧
      (twoTurns none (some bene)).Succeeds a.line := by
  have hrun : (exec (dialogStep (twoTurns none (some bene))) startDialog
      (twoTurnsRun (ascii "4|Ciao.") (ascii "4|Ciao."))).map
        (fun s => (s.sent, s.asked 1, (s.client.conn 1).reply)) =
      some ([⟨⟨0, some 0⟩, .aiRequest, []⟩, ⟨⟨1, some 1⟩, .testRequest, [0]⟩],
        some ⟨⟨1, some 1⟩, .testRequest, [0]⟩, some (ascii "4|Ciao.")) := by
    decide +kernel
  obtain ⟨s, hs, hv⟩ := Option.map_eq_some_iff.mp hrun
  obtain ⟨hsent, hv⟩ := Prod.mk.inj hv
  obtain ⟨hasked, hreply⟩ := Prod.mk.inj hv
  have hparsed : Parsed ((twoTurns none (some bene)).bytes .aiRequest ⟨1, some 1⟩)
      msgAiDialogRequest ⟨ascii "P", ascii "it", ascii "1", true⟩ :=
    ⟨⟨1, 6, ascii "P|it|1"⟩, by decide +kernel, rfl, by decide +kernel⟩
  refine ⟨s, ⟨⟨1, some 1⟩, .testRequest, [0]⟩, ascii "4|Ciao.", Reach.of_exec _ hs, ?_, rfl, rfl,
    hasked, hreply, by decide +kernel, ⟨_, hparsed⟩, by simp [twoTurns]⟩
  rw [hsent]
  simp

end Client
