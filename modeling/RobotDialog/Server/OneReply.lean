import RobotDialog.Server.Handler
import RobotDialog.Wire.Stall

/-!
# One request, one reply, one close

The handler on the bytes that a client sends, run without interference.

* `AiText`, `undisturbed`    what the calls return then;
* `Event`, `handle`          the handler's actions with what each send returned;
* `AiAnswer`, `TestAnswer`   the requests that get each kind of reply;
* `Due`                      the reply to a request, as a relation;
* `OneReplyOneClose`         one reply of the right type, and one close behind it;
* `one_reply_one_close_iff`  that is so unless the peer stops reading the reply.
-/

namespace Server
open CString Wire

/-- the `response` of a successful `ai_response_t`: a string in its buffer -/
structure AiText where
  text : Bytes
  noNul : 0 ∉ text
  fits : text.length ≤ maxAiResponseSize - 1

/-- the calls of a request that nothing disturbs, allocations succeeding -/
def undisturbed (stream : Bytes) (ai : ClientMessage → Option AiText)
    (testResponse : Bytes → Bytes) : Calls where
  received := receiveMessage stream
  parse := parseClientDialogMessage true
  generateAiResponse request := (ai request).map AiText.text
  parseAgain := parseClientDialogMessage true
  testResponse := testResponse

/-- what happens on `client_fd`; a send has its return value, none while it goes on -/
inductive Event where
  | sent (type : Nat) (data : Bytes) (rc : Option Int)
  | closed
  deriving DecidableEq, Repr

def Event.isSent : Event → Bool
  | .sent .. => true
  | .closed => false

/-- the actions when `send_message` returns `rc`: the handler only logs the return value, and nothing
comes behind a send that goes on -/
def perform (rc : Nat → Bytes → Option Int) : List Action → List Event
  | [] => []
  | .send type data :: acts =>
    .sent type data (rc type data) :: if (rc type data).isSome then perform rc acts else []
  | .close :: acts => .closed :: perform rc acts

/-- one request from its first byte to the close -/
def handle (stream : Bytes) (ai : ClientMessage → Option AiText) (testResponse : Bytes → Bytes)
    (rc : Nat → Bytes → Option Int) : List Event :=
  perform rc (processSingleRequestAndClose (undisturbed stream ai testResponse))

/-- every send returns -/
def returns (rc : Nat → Bytes → Int) (type : Nat) (data : Bytes) : Option Int := some (rc type data)

/-- what `send_message` returns on these results of `send` -/
def sends (rs : List SendResult) (type : Nat) (data : Bytes) : Option Int :=
  (sendMessage rs type data).2

/-- the message that the stream holds, if it is a request of type `type` that can be parsed -/
def Parsed (stream : Bytes) (type : Nat) (request : ClientMessage) : Prop :=
  ∃ msg, receiveMessage stream = some msg ∧ msg.type = type ∧
    parseClientDialogMessage true msg.data = some request

/-- an AI request that can be parsed and for which the AI call gives `text` -/
def AiAnswer (stream : Bytes) (ai : ClientMessage → Option AiText) (text : Bytes) : Prop :=
  ∃ request t, Parsed stream msgAiDialogRequest request ∧ ai request = some t ∧ text = t.text

/-- a test request that can be parsed, or an AI request that can be parsed and whose AI call
fails -/
def TestAnswer (stream : Bytes) (ai : ClientMessage → Option AiText) : Prop :=
  (∃ request, Parsed stream msgTestDialogRequest request) ∨
  ∃ request, Parsed stream msgAiDialogRequest request ∧ ai request = none

/-- the reply to a request -/
inductive Due (stream : Bytes) (ai : ClientMessage → Option AiText) (testResponse : Bytes → Bytes) :
    Nat → Bytes → Prop
  | answer {text : Bytes} (h : AiAnswer stream ai text) :
      Due stream ai testResponse msgAiDialogResponse text
  | test {request : ClientMessage} (h : Parsed stream msgTestDialogRequest request ∨
        Parsed stream msgAiDialogRequest request ∧ ai request = none) :
      Due stream ai testResponse msgTestDialogResponse (testResponse request.language)
  | invalid {msg : Message} (h : receiveMessage stream = some msg)
      (ht : msg.type = msgAiDialogRequest ∨ msg.type = msgTestDialogRequest)
      (hp : parseClientDialogMessage true msg.data = none) :
      Due stream ai testResponse msgError (ascii "Invalid request format")
  | unknown {msg : Message} (h : receiveMessage stream = some msg)
      (hai : msg.type ≠ msgAiDialogRequest) (htest : msg.type ≠ msgTestDialogRequest) :
      Due stream ai testResponse msgError (ascii "Unknown message type")

/-- a reply of this type with this text is sent -/
def Replied (events : List Event) (type : Nat) (text : Bytes) : Prop :=
  ∃ rc, .sent type text rc ∈ events

variable {stream : Bytes} {ai : ClientMessage → Option AiText}

theorem Parsed.unique {t t' : Nat} {r r' : ClientMessage} (h : Parsed stream t r)
    (h' : Parsed stream t' r') : t = t' ∧ r = r' := by
  obtain ⟨msg, hm, ht, hr⟩ := h
  obtain ⟨msg', hm', ht', hr'⟩ := h'
  obtain rfl : msg = msg' := Option.some.inj (hm.symm.trans hm')
  exact ⟨by omega, Option.some.inj (hr.symm.trans hr')⟩

theorem AiAnswer.unique {text text' : Bytes} (h : AiAnswer stream ai text)
    (h' : AiAnswer stream ai text') : text = text' := by
  obtain ⟨r, t, hr, ht, rfl⟩ := h
  obtain ⟨r', t', hr', ht', rfl⟩ := h'
  obtain rfl := (hr.unique hr').2
  rw [Option.some.inj (ht.symm.trans ht')]

theorem Parsed.received {t : Nat} {r : ClientMessage} (h : Parsed stream t r) :
    (receiveMessage stream).isSome := by
  obtain ⟨msg, hm, -⟩ := h
  rw [hm]
  rfl

theorem AiAnswer.received {text : Bytes} (h : AiAnswer stream ai text) :
    (receiveMessage stream).isSome := by
  obtain ⟨r, t, hr, -⟩ := h
  exact hr.received

theorem TestAnswer.received (h : TestAnswer stream ai) : (receiveMessage stream).isSome := by
  rcases h with ⟨r, hr⟩ | ⟨r, hr, -⟩
  · exact hr.received
  · exact hr.received

theorem AiAnswer.not_test {text : Bytes} (h : AiAnswer stream ai text) :
    ¬ TestAnswer stream ai := by
  obtain ⟨r, t, hr, ht, rfl⟩ := h
  rintro (⟨r', hr'⟩ | ⟨r', hr', hfail⟩)
  · exact absurd (hr.unique hr').1 (by decide)
  · obtain rfl := (hr.unique hr').2
    rw [ht] at hfail
    cases hfail

section
variable (testResponse : Bytes → Bytes) (rc : Nat → Bytes → Int)

theorem AiText.cut_eq (t : AiText) : cut maxAiResponseSize (cstr t.text) = t.text := by
  rw [cstr_eq_self t.noNul, cut_eq_self t.fits]

theorem testCase_undisturbed {msg : Message} {request : ClientMessage}
    (h : parseClientDialogMessage true msg.data = some request) :
    testCase (undisturbed stream ai testResponse) msg =
      [.send msgTestDialogResponse (testResponse request.language), .close] := by
  have hparse : (undisturbed stream ai testResponse).parseAgain msg.data = some request := h
  unfold testCase
  rw [hparse]
  rfl

theorem aiCase_parsed {calls : Calls} {msg : Message} {request : ClientMessage}
    (hparse : calls.parse msg.data = some request)
    (h : parseClientDialogMessage true msg.data = some request) :
    (∀ response, calls.generateAiResponse request = some response →
      aiCase calls msg =
        [.send msgAiDialogResponse (cut maxAiResponseSize (cstr response)), .close]) ∧
    (calls.generateAiResponse request = none → aiCase calls msg = testCase calls msg) := by
  obtain ⟨hp, hl, hc⟩ := parse_ne_nil h
  have hfields : ¬ (request.personality = [] ∨ request.language = [] ∨
      request.conversation = []) := by
    simp only [hp, hl, hc, or_self, not_false_eq_true]
  refine ⟨fun response hcall => ?_, fun hcall => ?_⟩
  · unfold aiCase
    simp only [hparse, if_neg hfields, hcall]
  · unfold aiCase
    simp only [hparse, if_neg hfields, hcall]

theorem aiCase_answered {msg : Message} {request : ClientMessage} {t : AiText}
    (h : parseClientDialogMessage true msg.data = some request) (ht : ai request = some t) :
    aiCase (undisturbed stream ai testResponse) msg =
      [.send msgAiDialogResponse t.text, .close] := by
  have hcall : (undisturbed stream ai testResponse).generateAiResponse request = some t.text := by
    show (ai request).map AiText.text = some t.text
    rw [ht]
    rfl
  rw [(@aiCase_parsed (undisturbed stream ai testResponse) msg request h h).1 _ hcall, t.cut_eq]

theorem aiCase_failed {msg : Message} {request : ClientMessage}
    (h : parseClientDialogMessage true msg.data = some request) (ht : ai request = none) :
    aiCase (undisturbed stream ai testResponse) msg =
      [.send msgTestDialogResponse (testResponse request.language), .close] := by
  have hcall : (undisturbed stream ai testResponse).generateAiResponse request = none := by
    show (ai request).map AiText.text = none
    rw [ht]
    rfl
  rw [(@aiCase_parsed (undisturbed stream ai testResponse) msg request h h).2 hcall,
    testCase_undisturbed testResponse h]

theorem testCase_rejected {msg : Message} (h : parseClientDialogMessage true msg.data = none) :
    testCase (undisturbed stream ai testResponse) msg =
      [.send msgError (ascii "Invalid request format"), .close] := by
  have hparse : (undisturbed stream ai testResponse).parseAgain msg.data = none := h
  unfold testCase
  rw [hparse]

theorem aiCase_rejected {msg : Message} (h : parseClientDialogMessage true msg.data = none) :
    aiCase (undisturbed stream ai testResponse) msg =
      [.send msgError (ascii "Invalid request format"), .close] := by
  have hparse : (undisturbed stream ai testResponse).parse msg.data = none := h
  unfold aiCase
  rw [hparse]

theorem handle_none {rc : Nat → Bytes → Option Int} (h : receiveMessage stream = none) :
    handle stream ai testResponse rc = [.closed] := by
  have hrec : (undisturbed stream ai testResponse).received = none := h
  unfold handle processSingleRequestAndClose
  rw [hrec]
  rfl

theorem process_some {msg : Message} (h : receiveMessage stream = some msg) :
    processSingleRequestAndClose (undisturbed stream ai testResponse) =
      if msg.type = msgAiDialogRequest then aiCase (undisturbed stream ai testResponse) msg
      else if msg.type = msgTestDialogRequest then testCase (undisturbed stream ai testResponse) msg
      else [.send msgError (ascii "Unknown message type"), .close] := by
  have hrec : (undisturbed stream ai testResponse).received = some msg := h
  unfold processSingleRequestAndClose
  rw [hrec]

/-- **The handler sends the reply that is due, and closes.** -/
theorem Due.process {type : Nat} {text : Bytes} (h : Due stream ai testResponse type text) :
    processSingleRequestAndClose (undisturbed stream ai testResponse) =
      [.send type text, .close] := by
  have hnum : (msgTestDialogRequest : Int) ≠ msgAiDialogRequest := by decide
  cases h with
  | answer h =>
    obtain ⟨request, t, ⟨msg, hmsg, ht, hparse⟩, hcall, rfl⟩ := h
    rw [process_some testResponse hmsg, if_pos ht, aiCase_answered testResponse hparse hcall]
  | test h =>
    rcases h with ⟨msg, hmsg, ht, hparse⟩ | ⟨⟨msg, hmsg, ht, hparse⟩, hcall⟩
    · rw [process_some testResponse hmsg, if_neg (by rw [ht]; exact hnum), if_pos ht,
        testCase_undisturbed testResponse hparse]
    · rw [process_some testResponse hmsg, if_pos ht, aiCase_failed testResponse hparse hcall]
  | invalid h ht hp =>
    rw [process_some testResponse h]
    rcases ht with ht | ht
    · rw [if_pos ht, aiCase_rejected testResponse hp]
    · rw [if_neg (by rw [ht]; exact hnum), if_pos ht, testCase_rejected testResponse hp]
  | unknown h hai htest => rw [process_some testResponse h, if_neg hai, if_neg htest]

theorem exists_due (ai : ClientMessage → Option AiText) (h : (receiveMessage stream).isSome) :
    ∃ type text, Due stream ai testResponse type text := by
  obtain ⟨msg, hmsg⟩ := Option.isSome_iff_exists.mp h
  by_cases htype : msg.type = msgAiDialogRequest ∨ msg.type = msgTestDialogRequest
  · cases hparse : parseClientDialogMessage true msg.data with
    | none => exact ⟨_, _, .invalid hmsg htype hparse⟩
    | some request =>
      rcases htype with hai | htest
      · have hp : Parsed stream msgAiDialogRequest request := ⟨msg, hmsg, hai, hparse⟩
        cases hcall : ai request with
        | none => exact ⟨_, _, .test (.inr ⟨hp, hcall⟩)⟩
        | some t => exact ⟨_, _, .answer ⟨request, t, hp, hcall, rfl⟩⟩
      · exact ⟨_, _, .test (.inl ⟨msg, hmsg, htest, hparse⟩)⟩
  · rw [not_or] at htype
    exact ⟨_, _, .unknown hmsg htype.1 htype.2⟩

end

section
variable {testResponse : Bytes → Bytes} {type : Nat} {text : Bytes}

theorem Due.unique {type' : Nat} {text' : Bytes} (h : Due stream ai testResponse type text)
    (h' : Due stream ai testResponse type' text') : type = type' ∧ text = text' := by
  have he := (h.process testResponse).symm.trans (h'.process testResponse)
  simpa using he

theorem Due.received (h : Due stream ai testResponse type text) :
    (receiveMessage stream).isSome := by
  cases h with
  | answer h => exact h.received
  | test h => exact TestAnswer.received (h.imp (fun h => ⟨_, h⟩) fun h => ⟨_, h⟩)
  | invalid h ht hp => rw [h]; rfl
  | unknown h hai htest => rw [h]; rfl

theorem Due.type_cases (h : Due stream ai testResponse type text) :
    type = msgAiDialogResponse ∨ type = msgTestDialogResponse ∨ type = msgError := by
  cases h with
  | answer h => exact .inl rfl
  | test h => exact .inr (.inl rfl)
  | invalid h ht hp => exact .inr (.inr rfl)
  | unknown h hai htest => exact .inr (.inr rfl)

theorem due_answer_iff : Due stream ai testResponse msgAiDialogResponse text ↔
    AiAnswer stream ai text := by
  refine ⟨fun h => ?_, .answer⟩
  generalize ht : msgAiDialogResponse = type at h
  cases h with
  | answer h => exact h
  | test h => exact absurd ht (by decide)
  | invalid h => exact absurd ht (by decide)
  | unknown h => exact absurd ht (by decide)

theorem due_test_iff : (∃ text, Due stream ai testResponse msgTestDialogResponse text) ↔
    TestAnswer stream ai := by
  constructor
  · rintro ⟨text, h⟩
    generalize ht : msgTestDialogResponse = type at h
    cases h with
    | answer h => exact absurd ht (by decide)
    | test h => exact h.imp (fun h => ⟨_, h⟩) fun h => ⟨_, h⟩
    | invalid h => exact absurd ht (by decide)
    | unknown h => exact absurd ht (by decide)
  · rintro (⟨request, h⟩ | ⟨request, h⟩)
    · exact ⟨_, .test (.inl h)⟩
    · exact ⟨_, .test (.inr h)⟩

theorem due_error_iff : (∃ text, Due stream ai testResponse msgError text) ↔
    (receiveMessage stream).isSome ∧ (¬ ∃ text, AiAnswer stream ai text) ∧
      ¬ TestAnswer stream ai := by
  have hai : msgError ≠ msgAiDialogResponse := by decide
  have htest : msgError ≠ msgTestDialogResponse := by decide
  constructor
  · rintro ⟨text, h⟩
    refine ⟨h.received, fun ⟨t, ht⟩ => ?_, fun ht => ?_⟩
    · exact hai (h.unique (due_answer_iff.mpr ht)).1
    · obtain ⟨t, ht⟩ := (@due_test_iff stream ai testResponse).mpr ht
      exact htest (h.unique ht).1
  · rintro ⟨hreceived, hno, hno'⟩
    obtain ⟨type, text, h⟩ := exists_due testResponse ai hreceived
    cases h with
    | answer h => exact absurd ⟨_, h⟩ hno
    | test h => exact absurd (h.imp (fun h => ⟨_, h⟩) fun h => ⟨_, h⟩) hno'
    | invalid h ht hp => exact ⟨_, .invalid h ht hp⟩
    | unknown h hai htest => exact ⟨_, .unknown h hai htest⟩

/-! ## the events -/

variable {rc : Nat → Bytes → Option Int}

theorem Due.handle (h : Due stream ai testResponse type text) :
    handle stream ai testResponse rc =
      .sent type text (rc type text) :: if (rc type text).isSome then [.closed] else [] := by
  unfold Server.handle
  rw [h.process]
  rfl

theorem replied_iff : Replied (handle stream ai testResponse rc) type text ↔
    Due stream ai testResponse type text := by
  unfold Replied
  constructor
  · rintro ⟨r, hr⟩
    cases hrec : receiveMessage stream with
    | none =>
      rw [handle_none testResponse hrec] at hr
      simp at hr
    | some msg =>
      obtain ⟨type', text', hdue⟩ := @exists_due stream testResponse ai (by rw [hrec]; rfl)
      rw [hdue.handle] at hr
      rcases List.mem_cons.mp hr with he | hr
      · cases he
        exact hdue
      · split at hr
        · simp at hr
        · cases hr
  · intro h
    rw [h.handle]
    exact ⟨_, List.mem_cons_self⟩

theorem countP_sent : (handle stream ai testResponse rc).countP Event.isSent =
    if (receiveMessage stream).isSome then 1 else 0 := by
  cases hrec : receiveMessage stream with
  | none =>
    rw [handle_none testResponse hrec]
    rfl
  | some msg =>
    obtain ⟨type, text, hdue⟩ := @exists_due stream testResponse ai (by rw [hrec]; rfl)
    rw [hdue.handle]
    split <;> rfl

/-- **What the handler does when its sends return**, case by case. -/
theorem handle_cases (stream : Bytes) (ai : ClientMessage → Option AiText)
    (testResponse : Bytes → Bytes) (rc : Nat → Bytes → Int) :
    (receiveMessage stream = none ∧ handle stream ai testResponse (returns rc) = [.closed]) ∨
    ∃ type text, Due stream ai testResponse type text ∧
      handle stream ai testResponse (returns rc) =
        [.sent type text (some (rc type text)), .closed] := by
  cases hrec : receiveMessage stream with
  | none => exact .inl ⟨rfl, handle_none testResponse hrec⟩
  | some msg =>
    obtain ⟨type, text, hdue⟩ := @exists_due stream testResponse ai (by rw [hrec]; rfl)
    exact .inr ⟨type, text, hdue, hdue.handle⟩

/-! ## one reply, one close -/

/-- **One request, one reply, one close**, on an endless sequence of results of `send`: after
finitely many of them the descriptor is closed, once and as the last action; one reply is sent if a
message was received and none otherwise; and the type of the reply says what happened. -/
structure OneReplyOneClose (stream : Bytes) (ai : ClientMessage → Option AiText)
    (testResponse : Bytes → Bytes) (rs : Nat → SendResult) : Prop where
  closed : ∃ n, ∀ m, n ≤ m → ∃ l,
    handle stream ai testResponse (sends (firsts rs m)) = l ++ [.closed] ∧ .closed ∉ l
  replies : ∀ n, (handle stream ai testResponse (sends (firsts rs n))).countP Event.isSent =
    if (receiveMessage stream).isSome then 1 else 0
  answer : ∀ n text, Replied (handle stream ai testResponse (sends (firsts rs n)))
    msgAiDialogResponse text ↔ AiAnswer stream ai text
  test : ∀ n, (∃ text, Replied (handle stream ai testResponse (sends (firsts rs n)))
    msgTestDialogResponse text) ↔ TestAnswer stream ai
  error : ∀ n, (∃ text, Replied (handle stream ai testResponse (sends (firsts rs n)))
    msgError text) ↔ (receiveMessage stream).isSome ∧ (¬ ∃ text, AiAnswer stream ai text) ∧
      ¬ TestAnswer stream ai

theorem Due.closed_iff (h : Due stream ai testResponse type text) (rs : Nat → SendResult) :
    (∃ n, ∀ m, n ≤ m → ∃ l,
      Server.handle stream ai testResponse (sends (firsts rs m)) = l ++ [.closed] ∧ .closed ∉ l) ↔
      ¬ Stalled (formatMessage type text).length rs := by
  rw [stalled_iff]
  constructor
  · rintro ⟨n, hn⟩ hrun
    obtain ⟨l, hl, hno⟩ := hn n le_rfl
    have hnone : sends (firsts rs n) type text = none :=
      (sendLoop_running_iff _ _).mpr (hrun n)
    rw [h.handle, hnone] at hl
    have hlast := congrArg List.getLast? hl
    rw [List.getLast?_concat] at hlast
    cases hlast
  · intro hnot
    push Not at hnot
    obtain ⟨n, hn⟩ := hnot
    refine ⟨n, fun m hm => ?_⟩
    have hsome : (sends (firsts rs m) type text).isSome := by
      rw [Option.isSome_iff_ne_none]
      intro hnone
      obtain ⟨hgo, hlt⟩ := (sendLoop_running_iff _ _).mp hnone
      have hless := hn fun r hr => hgo r ((firsts_sublist rs hm).mem hr)
      have hmono : taken rs n ≤ taken rs m := taken_mono rs hm
      exact absurd (hmono.trans_lt hlt) (not_lt.mpr hless)
    refine ⟨[.sent type text (sends (firsts rs m) type text)], ?_, by simp⟩
    rw [h.handle, if_pos hsome]
    rfl

/-- **When there is one reply and one close.**  Whatever the client sends, whatever the AI call gives
and whatever `send` returns: the handler never closes twice or before its last action, and it does
all of `OneReplyOneClose` unless the peer stops reading the reply that is due. -/
theorem one_reply_one_close_iff (stream : Bytes) (ai : ClientMessage → Option AiText)
    (testResponse : Bytes → Bytes) (rs : Nat → SendResult) :
    (∀ n, ∃ l, .closed ∉ l ∧ (handle stream ai testResponse (sends (firsts rs n)) = l ∨
      handle stream ai testResponse (sends (firsts rs n)) = l ++ [.closed])) ∧
    (OneReplyOneClose stream ai testResponse rs ↔
      ¬ ∃ type text, Due stream ai testResponse type text ∧
        Stalled (formatMessage type text).length rs) := by
  have hrest : (∃ n, ∀ m, n ≤ m → ∃ l,
      handle stream ai testResponse (sends (firsts rs m)) = l ++ [.closed] ∧ .closed ∉ l) →
      OneReplyOneClose stream ai testResponse rs := fun hclosed =>
    { closed := hclosed
      replies := fun n => countP_sent
      answer := fun n text => replied_iff.trans due_answer_iff
      test := fun n => (exists_congr fun text => replied_iff).trans due_test_iff
      error := fun n => (exists_congr fun text => replied_iff).trans due_error_iff }
  cases hrec : receiveMessage stream with
  | none =>
    refine ⟨fun n => ⟨[], List.not_mem_nil, .inr (handle_none testResponse hrec)⟩,
      iff_of_true (hrest ⟨0, fun m _ => ⟨[], handle_none testResponse hrec, List.not_mem_nil⟩⟩) ?_⟩
    rintro ⟨type, text, hdue, -⟩
    have hsome := hdue.received
    rw [hrec] at hsome
    cases hsome
  | some msg =>
    obtain ⟨type, text, hdue⟩ := @exists_due stream testResponse ai (by rw [hrec]; rfl)
    refine ⟨fun n => ⟨[.sent type text (sends (firsts rs n) type text)], by simp, ?_⟩, ?_⟩
    · rw [hdue.handle]
      split
      · exact .inr rfl
      · exact .inl rfl
    · have hclosed := hdue.closed_iff rs
      constructor
      · rintro h ⟨type', text', hdue', hstall⟩
        obtain ⟨rfl, rfl⟩ := hdue.unique hdue'
        exact hclosed.mp h.closed hstall
      · intro h
        exact hrest (hclosed.mpr fun hstall => h ⟨type, text, hdue, hstall⟩)

/-- A peer that sends a message of an unknown type and never reads: the handler never closes. -/
theorem reply_never_taken : ¬ OneReplyOneClose (ascii "9|x\n") (fun _ => none) id fun _ => .again := by
  intro h
  have hmsg : receiveMessage (ascii "9|x\n") = some ⟨9, 1, ascii "x"⟩ := by decide
  have hdue : Due (ascii "9|x\n") (fun _ => none) id msgError (ascii "Unknown message type") :=
    .unknown hmsg (by decide) (by decide)
  refine (hdue.closed_iff fun _ => .again).mp h.closed ⟨0, fun _ _ => rfl, fun k hk => ?_, by decide⟩
  exact absurd hk (Nat.not_lt_zero k)

end

end Server
