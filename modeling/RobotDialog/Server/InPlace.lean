import RobotDialog.Server.Http
import RobotDialog.Wire.InPlace

/-!
# One request, in place

`process_single_request_and_close` on its buffers, from the bytes that `recv` gives to the bytes that
`send` takes: `receive_message`, `parse_client_dialog_message`, the call of the AI, the `snprintf`
into `response_ai`, and `send_message` with its format buffer and its loop.

* `sendLoop`, `sendMessage`          sending;
* `processSingleRequestAndClose`     the handler;
* `sendMessage_spec`                 `send` reads bytes of the message only;
* `handler_in_place`                 there is no fault, and what happens on the descriptor is what
                                     the handler on strings does.
-/

namespace InPlace
open CString Memory Wire Server

/-! ## sending -/

/-- what the local arrays hold before they are written -/
structure Garbage where
  lineBuffer : Fin (maxMessageSize + 64) → Option UInt8
  responseAi : Fin maxAiResponseSize → Option UInt8
  messageBuffer : Fin (maxMessageSize + 32) → Option UInt8

/-- the array of a string literal -/
def literal (s : Bytes) : Block := written s ++ [some 0]

/-- the loop of `send_message`, which passes all bytes from `totalSent` on to `send` -/
def sendLoop (m : Block) (messageLen : Nat) : List SendResult → Nat → Option (Bytes × Option Int)
  | [], totalSent => return ([], if totalSent < messageLen then none else some 0)
  | r :: rs, totalSent =>
    if totalSent < messageLen then do
      let buf ← loads m totalSent (messageLen - totalSent)
      match r with
      | .sent n =>
        if n = 0 then return ([], some (-1))
        else
          let (written, rc) ← sendLoop m messageLen rs (totalSent + n)
          return (buf.take n ++ written, rc)
      | .again => sendLoop m messageLen rs totalSent
      | .error => return ([], some (-1))
    else return ([], some 0)

/-- the text that `send_message` formats -/
def messageText (type : Nat) (data : Block) : Option Bytes := do
  if 0 < (← strlen data 0) then return decimal type ++ bar :: ((← text data 0) ++ [lf])
  else return decimal type ++ [bar, lf]

def sendMessage (messageBuffer : Fin (maxMessageSize + 32) → Option UInt8) (rs : List SendResult)
    (type : Nat) (data : Block) : Option (Bytes × Option Int) := do
  let m ← snprintf (List.ofFn messageBuffer) (maxMessageSize + 32) (← messageText type data)
  sendLoop m (← strlen m 0) rs 0

/-! ## the handler -/

/-- what happens on the descriptor: the bytes that `send` takes, and whether the descriptor is closed,
which it is not while `send_message` goes on -/
structure Done where
  written : Bytes
  closed : Bool
  deriving DecidableEq, Repr

section
variable (g : Garbage) (rs : List SendResult)

/-- a reply, and `close` behind it -/
def reply (type : Nat) (data : Block) : Option (Except Http.Fault Done) := do
  let (written, rc) ← sendMessage g.messageBuffer rs type data
  return .ok ⟨written, rc.isSome⟩

/-- `case MSG_TEST_DIALOG_REQUEST` -/
def testCase (strdupOk : Bool) (testResponse : Bytes → Bytes) (data : Block) :
    Option (Except Http.Fault Done) := do
  match ← parseClientDialogMessage strdupOk data with
  | none => reply g rs msgError (literal (ascii "Invalid request format"))
  | some request =>
    reply g rs msgTestDialogResponse (literal (testResponse (← text request.language 0)))

variable (strdupOk strdupOk' : Bool) (env : Http.Env) (apiKey : Bytes)
  (testResponse : Bytes → Bytes)

/-- `case MSG_AI_DIALOG_REQUEST`; `generate_ai_response` clears the response before it writes the
text into it -/
def aiCase (data : Block) : Option (Except Http.Fault Done) := do
  match ← parseClientDialogMessage strdupOk data with
  | none => reply g rs msgError (literal (ascii "Invalid request format"))
  | some request =>
    if (← strlen request.personality 0) = 0 then
      reply g rs msgError (literal (ascii "Missing required fields"))
    else if (← strlen request.language 0) = 0 then
      reply g rs msgError (literal (ascii "Missing required fields"))
    else if (← strlen request.conversation 0) = 0 then
      reply g rs msgError (literal (ascii "Missing required fields"))
    else
      match Http.generateAiResponse env apiKey (← text request.personality 0)
          (← text request.language 0) (← text request.conversation 0) with
      | .error fault => return .error fault
      | .ok out =>
        if out.result = 0 ∧ out.response.success ≠ 0 then
          let aiResponse := field maxAiResponseSize out.response.response
          let responseAi ← snprintf (List.ofFn g.responseAi) maxAiResponseSize (← text aiResponse 0)
          reply g rs msgAiDialogResponse responseAi
        else testCase g rs strdupOk' testResponse data   -- falls through

def processSingleRequestAndClose (stream : Bytes) : Option (Except Http.Fault Done) := do
  match ← receiveMessage g.lineBuffer stream with
  | none => return .ok ⟨[], true⟩
  | some msg =>
    if msg.type = msgAiDialogRequest then
      aiCase g rs strdupOk strdupOk' env apiKey testResponse msg.data
    else if msg.type = msgTestDialogRequest then testCase g rs strdupOk' testResponse msg.data
    else reply g rs msgError (literal (ascii "Unknown message type"))

end

/-! ## what is sent -/

theorem sendLoop_spec (msg : Bytes) (post : Block) (rs : List SendResult) (totalSent : Nat) :
    sendLoop (written msg ++ post) msg.length rs totalSent =
      some (Wire.sendLoop rs (msg.drop totalSent)) := by
  induction rs generalizing totalSent with
  | nil =>
    unfold sendLoop
    by_cases hlt : totalSent < msg.length
    · rw [if_pos hlt, List.drop_eq_getElem_cons hlt]
      rfl
    · rw [if_neg hlt, List.drop_of_length_le (by omega)]
      rfl
  | cons r rs ih =>
    unfold sendLoop
    by_cases hlt : totalSent < msg.length
    · rw [if_pos hlt, loads_drop msg totalSent hlt.le, Option.bind_eq_bind, Option.bind_some]
      have hcons := List.drop_eq_getElem_cons hlt
      cases r with
      | sent n =>
        by_cases hn : n = 0
        · subst hn
          rw [hcons]
          rfl
        · have hfun : Wire.sendLoop (.sent n :: rs) (msg.drop totalSent) =
              ((msg.drop totalSent).take n ++ (Wire.sendLoop rs (msg.drop (totalSent + n))).1,
                (Wire.sendLoop rs (msg.drop (totalSent + n))).2) := by
            rw [← List.drop_drop]
            rw [hcons]
            exact if_neg hn
          show (if n = 0 then _ else _) = _
          rw [if_neg hn, ih, hfun]
          rfl
      | again =>
        have hfun : Wire.sendLoop (.again :: rs) (msg.drop totalSent) =
            Wire.sendLoop rs (msg.drop totalSent) := by
          rw [hcons]
          rfl
        rw [hfun]
        exact ih totalSent
      | error =>
        rw [hcons]
        rfl
    · rw [if_neg hlt, List.drop_of_length_le (by omega)]
      cases r <;> rfl

/-- **`send_message`** on an array that holds a string: it stores inside of its buffer, and `send`
takes what it takes of the message. -/
theorem sendMessage_spec (messageBuffer : Fin (maxMessageSize + 32) → Option UInt8)
    (rs : List SendResult) (type : Nat) (b : Bytes) (post : Block) :
    sendMessage messageBuffer rs type (written b ++ some 0 :: post) =
      some (Wire.sendMessage rs type b) := by
  obtain ⟨rest, hrest⟩ := written_cstr b post
  have h0 : 0 ∉ cstr b := nul_not_mem_cstr b
  have hstrlen := strlen_string [] h0 rest
  have htext := text_string [] h0 rest
  rw [List.nil_append, List.length_nil] at hstrlen htext
  have hformat : messageText type (written b ++ some 0 :: post) =
      some (if cstr b ≠ [] then decimal type ++ bar :: (cstr b ++ [lf])
        else decimal type ++ [bar, lf]) := by
    unfold messageText
    rw [hrest, hstrlen, htext, Option.bind_eq_bind, Option.bind_some]
    by_cases hnil : cstr b = []
    · rw [hnil]
      rfl
    · rw [if_pos (List.length_pos_of_ne_nil hnil), if_pos hnil]
      rfl
  have hdecimal : (0 : UInt8) ∉ decimal type := not_mem_decimal (by decide) type
  have hclean : 0 ∉ formatMessage type b := by
    intro h
    have hmem := List.mem_of_mem_take h
    split at hmem
    · simp only [List.mem_append, List.mem_cons, List.not_mem_nil, or_false] at hmem
      rcases hmem with h | h | h | h
      · exact hdecimal h
      · exact absurd h (by decide)
      · exact h0 h
      · exact absurd h (by decide)
    · simp only [List.mem_append, List.mem_cons, List.not_mem_nil, or_false] at hmem
      rcases hmem with h | h | h
      · exact hdecimal h
      · exact absurd h (by decide)
      · exact absurd h (by decide)
  have hbuffer : (List.ofFn messageBuffer).length = maxMessageSize + 32 := List.length_ofFn
  obtain ⟨tail, htail⟩ := @snprintf_over (List.ofFn messageBuffer) (by rw [hbuffer]; decide)
    (if cstr b ≠ [] then decimal type ++ bar :: (cstr b ++ [lf]) else decimal type ++ [bar, lf])
  rw [hbuffer] at htail
  have hlen := strlen_string [] hclean tail
  rw [List.nil_append, List.length_nil] at hlen
  unfold sendMessage
  rw [hformat, Option.bind_eq_bind, Option.bind_some, htail]
  show (strlen (written (formatMessage type b) ++ some 0 :: tail) 0).bind _ = _
  rw [hlen, Option.bind_some]
  exact sendLoop_spec _ _ rs 0

/-! ## the handler on strings -/

/-- what the handler on strings does on the descriptor: it sends at most one message -/
def outcome (rs : List SendResult) : List Action → Done
  | .send type data :: _ =>
    ⟨(Wire.sendMessage rs type data).1, (Wire.sendMessage rs type data).2.isSome⟩
  | _ => ⟨[], true⟩

theorem reply_spec (g : Garbage) (rs : List SendResult) (type : Nat) (b : Bytes) (post : Block)
    (acts : List Action) :
    reply g rs type (written b ++ some 0 :: post) =
      some (.ok (outcome rs (.send type b :: acts))) := by
  unfold reply
  rw [sendMessage_spec]
  rfl

/-- a string that leaves room for its NUL in an array of `size` bytes -/
def Fits (size : Nat) (s : Bytes) : Prop := 0 ∉ s ∧ s.length < size

theorem Fits.strlen {size : Nat} {s : Bytes} (h : Fits size s) :
    strlen (field size s) 0 = some s.length := by
  rw [field_eq h.2]
  exact strlen_string [] h.1 _

theorem Fits.text {size : Nat} {s : Bytes} (h : Fits size s) : text (field size s) 0 = some s := by
  rw [field_eq h.2]
  exact text_string [] h.1 _

theorem parse_fields_fit {strdupOk : Bool} {data : Bytes} {m : ClientMessage}
    (h : Wire.parseClientDialogMessage strdupOk data = some m) :
    Fits maxPersonalitySize m.personality ∧ Fits maxLanguageSize m.language ∧
      Fits maxConversationSize m.conversation := by
  have hcut : ∀ {t : Bytes} {size : Nat}, t ∈ tokens bar (cstr data) → 0 < size →
      Fits size (cut size t) := by
    intro t size ht hsize
    refine ⟨fun h0 => nul_not_mem_cstr data ?_, ?_⟩
    · exact (mem_tokens ht).2.2 0 (List.mem_of_mem_take h0)
    · have := List.length_take_le (size - 1) t
      unfold cut
      omega
  cases strdupOk with
  | false =>
    rw [parse_no_memory] at h
    cases h
  | true =>
    obtain ⟨p, hp, l, hl, c, hc, rfl⟩ := parse_some h
    exact ⟨hcut hp (by decide), hcut hl (by decide), hcut hc (by decide)⟩

section
variable (g : Garbage) (rs : List SendResult) (strdupOk strdupOk' : Bool) (env : Http.Env)
  (apiKey : Bytes) (testResponse : Bytes → Bytes)

/-- the calls of the handler on strings -/
def calls (stream : Bytes) : Calls where
  received := Wire.receiveMessage stream
  parse := Wire.parseClientDialogMessage strdupOk
  generateAiResponse := Http.aiResponse env apiKey
  parseAgain := Wire.parseClientDialogMessage strdupOk'
  testResponse := testResponse

variable {msg : Message} (h0 : 0 ∉ msg.data) (tail : Block) (stream : Bytes)
include h0

theorem testCase_spec :
    testCase g rs strdupOk' testResponse (written msg.data ++ some 0 :: tail) =
      some (.ok (outcome rs (Server.testCase
        (calls strdupOk strdupOk' env apiKey testResponse stream) msg))) := by
  have hagain : (calls strdupOk strdupOk' env apiKey testResponse stream).parseAgain msg.data =
      Wire.parseClientDialogMessage strdupOk' msg.data := rfl
  unfold testCase Server.testCase
  rw [parse_spec strdupOk' h0, Option.bind_eq_bind, Option.bind_some, hagain]
  cases hparse : Wire.parseClientDialogMessage strdupOk' msg.data with
  | none => exact reply_spec g rs _ _ [] _
  | some request =>
    show (text (field maxLanguageSize request.language) 0).bind _ = _
    rw [(parse_fields_fit hparse).2.1.text, Option.bind_some]
    exact reply_spec g rs _ _ [] _

/-- The AI case: it does what the handler on strings does, unless the call of the AI crashes. -/
theorem aiCase_spec :
    ∃ r, aiCase g rs strdupOk strdupOk' env apiKey testResponse
        (written msg.data ++ some 0 :: tail) = some r ∧
      (∀ done, r = .ok done → done = outcome rs (Server.aiCase
        (calls strdupOk strdupOk' env apiKey testResponse stream) msg)) ∧
      ∀ fault, r = .error fault ↔ ∃ request, Wire.parseClientDialogMessage strdupOk msg.data =
        some request ∧ Http.generateAiResponse env apiKey request.personality request.language
          request.conversation = .error fault := by
  have hok : ∀ {done done' : Done}, done' = done → ∀ d, (.ok done' : Except Http.Fault Done) =
      .ok d → d = done := fun e d hd => (Except.ok.inj hd).symm.trans e
  have htest := testCase_spec g rs strdupOk strdupOk' env apiKey testResponse h0 tail stream
  have hcalls : (calls strdupOk strdupOk' env apiKey testResponse stream).parse msg.data =
      Wire.parseClientDialogMessage strdupOk msg.data := rfl
  unfold aiCase
  rw [parse_spec strdupOk h0, Option.bind_eq_bind, Option.bind_some]
  cases hparse : Wire.parseClientDialogMessage strdupOk msg.data with
  | none =>
    refine ⟨_, reply_spec g rs _ _ [] [.close], hok ?_, fun fault => ⟨fun h => (by cases h), ?_⟩⟩
    · unfold Server.aiCase
      rw [hcalls, hparse]
    · rintro ⟨request, h, -⟩
      cases h
  | some request =>
    obtain ⟨hp, hl, hc⟩ := parse_fields_fit hparse
    have hne : request.personality ≠ [] ∧ request.language ≠ [] ∧ request.conversation ≠ [] := by
      cases strdupOk with
      | false =>
        rw [parse_no_memory] at hparse
        cases hparse
      | true => exact parse_ne_nil hparse
    have hpos : ∀ {s : Bytes}, s ≠ [] → ¬ s.length = 0 := fun h e =>
      h (List.length_eq_zero_iff.mp e)
    -- the handler on strings
    have hsome : ∀ response, Http.aiResponse env apiKey request = some response →
        Server.aiCase (calls strdupOk strdupOk' env apiKey testResponse stream) msg =
          [.send msgAiDialogResponse (cut maxAiResponseSize (cstr response)), .close] := by
      intro response hcall
      have hcall' : (calls strdupOk strdupOk' env apiKey testResponse stream).generateAiResponse
          request = some response := hcall
      unfold Server.aiCase
      rw [hcalls, hparse]
      dsimp only
      rw [if_neg (by simp only [hne.1, hne.2.1, hne.2.2, or_self, not_false_eq_true]), hcall']
    have hnone : Http.aiResponse env apiKey request = none →
        Server.aiCase (calls strdupOk strdupOk' env apiKey testResponse stream) msg =
          Server.testCase (calls strdupOk strdupOk' env apiKey testResponse stream) msg := by
      intro hcall
      have hcall' : (calls strdupOk strdupOk' env apiKey testResponse stream).generateAiResponse
          request = none := hcall
      unfold Server.aiCase
      rw [hcalls, hparse]
      dsimp only
      rw [if_neg (by simp only [hne.1, hne.2.1, hne.2.2, or_self, not_false_eq_true]), hcall']
    have hcrash : ∀ fault, (∃ request', some request = some request' ∧
        Http.generateAiResponse env apiKey request'.personality request'.language
          request'.conversation = .error fault) ↔
        Http.generateAiResponse env apiKey request.personality request.language
          request.conversation = .error fault := by
      intro fault
      constructor
      · rintro ⟨request', h, hcall⟩
        cases h
        exact hcall
      · exact fun hcall => ⟨request, rfl, hcall⟩
    simp only [hcrash]
    dsimp only [Option.map_some, ofClientMessage]
    rw [hp.strlen, hl.strlen, hc.strlen, hp.text, hl.text, hc.text]
    simp only [Option.bind_eq_bind, Option.bind_some, if_neg (hpos hne.1), if_neg (hpos hne.2.1),
      if_neg (hpos hne.2.2)]
    unfold Http.aiResponse at hsome hnone
    cases hcall : Http.generateAiResponse env apiKey request.personality request.language
        request.conversation with
    | error fault =>
      refine ⟨_, rfl, fun done h => (by cases h), fun fault' => ?_⟩
      simp only [Except.error.injEq]
    | ok out =>
      rw [hcall] at hsome hnone
      dsimp only at hsome hnone ⊢
      by_cases hsuccess : out.result = 0 ∧ out.response.success ≠ 0
      · obtain ⟨hnul, hlen⟩ := Http.response_fits hcall hsuccess.1
        have hfits : Fits maxAiResponseSize out.response.response := ⟨hnul, by
          have hsize : 0 < maxAiResponseSize := by decide
          omega⟩
        have hbuffer : (List.ofFn g.responseAi).length = maxAiResponseSize := List.length_ofFn
        obtain ⟨rest, hrest⟩ := @snprintf_over (List.ofFn g.responseAi)
          (by rw [hbuffer]; decide) out.response.response
        rw [hbuffer] at hrest
        rw [if_pos hsuccess, hfits.text, Option.bind_some, hrest, Option.bind_some]
        refine ⟨_, reply_spec g rs _ _ _ [.close], hok ?_, fun fault => ⟨fun h => (by cases h),
          fun h => (by cases h)⟩⟩
        rw [hsome _ (if_pos hsuccess), cstr_eq_self hnul]
      · rw [if_neg hsuccess, htest]
        refine ⟨_, rfl, hok ?_, fun fault => ⟨fun h => (by cases h), fun h => (by cases h)⟩⟩
        rw [hnone (if_neg hsuccess)]

end

/-- **One request, in place.**  Whatever the peer sends, whatever the local arrays held before, and
whatever the allocations, the AI service and `send` do: the handler reads and stores inside of its
arrays only and reads nothing that nobody has written.  It crashes only where the call of the AI does,
on the answer to the request that it has parsed; otherwise it puts the bytes on the stream that the
handler on strings sends, and closes the descriptor unless the send goes on. -/
theorem handler_in_place (g : Garbage) (rs : List SendResult) (strdupOk strdupOk' : Bool)
    (env : Http.Env) (apiKey : Bytes) (testResponse : Bytes → Bytes) (stream : Bytes) :
    ∃ r, processSingleRequestAndClose g rs strdupOk strdupOk' env apiKey testResponse stream =
        some r ∧
      (∀ done, r = .ok done → done = outcome rs (Server.processSingleRequestAndClose
        (calls strdupOk strdupOk' env apiKey testResponse stream))) ∧
      ∀ fault, r = .error fault ↔ ∃ msg request c, Wire.receiveMessage stream = some msg ∧
        msg.type = msgAiDialogRequest ∧
        Wire.parseClientDialogMessage strdupOk msg.data = some request ∧ fault = .crash c ∧
        callGeminiApi env.toJsonString (Http.answer env apiKey request.personality request.language
          request.conversation) = .error c := by
  have hreceived : (calls strdupOk strdupOk' env apiKey testResponse stream).received =
      Wire.receiveMessage stream := rfl
  -- a run without a crash
  have hno : ∀ {done : Done} {fault : Http.Fault}, ¬ (.ok done : Except Http.Fault Done) =
      .error fault := fun h => by cases h
  have hok : ∀ {done done' : Done}, done' = done → ∀ d, (.ok done' : Except Http.Fault Done) =
      .ok d → d = done := fun e d hd => (Except.ok.inj hd).symm.trans e
  unfold processSingleRequestAndClose Server.processSingleRequestAndClose
  rw [receiveMessage_spec, Option.bind_eq_bind, Option.bind_some, hreceived]
  cases hmsg : Wire.receiveMessage stream with
  | none =>
    refine ⟨_, rfl, hok rfl, fun fault => iff_of_false hno ?_⟩
    rintro ⟨msg, request, c, h, -⟩
    cases h
  | some msg =>
    obtain ⟨h0, hlen⟩ := receiveMessage_data hmsg
    dsimp only [Option.map_some, ofMessage]
    rw [field_eq hlen]
    by_cases hai : msg.type = msgAiDialogRequest
    · rw [if_pos hai, if_pos hai]
      obtain ⟨r, hrun, hdone, hfault⟩ :=
        aiCase_spec g rs strdupOk strdupOk' env apiKey testResponse h0 _ stream
      refine ⟨r, hrun, hdone, fun fault => ?_⟩
      rw [hfault]
      constructor
      · rintro ⟨request, hparse, hcall⟩
        obtain ⟨c, hc, hgemini⟩ := (Http.error_iff env apiKey _ _ _ fault).mp hcall
        exact ⟨msg, request, c, rfl, hai, hparse, hc, hgemini⟩
      · rintro ⟨msg', request, c, h, -, hparse, hc, hgemini⟩
        cases h
        exact ⟨request, hparse, (Http.error_iff env apiKey _ _ _ fault).mpr ⟨c, hc, hgemini⟩⟩
    · rw [if_neg hai, if_neg hai]
      have hnever : ∀ fault, ¬ ∃ msg' request c, some msg = some msg' ∧
          msg'.type = msgAiDialogRequest ∧
          Wire.parseClientDialogMessage strdupOk msg'.data = some request ∧
          fault = Http.Fault.crash c ∧
          callGeminiApi env.toJsonString (Http.answer env apiKey request.personality
            request.language request.conversation) = .error c := by
        rintro fault ⟨msg', request, c, h, htype, -⟩
        cases h
        exact hai htype
      by_cases htest : msg.type = msgTestDialogRequest
      · rw [if_pos htest, if_pos htest]
        exact ⟨_, testCase_spec g rs strdupOk strdupOk' env apiKey testResponse h0 _ stream, hok rfl,
          fun fault => iff_of_false hno (hnever fault)⟩
      · rw [if_neg htest, if_neg htest]
        exact ⟨_, reply_spec g rs _ _ [] [.close], hok rfl,
          fun fault => iff_of_false hno (hnever fault)⟩

end InPlace
