import RobotDialog.Client.Question
import RobotDialog.Server.Canned
import RobotDialog.Server.Http
import RobotDialog.Wire.Reply

/-!
# A whole turn

The robot asks, the server asks the AI over HTTP, and the robot gets the answer: `retrieveHistory`,
the request, `process_single_request_and_close` with `generate_ai_response`, `send_message`,
`readLine` and `Parser.toMessage`, one behind the other.

* `Gives`, `Fails`     what the AI service does with a question;
* `turn_answered`      the text of the service gets to the client;
* `turn_fallback`      without a text the client gets the canned reply, whatever went wrong.
-/

namespace Client
open CString Wire Server Http

/-! ## the service -/

/-- to a document that asks `q` the service gives a whole answer with status 200 that has the text
`s` -/
def Gives (env : Http.Env) (q : List ConversationLine) (s : Bytes) : Prop :=
  env.handle = true ∧ ∀ r : Http.Request, (Json.read r.postFields).bind question = some q →
    ∃ body, (env.transfer r).body = some body ∧ HasText (env.tokenerParse (cstr body)) s

/-- nothing stands at the place of the text, and the candidates and the parts are arrays, where there
are any -/
structure NoText (root : JsonC.Value) : Prop where
  candidates : ∀ v, root.find candidatesPath = some v → v.IsArray
  parts : ∀ v, root.find partsPath = some v → v.IsArray
  text : root.find textPath = none

/-- curl gives no handle, or to a document that asks `q` the service gives no whole answer with
status 200, or one that has no text -/
def Fails (env : Http.Env) (q : List ConversationLine) : Prop :=
  env.handle = false ∨ ∀ r : Http.Request, (Json.read r.postFields).bind question = some q →
    (env.transfer r).body = none ∨ ∃ body, (env.transfer r).body = some body ∧
      NoText (env.tokenerParse (cstr body))

def callsOn (env : Http.Env) (apiKey : Bytes) (testResponse : Bytes → Bytes) (stream : Bytes) :
    Calls where
  received := receiveMessage stream
  parse := parseClientDialogMessage true
  generateAiResponse := aiResponse env apiKey
  parseAgain := parseClientDialogMessage true
  testResponse := testResponse

section
variable {env : Http.Env} {apiKey : Bytes} {request : ClientMessage}

theorem aiResponse_text {root : JsonC.Value} {s : Bytes}
    (hroot : Http.answer env apiKey request.personality request.language request.conversation = root)
    (htext : HasText root s) :
    aiResponse env apiKey request = some (cut maxAiResponseSize (cstr s)) := by
  have htake := @takeCandidates_text env.toJsonString root s htext
  have hcall := (callGeminiApi_ok_iff root 0 _).mpr ⟨htake, rfl⟩
  rw [← hroot] at hcall
  obtain ⟨out, hout, hresult, hsuccess, hresponse, -⟩ :=
    (Http.generate_refines env apiKey _ _ _).2 _ _ hcall
  unfold aiResponse
  rw [hout]
  show (if out.result = 0 ∧ out.response.success ≠ 0 then some out.response.response else none) = _
  rw [if_pos ⟨hresult, by rw [hsuccess]; exact Int.one_ne_zero⟩, hresponse rfl]

theorem aiResponse_none {root : JsonC.Value}
    (hroot : Http.answer env apiKey request.personality request.language request.conversation = root)
    (htext : NoText root) : aiResponse env apiKey request = none := by
  have hshape : WellShaped root := by
    refine ⟨htext.candidates, htext.parts, fun v h => ?_⟩
    rw [htext.text] at h
    cases h
  have htake := (@takeCandidates_iff env.toJsonString root).mpr hshape
  rw [htext.text, responseTo_other fun s hs => by cases hs] at htake
  have hcall := (callGeminiApi_ok_iff root (-1) _).mpr ⟨htake, rfl⟩
  rw [← hroot] at hcall
  obtain ⟨out, hout, hresult, -, -, -⟩ := (Http.generate_refines env apiKey _ _ _).2 _ _ hcall
  unfold aiResponse
  rw [hout]
  show (if out.result = 0 ∧ out.response.success ≠ 0 then some out.response.response else none) = _
  rw [if_neg]
  rintro ⟨h0, -⟩
  rw [hresult] at h0
  cases h0

theorem noText_null : NoText .null := by
  have hnull : ∀ s path, JsonC.Value.null.find (s :: path) = none := JsonC.find_null
  refine ⟨fun v h => ?_, fun v h => ?_, hnull _ _⟩
  · exact absurd (h.symm.trans (hnull _ _)) (Option.some_ne_none v)
  · exact absurd (h.symm.trans (hnull _ _)) (Option.some_ne_none v)

end

/-! ## the document on the wire -/

/-- The document that is posted has no NUL: curl gets the whole of it. -/
theorem posted_whole (E : Json.Escape) (pv : PersonalityDisplacement) (langCode : Bytes)
    (dialog : List DialogItem) : cstr (posted E pv langCode dialog) = posted E pv langCode dialog := by
  refine cstr_eq_self ?_
  have hhead : 0 ∉ requestHead := by decide +kernel
  have hmiddle : 0 ∉ requestMiddle := by decide +kernel
  have htail : 0 ∉ requestTail := by decide +kernel
  have hescape : ∀ c, escapable c = true → 0 ∉ escapeChar c := by
    apply Json.forall_byte (P := fun c => escapable c = true → 0 ∉ escapeChar c)
    decide +kernel
  have hpremise : 0 ∉ (premise pv.text (toText langCode)).flatMap escapeChar := by
    intro h
    obtain ⟨c, hc, h0⟩ := List.mem_flatMap.mp h
    exact hescape c (List.all_eq_true.mp (premise_clean pv langCode) c hc) h0
  have hhistory : 0 ∉ jsonString E (retrieveHistory dialog) := jsonString_control E _ (by decide)
  unfold posted requestBody
  simp only [List.mem_append, not_or]
  exact ⟨⟨⟨⟨hhead, hpremise⟩, hmiddle⟩, hhistory⟩, htail⟩

/-! ## the turn -/

theorem actions_parsed (env : Http.Env) (apiKey : Bytes) (testResponse : Bytes → Bytes)
    {stream : Bytes} {request : ClientMessage} (h : Parsed stream msgAiDialogRequest request) :
    (∀ response, aiResponse env apiKey request = some response →
      processSingleRequestAndClose (callsOn env apiKey testResponse stream) =
        [.send msgAiDialogResponse (cut maxAiResponseSize (cstr response)), .close]) ∧
    (aiResponse env apiKey request = none →
      processSingleRequestAndClose (callsOn env apiKey testResponse stream) =
        [.send msgTestDialogResponse (testResponse request.language), .close]) := by
  obtain ⟨msg, hmsg, htype, hrequest⟩ := h
  have hai : processSingleRequestAndClose (callsOn env apiKey testResponse stream) =
      aiCase (callsOn env apiKey testResponse stream) msg := by
    have hreceived : (callsOn env apiKey testResponse stream).received = some msg := hmsg
    unfold processSingleRequestAndClose
    rw [hreceived]
    exact if_pos htype
  have htest : testCase (callsOn env apiKey testResponse stream) msg =
      [.send msgTestDialogResponse (testResponse request.language), .close] := by
    have hagain : (callsOn env apiKey testResponse stream).parseAgain msg.data = some request :=
      hrequest
    unfold testCase
    rw [hagain]
    rfl
  obtain ⟨hsome, hnone⟩ :=
    @aiCase_parsed (callsOn env apiKey testResponse stream) msg request hrequest hrequest
  rw [hai]
  exact ⟨hsome, fun hcall => (hnone hcall).trans htest⟩

section
variable {E : Json.Escape} {env : Http.Env} {pv : PersonalityDisplacement} {langCode : Bytes}
  {dialog : List DialogItem}

theorem answer_posted (hE : E.Faithful) (apiKey : Bytes) (hhandle : env.handle = true)
    (hne : (retrieveHistory dialog).contents ≠ [])
    (hfit : (jsonString E (retrieveHistory dialog)).length ≤ maxConversationSize - 1) :
    ∃ r : Http.Request, (Json.read r.postFields).bind question = some (asked pv langCode dialog) ∧
      Http.answer env apiKey pv.text (toText langCode) (jsonString E (retrieveHistory dialog)) =
        (env.transfer r).body.elim .null fun body => env.tokenerParse (cstr body) := by
  refine ⟨⟨Http.url apiKey, posted E pv langCode dialog⟩, posted_question hE pv langCode hne, ?_⟩
  unfold Http.answer
  rw [if_pos hhandle, generate_posted pv langCode hfit]
  simp only [posted_whole]

variable (apiKey : Bytes) (testResponse : Bytes → Bytes) (lineSeparator rest : Bytes)

/-- **A whole turn.**  If the last items of the dialog contain at least one line and no '|' and fit
into the conversation buffer, and the AI service answers a document that asks the premise and exactly
these items with the text `s`, in any chunks: the handler sends this text up to its first NUL, cut at
its buffer, and closes; and however `send` delivers the reply, the client obtains an AI response with
what it hears of that, and this is the whole text if it fits and is UTF-8 without NUL, line terminator
and '|'. -/
theorem turn_answered (hE : E.Faithful) (hne : (retrieveHistory dialog).contents ≠ [])
    (hbar : ∀ line ∈ (retrieveHistory dialog).contents, ∀ part ∈ line.parts, bar ∉ part.text)
    (hfit : (jsonString E (retrieveHistory dialog)).length ≤ maxConversationSize - 1) (s : Bytes)
    (hanswer : Gives env (asked pv langCode dialog) s) :
    processSingleRequestAndClose (callsOn env apiKey testResponse
        (SocketClient.sendMessage lineSeparator .aiRequest
          (toRequestPayload E pv langCode (retrieveHistory dialog)) ++ rest)) =
      [.send msgAiDialogResponse (cut maxAiResponseSize (cstr s)), .close] ∧
    (∀ rs written, sendMessage rs msgAiDialogResponse (cut maxAiResponseSize (cstr s)) =
        (written, some 0) →
      (readLine written).bind toMessage =
        some (.aiResponse (heard (cut maxAiResponseSize (cstr s))))) ∧
    (0 ∉ s → s.length ≤ maxAiResponseSize - 1 →
      lf ∉ s ∧ cr ∉ s ∧ bar ∉ s ∧ Utf8.Valid s → heard (cut maxAiResponseSize (cstr s)) = s) := by
  obtain ⟨hhandle, hservice⟩ := hanswer
  obtain ⟨r, hasked, hroot⟩ := @answer_posted E env pv langCode dialog hE apiKey hhandle hne hfit
  obtain ⟨body, hbody, htext⟩ := hservice r hasked
  rw [hbody, Option.elim_some] at hroot
  have hlen : (cut maxAiResponseSize (cstr s)).length ≤ maxAiResponseSize - 1 :=
    List.length_take_le _ _
  have h0 : 0 ∉ cut maxAiResponseSize (cstr s) := fun hmem =>
    nul_not_mem_cstr s (List.mem_of_mem_take hmem)
  have hparsed := parsed_request pv langCode lineSeparator rest hne hbar hfit
  have hsome : aiResponse env apiKey ⟨pv.text, toText langCode, jsonString E (retrieveHistory dialog),
      true⟩ = some (cut maxAiResponseSize (cstr s)) := aiResponse_text hroot htext
  refine ⟨?_, fun rs written hs => reply_heard (.inl rfl) h0 hlen hs, fun hnul hfits hplain => ?_⟩
  · rw [(actions_parsed env apiKey testResponse hparsed).1 _ hsome, cstr_eq_self h0,
      cut_eq_self hlen]
  · rw [cstr_eq_self hnul, cut_eq_self hfits]
    exact (heard_eq_self_iff s).mpr hplain

theorem answer_noText (hE : E.Faithful) (hne : (retrieveHistory dialog).contents ≠ [])
    (hfit : (jsonString E (retrieveHistory dialog)).length ≤ maxConversationSize - 1)
    (hfails : Fails env (asked pv langCode dialog)) :
    NoText (Http.answer env apiKey pv.text (toText langCode)
      (jsonString E (retrieveHistory dialog))) := by
  by_cases hhandle : env.handle = true
  · obtain ⟨r, hasked, hroot⟩ := @answer_posted E env pv langCode dialog hE apiKey hhandle hne hfit
    rcases hfails with hno | hservice
    · rw [hhandle] at hno
      cases hno
    · rcases hservice r hasked with hbody | ⟨body, hbody, htext⟩
      · rw [hroot, hbody]
        exact noText_null
      · rw [hroot, hbody]
        exact htext
  · unfold Http.answer
    rw [if_neg hhandle]
    exact noText_null

/-- **A turn without an answer.**  If the last items of the dialog contain at least one line and no '|'
and fit into the conversation buffer, whatever goes wrong between the server and the AI service (no
handle, no connection, a time limit, no memory for the body, any status other than 200 with any error
in its body, a body that is no JSON or one without a text, its candidates and parts being arrays where
there are any): the handler sends the canned reply in the language of the client, and closes; and
however `send` delivers it, a text of the tables gets to the client whole. -/
theorem turn_fallback (hE : E.Faithful) (hne : (retrieveHistory dialog).contents ≠ [])
    (hbar : ∀ line ∈ (retrieveHistory dialog).contents, ∀ part ∈ line.parts, bar ∉ part.text)
    (hfit : (jsonString E (retrieveHistory dialog)).length ≤ maxConversationSize - 1)
    (hfails : Fails env (asked pv langCode dialog)) :
    processSingleRequestAndClose (callsOn env apiKey testResponse
        (SocketClient.sendMessage lineSeparator .aiRequest
          (toRequestPayload E pv langCode (retrieveHistory dialog)) ++ rest)) =
      [.send msgTestDialogResponse (testResponse (toText langCode)), .close] ∧
    ∀ f rs written, testResponse (toText langCode) ∈ testString f →
      sendMessage rs msgTestDialogResponse (testResponse (toText langCode)) = (written, some 0) →
      (readLine written).bind toMessage =
        some (.testResponse (testResponse (toText langCode))) := by
  have htext := answer_noText apiKey hE hne hfit hfails
  have hparsed := parsed_request pv langCode lineSeparator rest hne hbar hfit
  have hnone : aiResponse env apiKey ⟨pv.text, toText langCode, jsonString E (retrieveHistory dialog),
      true⟩ = none := aiResponse_none rfl htext
  refine ⟨(actions_parsed env apiKey testResponse hparsed).2 hnone, fun f rs written hmem hs => ?_⟩
  obtain ⟨⟨h0, hlen⟩, hplain⟩ := (testString_whole f).2 _ hmem
  rw [reply_heard (.inr (.inl rfl)) h0 hlen hs, (heard_eq_self_iff _).mpr hplain]
  rfl

end

/-! ## two turns -/

def ciaoBody : Bytes :=
  ascii ("\x7b\"candidates\":[\x7b\"content\":\x7b\"parts\":[" ++
    "\x7b\"text\":\"Ciao! Come stai?\"\x7d]\x7d\x7d]\x7d")

def ciaoValue : JsonC.Value :=
  .object [(ascii "candidates", .array [.object [(ascii "content", .object [(ascii "parts",
    .array [.object [(ascii "text", .string (ascii "Ciao! Come stai?"))]])])]])]

/-- a service that answers in two chunks, with this status -/
def ciaoEnv (httpCode : Int) : Http.Env where
  handle := true
  headers := true
  transfer _ := ⟨[⟨ciaoBody.take 20, some fun _ => 0⟩, ⟨ciaoBody.drop 20, some fun _ => 255⟩], false,
    httpCode⟩
  tokenerParse body := if body = ciaoBody then ciaoValue else .null
  toJsonString _ := []

theorem ciaoValue_text : HasText ciaoValue (ascii "Ciao! Come stai?") := rfl

theorem ciaoEnv_answers (q : List ConversationLine) :
    Gives (ciaoEnv 200) q (ascii "Ciao! Come stai?") := by
  refine ⟨rfl, fun r _ => ⟨ciaoBody, ?_, ?_⟩⟩
  · have hkept : Http.Kept ((ciaoEnv 200).transfer r).chunks := by
      intro chunk hchunk
      rcases List.mem_cons.mp hchunk with rfl | hchunk
      · exact .inl rfl
      · obtain rfl := List.mem_singleton.mp hchunk
        exact .inl rfl
    unfold Http.Transfer.body
    rw [if_pos ⟨rfl, hkept, rfl, rfl⟩]
    rfl
  · have hparse : (ciaoEnv 200).tokenerParse (cstr ciaoBody) = ciaoValue := by
      rw [show cstr ciaoBody = ciaoBody by decide +kernel]
      show (if ciaoBody = ciaoBody then ciaoValue else .null) = ciaoValue
      rw [if_pos rfl]
    rw [hparse]
    exact ciaoValue_text

theorem turn_answered_ciao :
    processSingleRequestAndClose (callsOn (ciaoEnv 200) (ascii "key") id
        (SocketClient.sendMessage [lf] .aiRequest (toRequestPayload Json.shortEscapes calm
          (ascii "it-IT") (retrieveHistory [.responseItem (ascii "Ciao")])) ++ [])) =
      [.send msgAiDialogResponse (cut maxAiResponseSize (cstr (ascii "Ciao! Come stai?"))),
        .close] ∧
    (∀ rs written, sendMessage rs msgAiDialogResponse
        (cut maxAiResponseSize (cstr (ascii "Ciao! Come stai?"))) = (written, some 0) →
      (readLine written).bind toMessage = some (.aiResponse
        (heard (cut maxAiResponseSize (cstr (ascii "Ciao! Come stai?")))))) ∧
    heard (cut maxAiResponseSize (cstr (ascii "Ciao! Come stai?"))) = ascii "Ciao! Come stai?" := by
  have hturn := @turn_answered Json.shortEscapes (ciaoEnv 200) calm (ascii "it-IT")
    [.responseItem (ascii "Ciao")] (ascii "key") id [lf] [] Json.shortEscapes_faithful (by decide)
    (by decide) (by decide +kernel) _ (ciaoEnv_answers _)
  exact ⟨hturn.1, hturn.2.1, hturn.2.2 (by decide) (by decide) (by decide)⟩

theorem turn_fallback_overloaded :
    processSingleRequestAndClose (callsOn (ciaoEnv 503) (ascii "key")
        (fun _ => ascii "Vai a zappare.") (SocketClient.sendMessage [lf] .aiRequest
          (toRequestPayload Json.shortEscapes calm (ascii "it-IT")
            (retrieveHistory [.responseItem (ascii "Ciao")])) ++ [])) =
      [.send msgTestDialogResponse (ascii "Vai a zappare."), .close] ∧
    ∀ rs written, sendMessage rs msgTestDialogResponse (ascii "Vai a zappare.") =
        (written, some 0) →
      (readLine written).bind toMessage = some (.testResponse (ascii "Vai a zappare.")) := by
  have hfails : Fails (ciaoEnv 503)
      (asked calm (ascii "it-IT") [.responseItem (ascii "Ciao")]) := by
    refine .inr fun r _ => .inl ?_
    have hcode : ((ciaoEnv 503).transfer r).httpCode = 503 := rfl
    unfold Http.Transfer.body
    rw [hcode]
    exact if_neg fun h => absurd h.2.2.1 (by decide)
  have hturn := turn_fallback (ascii "key") (fun _ => ascii "Vai a zappare.") [lf] []
    Json.shortEscapes_faithful (by decide) (by decide) (by decide +kernel) hfails
  exact ⟨hturn.1, fun rs written hs => hturn.2 .it rs written (by decide +kernel) hs⟩

end Client
