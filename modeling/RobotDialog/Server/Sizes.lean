import RobotDialog.Server.Gemini

/-!
# The sizes of the buffers

Behind the parser no buffer of a request or of its reply is too small.

* `premise_fits`    the premise and its escapes;
* `body_fits`       the body of the request to the AI;
* `reply_fits`      the line of a reply;
* `no_truncation`   all of them, for every accepted request and every text of a reply.
-/

namespace Server
open CString Wire

/-- the premise is written whole into `premise`, and its escapes into `escaped_premise` -/
def PremiseFits (request : ClientMessage) : Prop :=
  (premiseText request.personality request.language).length < 1024 ∧
    premise request.personality request.language =
      premiseText request.personality request.language ∧
    escapeLoop 4096 [] (premise request.personality request.language) =
      (premiseText request.personality request.language).flatMap escapeChar ∧
    ((premiseText request.personality request.language).flatMap escapeChar).length < 4096

/-- the body is written whole into `json_request`, with all of the premise and the conversation -/
def BodyFits (request : ClientMessage) : Prop :=
  generateGeminiRequestJson request.personality request.language request.conversation
      (maxMessageSize * 4) =
    some (requestBody (premiseText request.personality request.language) request.conversation) ∧
  (requestBody (premiseText request.personality request.language) request.conversation).length <
    maxMessageSize * 4

/-- the text is written whole into `response_ai` and with its newline into `message_buffer` -/
def ReplyFits (type : Nat) (text : Bytes) : Prop :=
  cut maxAiResponseSize (cstr text) = text ∧
    formatMessage type text = decimal type ++ bar :: (text ++ [lf]) ∧
    (decimal type ++ bar :: (text ++ [lf])).length < maxMessageSize + 32

section
variable {request : ClientMessage}
  (hp : request.personality.length ≤ maxPersonalitySize - 1)
  (hl : request.language.length ≤ maxLanguageSize - 1)
include hp hl

theorem premise_fits : PremiseFits request := by
  obtain ⟨heq, hlen⟩ := premise_eq hp hl
  have hescaped := length_escaped (premise request.personality request.language)
  have hloop : escapeLoop 4096 [] (premise request.personality request.language) =
      (premise request.personality request.language).flatMap escapeChar := by
    rw [escapeLoop_eq _ _ (by rw [List.length_nil]; omega), List.nil_append]
  rw [heq] at hlen hescaped hloop
  refine ⟨by omega, heq, ?_, by omega⟩
  rw [heq]
  exact hloop

theorem body_fits (hc : request.conversation.length ≤ maxConversationSize - 1) :
    BodyFits request := by
  have hbody := generate_eq hp hl hc
  rw [(premise_eq hp hl).1] at hbody
  refine ⟨hbody, ?_⟩
  -- the function has compared the length of the body with the size of the buffer
  unfold generateGeminiRequestJson at hbody
  by_contra hlong
  have hsize : ¬ (requestHead ++ escapeLoop 4096 [] (premise request.personality request.language)
      ++ requestMiddle ++ request.conversation ++ requestTail).length ≥ maxMessageSize * 4 := by
    intro h
    rw [if_pos h] at hbody
    cases hbody
  rw [if_neg hsize] at hbody
  rw [Option.some.inj hbody] at hsize
  omega

end

theorem reply_fits {type : Nat} {text : Bytes} (htype : type ≤ 1000) (h0 : 0 ∉ text)
    (hlen : text.length ≤ maxAiResponseSize - 1) : ReplyFits type text := by
  have hd : (decimal type).length ≤ 4 := length_decimal htype
  unfold maxAiResponseSize at hlen
  refine ⟨?_, formatMessage_eq h0 ?_, ?_⟩
  · rw [cstr_eq_self h0]
    exact cut_eq_self hlen
  · unfold maxMessageSize
    omega
  · simp only [List.length_append, List.length_cons, List.length_nil]
    unfold maxMessageSize
    omega

/-- **No silent truncation between the parser and the wire.** For every payload that is parsed, so
for that of every message that is received and parsed, and for every text of a reply that fits its
buffer, each later buffer takes all that is written to it. -/
theorem no_truncation {data : Bytes} {strdupOk : Bool} {request : ClientMessage}
    (hparsed : parseClientDialogMessage strdupOk data = some request) :
    PremiseFits request ∧ BodyFits request ∧
      ∀ type text, type = msgAiDialogResponse ∨ type = msgTestDialogResponse → 0 ∉ text →
        text.length ≤ maxAiResponseSize - 1 → ReplyFits type text := by
  have hmemory : strdupOk = true := by
    cases strdupOk with
    | true => rfl
    | false =>
      rw [parse_no_memory] at hparsed
      cases hparsed
  subst hmemory
  obtain ⟨hp, hl, hc⟩ := parse_fits hparsed
  refine ⟨premise_fits hp hl, body_fits hp hl hc, fun type text htype h0 hlen => ?_⟩
  refine reply_fits ?_ h0 hlen
  rcases htype with rfl | rfl
  · decide
  · decide

theorem no_truncation_request :
    PremiseFits ⟨ascii "kind", ascii "it", ascii "hi", true⟩ ∧
      BodyFits ⟨ascii "kind", ascii "it", ascii "hi", true⟩ ∧
      ReplyFits msgAiDialogResponse (ascii "Ciao!") := by
  have hparsed : parseClientDialogMessage true (ascii "kind|it|hi") =
      some ⟨ascii "kind", ascii "it", ascii "hi", true⟩ := by decide
  obtain ⟨hpremise, hbody, hreply⟩ := no_truncation hparsed
  exact ⟨hpremise, hbody, hreply _ _ (.inl rfl) (by decide) (by decide)⟩

end Server
