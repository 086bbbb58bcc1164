import RobotDialog.Client.Replies
import RobotDialog.Server.OneReply

/-!
# One exchange between the robot client and the server

The bytes of a request go through the server's handler, the bytes of its reply through the client's
parser.  The types get through whatever the texts are.

* `parsed_code`     the server sees the type that the client sent;
* `reply_type`      the client sees the type that the server sent;
* `serve`           the line that the client reads;
* `serve_response`  what it makes of the line.
-/

namespace Client
open CString Wire Server

/-! ## the type of a request -/

theorem receiveLine_cons {room : Nat} {ch : UInt8} (hlf : ch ≠ lf) (hcr : ch ≠ cr)
    (stream : Bytes) : receiveLine (room + 1) (ch :: stream) =
      (receiveLine room stream).map fun p => (ch :: p.1, p.2) := by
  rw [receiveLine, if_neg hlf, if_neg hcr]

theorem RequestType.decimal_code (type : RequestType) :
    ∃ d, decimal type.code = [d] ∧ d ≠ lf ∧ d ≠ cr := by
  cases type
  · exact ⟨49, by decide, by decide, by decide⟩
  · exact ⟨50, by decide, by decide, by decide⟩

theorem received_code (type : RequestType) (rest : Bytes) {msg : Message}
    (h : receiveMessage (type.toString rest) = some msg) : msg.type = type.code := by
  obtain ⟨d, hd, hlf, hcr⟩ := RequestType.decimal_code type
  unfold receiveMessage at h
  obtain ⟨⟨line, unread⟩, hline, hparse⟩ := Option.bind_eq_some_iff.mp h
  unfold RequestType.toString at hline
  rw [hd, show maxMessageSize + 64 - 1 = 3061 + 1 + 1 from rfl, List.singleton_append,
    receiveLine_cons hlf hcr, receiveLine_cons (by decide) (by decide)] at hline
  obtain ⟨p, hp, hp'⟩ := Option.map_eq_some_iff.mp hline
  obtain ⟨q, -, rfl⟩ := Option.map_eq_some_iff.mp hp
  obtain rfl : d :: bar :: q.1 = line := congrArg Prod.fst hp'
  have hany := parseLine_any type.code q.1 type.code_le
  rw [hd, List.singleton_append] at hany
  have hmsg := hany.symm.trans hparse
  rw [← Option.some.inj hmsg]

theorem parsed_code {type : RequestType} {separator payload : Bytes} {t : Nat}
    {request : ClientMessage}
    (h : Parsed (SocketClient.sendMessage separator type payload) t request) : t = type.code := by
  obtain ⟨msg, hmsg, ht, -⟩ := h
  unfold SocketClient.sendMessage RequestType.toString at hmsg
  rw [List.append_assoc, List.cons_append] at hmsg
  have hcode := received_code type (payload ++ separator) hmsg
  omega

/-! ## the type of a reply -/

theorem reply_type {type : Nat} (ht : type = 3 ∨ type = 4 ∨ type = 5) (text : Bytes) :
    ∃ reply p, readLine (formatMessage type text) = some reply ∧
      toMessage reply = some (.invoke type p) := by
  obtain ⟨rest, hrest⟩ : ∃ rest, formatMessage type text = decimal type ++ bar :: rest := by
    have hd : ∃ d, decimal type = [d] := by
      rcases ht with rfl | rfl | rfl
      · exact ⟨51, by decide⟩
      · exact ⟨52, by decide⟩
      · exact ⟨53, by decide⟩
    obtain ⟨d, hd⟩ := hd
    unfold formatMessage cut
    rw [hd, show maxMessageSize + 32 - 1 = 3029 + 1 + 1 from rfl]
    split
    · exact ⟨_, rfl⟩
    · exact ⟨_, rfl⟩
  exact ⟨_, _, by rw [hrest]; exact readLine_reply ht rest, toMessage_line ht _⟩

/-! ## one exchange -/

/-- what the handler puts on the stream when its sends succeed -/
def written (events : List Event) : Bytes :=
  events.flatMap fun
    | .sent type data _ => formatMessage type data
    | .closed => []

/-- the line that the client reads behind a request whose AI call has the given outcome -/
def serve (testResponse : Bytes → Bytes) (stream : Bytes) (outcome : Option AiText) :
    Option Bytes :=
  readLine (written (handle stream (fun _ => outcome) testResponse (returns fun _ _ => 0)))

variable {testResponse : Bytes → Bytes} {stream reply : Bytes} {outcome : Option AiText}

/-- **What the client makes of the reply**: an AI response to a request that the AI answered, a test
response to a test request and to a request on which the AI failed. -/
theorem serve_response (h : serve testResponse stream outcome = some reply) :
    ((∃ p, toMessage reply = some (.aiResponse p)) ↔
      ∃ text, AiAnswer stream (fun _ => outcome) text) ∧
    ((∃ p, toMessage reply = some (.testResponse p)) ↔ TestAnswer stream fun _ => outcome) := by
  unfold serve at h
  rcases handle_cases stream (fun _ => outcome) testResponse (fun _ _ => 0) with
    ⟨-, he⟩ | ⟨type, text, hdue, he⟩
  · rw [he] at h
    cases h
  -- the client reads the type of the only reply
  obtain ⟨p, hp⟩ : ∃ p, toMessage reply = some (.invoke type p) := by
    obtain ⟨reply', p, hread, hmsg⟩ := reply_type hdue.type_cases text
    have hw : written [.sent type text (some 0), .closed] = formatMessage type text := by
      simp [written]
    rw [he, hw, hread] at h
    obtain rfl := Option.some.inj h
    exact ⟨p, hmsg⟩
  rw [hp]
  rcases hdue.type_cases with rfl | rfl | rfl
  · have hai := due_answer_iff.mp hdue
    refine ⟨iff_of_true ⟨p, rfl⟩ ⟨text, hai⟩, iff_of_false ?_ hai.not_test⟩
    rintro ⟨q, hq⟩
    cases hq
  · have htest := due_test_iff.mp ⟨text, hdue⟩
    refine ⟨iff_of_false ?_ fun ⟨text, hai⟩ => hai.not_test htest, iff_of_true ⟨p, rfl⟩ htest⟩
    rintro ⟨q, hq⟩
    cases hq
  · obtain ⟨-, hai, htest⟩ := due_error_iff.mp ⟨text, hdue⟩
    refine ⟨iff_of_false ?_ hai, iff_of_false ?_ htest⟩
    · rintro ⟨q, hq⟩
      cases hq
    · rintro ⟨q, hq⟩
      cases hq

end Client
