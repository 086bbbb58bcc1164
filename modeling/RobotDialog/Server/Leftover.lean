import RobotDialog.Server.OneReply
import RobotDialog.Wire.Grammar
import RobotDialog.Wire.Request

/-!
# What the server leaves unread

`Parser.toRequestPayload` ends a request with a line feed, and `SocketClient.sendMessage` prints it
with `println`.

* `OneRequestOneLine`       one line terminator, and nothing unread when the server closes;
* `oneRequestOneLine_iff`   when a line and what follows its line feed have this property;
* `request_left_unread`     no request of the client has it: what `println` adds stays unread.
-/

namespace Server
open CString Wire

/-- one line terminator, at the very end -/
def OneLine (bytes : Bytes) : Prop :=
  ∃ text, lf ∉ text ∧ cr ∉ text ∧
    (bytes = text ++ [lf] ∨ bytes = text ++ [cr, lf] ∨ bytes = text ++ [cr])

/-- the line buffer of `receive_message` takes the line and its line feed -/
def FitsLineBuffer (bytes : Bytes) : Prop := (kept bytes).length < lineRoom

/-- what is unread when `process_single_request_and_close` closes the connection: of all that it
calls only `receive_line` reads, and without a line it reads until the stream ends -/
def unreadAtClose (stream : Bytes) : Bytes := ((receiveLine lineRoom stream).map Prod.snd).getD []

/-- one request is one line, and of a request that fits nothing is left unread -/
structure OneRequestOneLine (bytes : Bytes) : Prop where
  oneLine : OneLine bytes
  readWhole : (receiveMessage bytes).isSome → FitsLineBuffer bytes → unreadAtClose bytes = []

/-- the bytes that the client writes for one turn; `lineSeparator` is what `println` appends -/
def turnBytes (E : Json.Escape) (lineSeparator : Bytes) (message : RequestType)
    (pv : PersonalityDisplacement) (langCode : Bytes) (history : MessageHistory) : Bytes :=
  SocketClient.sendMessage lineSeparator message (toRequestPayload E pv langCode history)

/-! ## a line and what follows it -/

section
variable {line : Bytes} (hlf : lf ∉ line) (hcr : cr ∉ line) (rest : Bytes)
include hlf hcr

theorem oneLine_iff : OneLine (line ++ lf :: rest) ↔ rest = [] := by
  have hend : ∀ {text : Bytes}, lf ∉ text → line ++ lf :: rest = text ++ [lf] →
      line = text ∧ rest = [] := by
    intro text htext h
    have hline : line = text := by
      rw [← takeWhile_delim hlf rest, h, takeWhile_delim htext []]
    subst hline
    exact ⟨rfl, (List.cons.inj (List.append_cancel_left h)).2⟩
  constructor
  · rintro ⟨text, htext, hcr', h | h | h⟩
    · exact (hend htext h).2
    · -- a carriage return would belong to the line
      have hsplit : text ++ [cr, lf] = (text ++ [cr]) ++ [lf] := by simp
      have hno : lf ∉ text ++ [cr] := by
        rw [List.mem_append, not_or]
        exact ⟨htext, by decide⟩
      obtain ⟨rfl, -⟩ := hend hno (h.trans hsplit)
      exact absurd (List.mem_append_right text (List.mem_singleton_self cr)) hcr
    · have hmem : lf ∈ text ++ [cr] := by
        rw [← h]
        exact List.mem_append_right line List.mem_cons_self
      rcases List.mem_append.mp hmem with hm | hm
      · exact absurd hm htext
      · exact absurd hm (by decide)
  · rintro rfl
    exact ⟨line, hlf, hcr, .inl rfl⟩

theorem kept_line : kept (line ++ lf :: rest) = line := by
  unfold kept
  rw [takeWhile_delim hlf, List.filter_eq_self]
  intro c hc
  have hne : c ≠ cr := fun e => hcr (e ▸ hc)
  simpa using hne

/-- **What stays unread of a line that fits**: all that follows its line feed. -/
theorem unreadAtClose_line (hfits : FitsLineBuffer (line ++ lf :: rest)) :
    unreadAtClose (line ++ lf :: rest) = rest := by
  unfold FitsLineBuffer at hfits
  rw [kept_line hlf hcr rest] at hfits
  unfold unreadAtClose
  rw [receiveLine_line hlf hcr hfits rest]
  rfl

/-- **One request is one line** exactly if nothing follows its line feed. -/
theorem oneRequestOneLine_iff : OneRequestOneLine (line ++ lf :: rest) ↔ rest = [] := by
  constructor
  · intro h
    exact (oneLine_iff hlf hcr rest).mp h.oneLine
  · intro h
    exact ⟨(oneLine_iff hlf hcr rest).mpr h, fun _ hfits =>
      (unreadAtClose_line hlf hcr rest hfits).trans h⟩

end

/-! ## a request of the client -/

/-- the line of a request -/
def turnLine (E : Json.Escape) (message : RequestType) (pv : PersonalityDisplacement)
    (langCode : Bytes) (history : MessageHistory) : Bytes :=
  decimal message.code ++ bar :: requestText E pv langCode history

section
variable (E : Json.Escape) (lineSeparator : Bytes) (message : RequestType)
  (pv : PersonalityDisplacement) (langCode : Bytes) (history : MessageHistory)

/-- The payload brings the line feed, and `println` adds its own separator. -/
theorem turnBytes_eq : turnBytes E lineSeparator message pv langCode history =
    turnLine E message pv langCode history ++ lf :: lineSeparator := by
  unfold turnBytes turnLine SocketClient.sendMessage
  rw [request_line, List.append_assoc, List.cons_append]

theorem turnLine_clean : lf ∉ turnLine E message pv langCode history ∧
    cr ∉ turnLine E message pv langCode history := by
  obtain ⟨-, hlf, hcr⟩ := requestText_not_mem E pv langCode history
  exact line_clean hlf hcr message.code

theorem turn_received :
    (receiveMessage (turnBytes E lineSeparator message pv langCode history)).isSome := by
  obtain ⟨h0, hlf, hcr⟩ := requestText_not_mem E pv langCode history
  unfold turnBytes SocketClient.sendMessage
  rw [request_line, receiveMessage_take hlf hcr message.code_le h0]
  rfl

theorem turn_oneLine_iff :
    OneRequestOneLine (turnBytes E lineSeparator message pv langCode history) ↔
      lineSeparator = [] := by
  obtain ⟨hlf, hcr⟩ := turnLine_clean E message pv langCode history
  rw [turnBytes_eq, oneRequestOneLine_iff hlf hcr]

theorem handle_received {stream : Bytes} (h : (receiveMessage stream).isSome)
    (ai : ClientMessage → Option AiText) (testResponse : Bytes → Bytes)
    (rc : Nat → Bytes → Int) :
    ∃ type text, handle stream ai testResponse (returns rc) =
      [.sent type text (some (rc type text)), .closed] := by
  rcases handle_cases stream ai testResponse rc with ⟨hnone, -⟩ | ⟨type, text, -, he⟩
  · rw [hnone] at h
    cases h
  · exact ⟨type, text, he⟩

/-- **No request of the client is one line.**  Whatever the personality, the language and the
history are: the bytes of one turn have a second line terminator, the one of `println`. The server
receives the message, sends one reply and closes, and of a request that fits its line buffer exactly
this second terminator is unread then. -/
theorem request_left_unread (hseparator : lineSeparator ≠ []) :
    ¬ OneRequestOneLine (turnBytes E lineSeparator message pv langCode history) ∧
    ¬ OneLine (turnBytes E lineSeparator message pv langCode history) ∧
    (receiveMessage (turnBytes E lineSeparator message pv langCode history)).isSome ∧
    (∀ ai testResponse rc, ∃ type text,
      handle (turnBytes E lineSeparator message pv langCode history) ai testResponse (returns rc) =
        [.sent type text (some (rc type text)), .closed]) ∧
    (FitsLineBuffer (turnBytes E lineSeparator message pv langCode history) →
      unreadAtClose (turnBytes E lineSeparator message pv langCode history) = lineSeparator) := by
  obtain ⟨hlf, hcr⟩ := turnLine_clean E message pv langCode history
  have hreceived := turn_received E lineSeparator message pv langCode history
  refine ⟨fun h => hseparator ?_, fun h => hseparator ?_, hreceived,
    handle_received hreceived, fun hfits => ?_⟩
  · exact (turn_oneLine_iff E lineSeparator message pv langCode history).mp h
  · rw [turnBytes_eq] at h
    exact (oneLine_iff hlf hcr lineSeparator).mp h
  · rw [turnBytes_eq] at hfits ⊢
    exact unreadAtClose_line hlf hcr lineSeparator hfits

end

theorem request_left_unread_hello :
    ¬ OneRequestOneLine (turnBytes Json.shortEscapes [lf] .aiRequest calm (ascii "en-GB")
      (oneTurn (ascii "hello"))) ∧
    unreadAtClose (turnBytes Json.shortEscapes [lf] .aiRequest calm (ascii "en-GB")
      (oneTurn (ascii "hello"))) = [lf] := by
  have h := request_left_unread Json.shortEscapes [lf] .aiRequest calm (ascii "en-GB")
    (oneTurn (ascii "hello")) (by decide)
  exact ⟨h.1, h.2.2.2.2 (by unfold FitsLineBuffer; decide +kernel)⟩

/-- **Two line feeds behind a request.**  The user says `ciao`. -/
theorem request_second_terminator :
    turnBytes Json.shortEscapes [lf] .aiRequest calm (ascii "it-IT") (oneTurn (ascii "ciao")) =
      ascii "1|Extroversion = LOW, Agreeableness = HIGH, Conscientiousness = MEDIUM, " ++
      ascii "Emotional stability = VERY_HIGH, Openness to experiences MEDIUM|italian|" ++
      ascii "\x7b\"role\":\"user\",\"parts\":[\x7b\"text\":\"ciao\"\x7d]\x7d" ++ [lf, lf] ∧
    (receiveMessage (turnBytes Json.shortEscapes [lf] .aiRequest calm (ascii "it-IT")
      (oneTurn (ascii "ciao")))).isSome = true ∧
    (kept (turnBytes Json.shortEscapes [lf] .aiRequest calm (ascii "it-IT")
      (oneTurn (ascii "ciao")))).length < lineRoom ∧
    unreadAtClose (turnBytes Json.shortEscapes [lf] .aiRequest calm (ascii "it-IT")
      (oneTurn (ascii "ciao"))) = [lf] ∧
    ¬ OneRequestOneLine (turnBytes Json.shortEscapes [lf] .aiRequest calm (ascii "it-IT")
      (oneTurn (ascii "ciao"))) := by
  refine ⟨by decide +kernel, by decide +kernel, by decide +kernel, by decide +kernel, fun h => ?_⟩
  exact absurd ((turn_oneLine_iff _ _ _ _ _ _).mp h) (by decide)

end Server
