import RobotDialog.Lib.Json
import RobotDialog.Wire.Dialog

/-!
# A request from the robot client to the server

`Parser.toRequestPayload` and `SocketClient.sendMessage`.  Strings of the client stand for their
bytes in the charset of the connection, which is a superset of ASCII; how `Json.encodeToString`
writes a string is a parameter (`Json.Escape`).

* `PersonalityDisplacement`, `MessageHistory`   what a request is made of;
* `toRequestPayload`, `SocketClient.sendMessage`   the bytes on the connection;
* `request_line`              they are a line and what stands behind it;
* `request_roundTrip_iff`   the server obtains what the client put in exactly if no text of the
                            history contains '|';
* `request_cut`             a history that is cut.
-/

namespace Wire
open CString

/-! ## what the client has -/

inductive PersonalityDisplacementValues where
  | veryLow
  | low
  | medium
  | high
  | veryHigh
  deriving DecidableEq, Repr

/-- the name of the enum constant, which is what a string template shows -/
def PersonalityDisplacementValues.name : PersonalityDisplacementValues → Bytes
  | .veryLow => ascii "VERY_LOW"
  | .low => ascii "LOW"
  | .medium => ascii "MEDIUM"
  | .high => ascii "HIGH"
  | .veryHigh => ascii "VERY_HIGH"

structure PersonalityDisplacement where
  extroversion : PersonalityDisplacementValues
  agreeableness : PersonalityDisplacementValues
  conscientiousness : PersonalityDisplacementValues
  emotionalStability : PersonalityDisplacementValues
  opennessToExperiences : PersonalityDisplacementValues
  deriving DecidableEq, Repr

inductive Role where
  | user
  | model
  deriving DecidableEq, Repr

def Role.name : Role → Bytes
  | .user => ascii "user"
  | .model => ascii "model"

structure Messages where
  text : Bytes
  deriving DecidableEq, Repr

structure ConversationLine where
  role : Role
  parts : List Messages
  deriving DecidableEq, Repr

structure MessageHistory where
  contents : List ConversationLine
  deriving DecidableEq, Repr

inductive RequestType where
  | aiRequest
  | testRequest
  deriving DecidableEq, Repr

def RequestType.code : RequestType → Nat
  | .aiRequest => 1
  | .testRequest => 2

/-! ## Json.encodeToString -/

def Messages.encode (E : Json.Escape) (m : Messages) : Bytes :=
  Json.object [Json.member (ascii "text") (Json.string E m.text)]

def ConversationLine.encode (E : Json.Escape) (line : ConversationLine) : Bytes :=
  Json.object
    [Json.member (ascii "role") (Json.quote :: (line.role.name ++ [Json.quote])),
      Json.member (ascii "parts") (Json.array (line.parts.map (Messages.encode E)))]

/-- `Json.encodeToString(history.contents)` -/
def encodeToString (E : Json.Escape) (contents : List ConversationLine) : Bytes :=
  Json.array (contents.map (ConversationLine.encode E))

def removeSurrounding (opening closing s : Bytes) : Bytes :=
  if opening.length + closing.length ≤ s.length ∧ opening.isPrefixOf s ∧ closing.isSuffixOf s then
    (s.drop opening.length).take (s.length - opening.length - closing.length)
  else s

/-! ## Parser.toRequestPayload -/

/-- `lang.code.lowercase()`, the letters outside of ASCII play no role -/
def lowercase (s : Bytes) : Bytes := s.map fun c => if 65 ≤ c && c ≤ 90 then c + 32 else c

/-- `Parser.toText`, on the code of the language -/
def toText (langCode : Bytes) : Bytes :=
  if lowercase langCode = ascii "fr-fr" then ascii "french"
  else if lowercase langCode = ascii "es-es" then ascii "spanish"
  else if lowercase langCode = ascii "en-gb" then ascii "english"
  else ascii "italian"

def PersonalityDisplacement.text (pv : PersonalityDisplacement) : Bytes :=
  ascii "Extroversion = " ++ pv.extroversion.name ++
  ascii ", Agreeableness = " ++ pv.agreeableness.name ++
  ascii ", Conscientiousness = " ++ pv.conscientiousness.name ++
  ascii ", Emotional stability = " ++ pv.emotionalStability.name ++ ascii ", " ++
  ascii "Openness to experiences " ++ pv.opennessToExperiences.name

def jsonString (E : Json.Escape) (history : MessageHistory) : Bytes :=
  removeSurrounding [91] [93] (encodeToString E history.contents)

def toRequestPayload (E : Json.Escape) (pv : PersonalityDisplacement) (langCode : Bytes)
    (history : MessageHistory) : Bytes :=
  let request := pv.text ++ [bar] ++ toText langCode ++ [bar]
  (request ++ jsonString E history).map (fun c => if c = lf then 32 else c) ++ [lf]

def RequestType.toString (message : RequestType) (payload : Bytes) : Bytes :=
  decimal message.code ++ bar :: payload

/-- the bytes that `SocketClient.sendMessage` writes; `lineSeparator` is what `println` appends -/
def SocketClient.sendMessage (lineSeparator : Bytes) (message : RequestType) (payload : Bytes) :
    Bytes :=
  message.toString payload ++ lineSeparator

/-! ## the fields of a request -/

/-- a byte that no layer of the protocol treats in a special way -/
def ordinary (b : UInt8) : Bool := 32 ≤ b && b != bar

theorem ordinary_ne {b : UInt8} (h : ordinary b = true) : b ≠ bar ∧ b ≠ 0 ∧ b ≠ lf ∧ b ≠ cr := by
  refine ⟨?_, ?_, ?_, ?_⟩ <;> rintro rfl <;> exact absurd h (by decide)

theorem name_ordinary (v : PersonalityDisplacementValues) :
    v.name.all ordinary = true ∧ v.name.length ≤ 9 := by
  cases v <;> decide

theorem personality_ordinary (pv : PersonalityDisplacement) : pv.text.all ordinary = true := by
  unfold PersonalityDisplacement.text
  simp only [List.all_append, (name_ordinary _).1, Bool.and_true]
  decide

theorem personality_length (pv : PersonalityDisplacement) :
    pv.text ≠ [] ∧ pv.text.length ≤ maxPersonalitySize - 1 := by
  have h1 := (name_ordinary pv.extroversion).2
  have h2 := (name_ordinary pv.agreeableness).2
  have h3 := (name_ordinary pv.conscientiousness).2
  have h4 := (name_ordinary pv.emotionalStability).2
  have h5 := (name_ordinary pv.opennessToExperiences).2
  have hlen : pv.text.length = 15 + pv.extroversion.name.length + 18 + pv.agreeableness.name.length +
      22 + pv.conscientiousness.name.length + 24 + pv.emotionalStability.name.length + 2 + 24 +
      pv.opennessToExperiences.name.length := by
    unfold PersonalityDisplacement.text
    simp only [List.length_append]
    rfl
  refine ⟨?_, ?_⟩
  · intro e
    rw [e, List.length_nil] at hlen
    omega
  · unfold maxPersonalitySize
    omega

theorem toText_language (langCode : Bytes) :
    (toText langCode).all ordinary = true ∧ toText langCode ≠ [] ∧
      (toText langCode).length ≤ maxLanguageSize - 1 := by
  unfold toText
  split
  · decide
  · split
    · decide
    · split <;> decide

/-- A byte that is no syntax of the history stands in it exactly if it stands in an escaped text. -/
theorem mem_encodeToString {E : Json.Escape} {b : UInt8}
    (hb : b ∉ ascii "[]{},:\"" ∧ b ∉ ascii "role" ∧ b ∉ ascii "parts" ∧ b ∉ ascii "text" ∧
      b ∉ ascii "user" ∧ b ∉ ascii "model") (contents : List ConversationLine) :
    b ∈ encodeToString E contents ↔
      ∃ line ∈ contents, ∃ part ∈ line.parts, b ∈ E.text part.text := by
  obtain ⟨hsyn, hrole, hparts, htext, huser, hmodel⟩ := hb
  simp only [show ascii "[]{},:\"" = [91, 93, 123, 125, Json.comma, Json.colon, Json.quote] from rfl,
    List.mem_cons, List.not_mem_nil, or_false, not_or] at hsyn
  obtain ⟨h1, h2, h3, h4, hcomma, hcolon, hquote⟩ := hsyn
  have hpart : ∀ m : Messages, b ∈ m.encode E ↔ b ∈ E.text m.text := by
    intro m
    unfold Messages.encode
    rw [Json.mem_object hcomma h3 h4]
    simp only [List.mem_singleton, exists_eq_left]
    rw [Json.mem_member hquote hcolon htext, Json.mem_string hquote]
  have hline : ∀ line : ConversationLine,
      b ∈ line.encode E ↔ ∃ part ∈ line.parts, b ∈ E.text part.text := by
    intro line
    have hname : b ∉ Json.quote :: (line.role.name ++ [Json.quote]) := by
      have hr : b ∉ line.role.name := by
        cases line.role
        · exact huser
        · exact hmodel
      simp [hquote, hr]
    unfold ConversationLine.encode
    rw [Json.mem_object hcomma h3 h4]
    simp only [List.mem_cons, List.not_mem_nil, or_false, exists_eq_or_imp, exists_eq_left]
    rw [Json.mem_member hquote hcolon hrole, Json.mem_member hquote hcolon hparts,
      Json.mem_array hcomma h1 h2, or_iff_right hname]
    simp only [List.mem_map, exists_exists_and_eq_and, hpart]
  unfold encodeToString
  rw [Json.mem_array hcomma h1 h2]
  simp only [List.mem_map, exists_exists_and_eq_and, hline]

theorem removeSurrounding_array (items : List Bytes) :
    removeSurrounding [91] [93] (Json.array items) = List.intercalate [Json.comma] items := by
  have hsuf : [93].isSuffixOf (91 :: (List.intercalate [Json.comma] items ++ [93])) = true := by
    rw [List.isSuffixOf_iff_suffix]
    exact ⟨91 :: List.intercalate [Json.comma] items, rfl⟩
  unfold removeSurrounding Json.array
  rw [if_pos ⟨by simp, by simp, hsuf⟩]
  simp

theorem mem_jsonString {E : Json.Escape} {b : UInt8} (h1 : b ≠ 91) (h2 : b ≠ 93)
    (history : MessageHistory) :
    b ∈ jsonString E history ↔ b ∈ encodeToString E history.contents := by
  unfold jsonString encodeToString
  rw [removeSurrounding_array]
  unfold Json.array
  simp [h1, h2]

theorem control_not_mem {s : Bytes} (hs : s.all (fun c => 32 ≤ c) = true) {b : UInt8}
    (hb : b < 32) :
    b ∉ s := by
  intro h
  have hle : 32 ≤ b := by simpa using List.all_eq_true.mp hs b h
  exact absurd (UInt8.lt_of_lt_of_le hb hle) (UInt8.lt_irrefl b)

theorem jsonString_control (E : Json.Escape) (history : MessageHistory) {b : UInt8} (hb : b < 32) :
    b ∉ jsonString E history := by
  have hopen : b ≠ 91 := by rintro rfl; exact absurd hb (by decide)
  have hclose : b ≠ 93 := by rintro rfl; exact absurd hb (by decide)
  rw [mem_jsonString hopen hclose, mem_encodeToString ⟨control_not_mem (by decide) hb,
    control_not_mem (by decide) hb, control_not_mem (by decide) hb, control_not_mem (by decide) hb,
    control_not_mem (by decide) hb, control_not_mem (by decide) hb⟩]
  rintro ⟨line, -, part, -, hm⟩
  exact E.control_not_mem hb part.text hm

theorem bar_mem_jsonString (E : Json.Escape) (history : MessageHistory) :
    bar ∈ jsonString E history ↔
      ∃ line ∈ history.contents, ∃ part ∈ line.parts, bar ∈ part.text := by
  rw [mem_jsonString (by decide) (by decide), mem_encodeToString (by decide)]
  simp only [E.mem_text (b := bar) (by decide) (by decide)]

theorem jsonString_head (E : Json.Escape) {history : MessageHistory} (h : history.contents ≠ []) :
    ∃ tl, jsonString E history = 123 :: tl := by
  unfold jsonString encodeToString
  rw [removeSurrounding_array]
  obtain ⟨line, lines, hl⟩ := List.exists_cons_of_ne_nil h
  rw [hl, List.map_cons]
  by_cases hn : lines = []
  · subst hn
    exact ⟨_, rfl⟩
  · rw [List.intercalate_cons_of_ne_nil (by simpa using hn)]
    exact ⟨_, rfl⟩

/-! ## the round trip -/

def requestText (E : Json.Escape) (pv : PersonalityDisplacement) (langCode : Bytes)
    (history : MessageHistory) : Bytes :=
  pv.text ++ bar :: (toText langCode ++ bar :: jsonString E history)

theorem ordinary_not_mem {s : Bytes} (h : s.all ordinary = true) :
    bar ∉ s ∧ 0 ∉ s ∧ lf ∉ s ∧ cr ∉ s := by
  have hall : ∀ b ∈ s, ordinary b = true := by simpa using h
  refine ⟨fun hm => ?_, fun hm => ?_, fun hm => ?_, fun hm => ?_⟩
  · exact (ordinary_ne (hall _ hm)).1 rfl
  · exact (ordinary_ne (hall _ hm)).2.1 rfl
  · exact (ordinary_ne (hall _ hm)).2.2.1 rfl
  · exact (ordinary_ne (hall _ hm)).2.2.2 rfl

theorem requestText_not_mem (E : Json.Escape) (pv : PersonalityDisplacement) (langCode : Bytes)
    (history : MessageHistory) :
    0 ∉ requestText E pv langCode history ∧ lf ∉ requestText E pv langCode history ∧
      cr ∉ requestText E pv langCode history := by
  obtain ⟨-, p0, plf, pcr⟩ := ordinary_not_mem (personality_ordinary pv)
  obtain ⟨-, l0, llf, lcr⟩ := ordinary_not_mem (toText_language langCode).1
  unfold requestText
  simp only [List.mem_append, List.mem_cons, not_or]
  refine ⟨⟨p0, by decide, l0, by decide, ?_⟩, ⟨plf, by decide, llf, by decide, ?_⟩,
    ⟨pcr, by decide, lcr, by decide, ?_⟩⟩
  all_goals exact jsonString_control E history (by decide)

theorem toRequestPayload_eq (E : Json.Escape) (pv : PersonalityDisplacement) (langCode : Bytes)
    (history : MessageHistory) :
    toRequestPayload E pv langCode history = requestText E pv langCode history ++ [lf] := by
  have hlf := (requestText_not_mem E pv langCode history).2.1
  have hrequest : pv.text ++ [bar] ++ toText langCode ++ [bar] ++ jsonString E history =
      requestText E pv langCode history := by
    simp [requestText]
  have hmap : (requestText E pv langCode history).map (fun c => if c = lf then 32 else c) =
      requestText E pv langCode history := by
    refine (List.map_congr_left fun c hc => if_neg ?_).trans (List.map_id _)
    exact fun e => hlf (e ▸ hc)
  unfold toRequestPayload
  simp only [hrequest, hmap]

/-- **A request is a line**, and what stands behind it. -/
theorem request_line (E : Json.Escape) (message : RequestType) (pv : PersonalityDisplacement)
    (langCode : Bytes) (history : MessageHistory) (rest : Bytes) :
    message.toString (toRequestPayload E pv langCode history) ++ rest =
      decimal message.code ++ bar :: (requestText E pv langCode history ++ lf :: rest) := by
  unfold RequestType.toString
  rw [toRequestPayload_eq]
  simp

theorem RequestType.code_le (message : RequestType) : message.code ≤ 1000 := by
  cases message <;> decide

/-- `receive_message` and then `parse_client_dialog_message`, on a server that has memory -/
def receiveRequest (stream : Bytes) : Option (Int × ClientMessage) :=
  (receiveMessage stream).bind fun m =>
    (parseClientDialogMessage true m.data).map fun dialog => (m.type, dialog)

/-- What the server obtains: the history up to its first '|'. -/
theorem receiveRequest_request (E : Json.Escape) (message : RequestType)
    (pv : PersonalityDisplacement) (langCode : Bytes) {history : MessageHistory}
    (hne : history.contents ≠ [])
    (hpayload : (toRequestPayload E pv langCode history).length ≤ maxMessageSize)
    (hjson : (jsonString E history).length ≤ maxConversationSize - 1) (rest : Bytes) :
    receiveRequest (message.toString (toRequestPayload E pv langCode history) ++ rest) =
      some ((message.code : Int), ⟨pv.text, toText langCode,
        (jsonString E history).takeWhile (· != bar), true⟩) := by
  obtain ⟨h0, hlf, hcr⟩ := requestText_not_mem E pv langCode history
  obtain ⟨pb, p0, -, -⟩ := ordinary_not_mem (personality_ordinary pv)
  obtain ⟨hl, lne, llen⟩ := toText_language langCode
  obtain ⟨lb, l0, -, -⟩ := ordinary_not_mem hl
  have hfit : (requestText E pv langCode history).length ≤ maxMessageSize - 1 := by
    rw [toRequestPayload_eq, List.length_append, List.length_singleton] at hpayload
    omega
  have hreceive := receiveMessage_line hlf hcr message.code_le hfit h0 rest
  -- the history up to its first '|', which is not empty, and what follows
  have hc0 : 0 ∉ jsonString E history := jsonString_control E history (by decide)
  obtain ⟨tl, htl⟩ := jsonString_head E hne
  obtain ⟨c, post, hsplit, hcb, hpost⟩ : ∃ c post, jsonString E history = c ++ post ∧ bar ∉ c ∧
      (post = [] ∨ ∃ r, post = bar :: r) := by
    rcases delim_cases bar (jsonString E history) with h | ⟨c, r, he, hc⟩
    · exact ⟨_, [], (List.append_nil _).symm, h, .inl rfl⟩
    · exact ⟨c, bar :: r, he, hc, .inr ⟨r, rfl⟩⟩
  have htake : (jsonString E history).takeWhile (· != bar) = c := by
    rw [hsplit]
    rcases hpost with rfl | ⟨r, rfl⟩
    · rw [List.append_nil, takeWhile_no_delim hcb]
    · exact takeWhile_delim hcb r
  have hcne : c ≠ [] := by
    rw [← htake, htl]
    simp [bar]
  rw [hsplit, List.mem_append, not_or] at hc0
  have hparse := parse_fields (p := pv.text) (l := toText langCode)
    ⟨pb, p0, (personality_length pv).1⟩ ⟨lb, l0, lne⟩ ⟨hcb, hc0.1, hcne⟩ hpost hc0.2
  have hclen : c.length ≤ maxConversationSize - 1 := by
    rw [hsplit, List.length_append] at hjson
    omega
  rw [cut_eq_self (personality_length pv).2, cut_eq_self llen, cut_eq_self hclen, ← hsplit]
    at hparse
  unfold receiveRequest
  rw [request_line, hreceive, Option.bind_some, htake]
  show (parseClientDialogMessage true (requestText E pv langCode history)).map _ = _
  unfold requestText
  rw [hparse, Option.map_some]

/-- **The round trip of a request.**  For every request that fits the limits of the server, the
server obtains the type of the request, the personality, the language and the whole history that the
client put in, if and only if no text of the history contains '|'. -/
theorem request_roundTrip_iff (E : Json.Escape) (lineSeparator : Bytes) (message : RequestType)
    (pv : PersonalityDisplacement) (langCode : Bytes) (history : MessageHistory)
    (hne : history.contents ≠ [])
    (hpayload : (toRequestPayload E pv langCode history).length ≤ maxMessageSize)
    (hjson : (jsonString E history).length ≤ maxConversationSize - 1) :
    receiveRequest
        (SocketClient.sendMessage lineSeparator message (toRequestPayload E pv langCode history)) =
      some ((message.code : Int), ⟨pv.text, toText langCode, jsonString E history, true⟩) ↔
      ∀ line ∈ history.contents, ∀ part ∈ line.parts, bar ∉ part.text := by
  unfold SocketClient.sendMessage
  rw [receiveRequest_request E message pv langCode hne hpayload hjson lineSeparator]
  have hwhole : (jsonString E history).takeWhile (· != bar) = jsonString E history ↔
      bar ∉ jsonString E history := by
    constructor
    · intro h hm
      rw [List.takeWhile_eq_self_iff] at h
      exact absurd (h bar hm) (by decide)
    · exact takeWhile_no_delim
  have hbar : bar ∉ jsonString E history ↔
      ∀ line ∈ history.contents, ∀ part ∈ line.parts, bar ∉ part.text := by
    rw [bar_mem_jsonString]
    push Not
    rfl
  rw [← hbar, ← hwhole]
  simp

def oneTurn (text : Bytes) : MessageHistory := ⟨[⟨.user, [⟨text⟩]⟩]⟩

def calm : PersonalityDisplacement := ⟨.low, .high, .medium, .veryHigh, .medium⟩

theorem request_roundTrip_hello :
    receiveRequest (SocketClient.sendMessage [lf] .aiRequest
        (toRequestPayload Json.shortEscapes calm (ascii "en-GB") (oneTurn (ascii "say \"hi\"")))) =
      some (1, ⟨calm.text, ascii "english", jsonString Json.shortEscapes
        (oneTurn (ascii "say \"hi\"")), true⟩) ↔
      ∀ line ∈ (oneTurn (ascii "say \"hi\"")).contents, ∀ part ∈ line.parts, bar ∉ part.text :=
  request_roundTrip_iff Json.shortEscapes [lf] .aiRequest calm (ascii "en-GB")
    (oneTurn (ascii "say \"hi\"")) (by decide) (by decide +kernel) (by decide +kernel)

/-- **A history that is cut.**  The user says `a|b`. -/
theorem request_cut :
    receiveRequest (SocketClient.sendMessage [lf] .aiRequest
        (toRequestPayload Json.shortEscapes calm (ascii "it-IT") (oneTurn (ascii "a|b")))) =
      some (1, ⟨calm.text, ascii "italian",
        ascii "\x7b\"role\":\"user\",\"parts\":[\x7b\"text\":\"a", true⟩) ∧
    jsonString Json.shortEscapes (oneTurn (ascii "a|b")) =
      ascii "\x7b\"role\":\"user\",\"parts\":[\x7b\"text\":\"a|b\"\x7d]\x7d" := by
  decide +kernel

end Wire
