import RobotDialog.Lib.JsonDecode
import RobotDialog.Server.History
import RobotDialog.Server.Splice

/-!
# What the AI is asked

From the dialog on the robot to the JSON document that the server posts: `retrieveHistory`,
`Parser.toRequestPayload`, the line on the connection, `parse_client_dialog_message` and
`generate_gemini_request_json`, one behind the other.

* `retrieveHistory`      the last five items of the dialog;
* `question`             the turns that a JSON document asks about (what the document means);
* `lines_decode`         the encoded turns are read, and decode to the turns;
* `question_preserved`   the AI is asked the premise and the last items of the dialog, unchanged.
-/

namespace Client
open CString Wire Server

/-! ## the dialog -/

/-- an item of `Furhat.dialogHistory` -/
inductive DialogItem where
  | responseItem (text : Bytes)               -- what the user said
  | utteranceItem (text : Bytes)              -- what the robot said
  | other
  deriving DecidableEq, Repr

def toConversationLine (role : Role) (text : Bytes) : ConversationLine := ⟨role, [⟨text⟩]⟩

def DialogItem.line : DialogItem → Option ConversationLine
  | .responseItem text => some (toConversationLine .user text)
  | .utteranceItem text => some (toConversationLine .model text)
  | .other => none

/-- `retrieveHistory` on the items of the dialog -/
def retrieveHistory (all : List DialogItem) : MessageHistory :=
  ⟨(all.rtake 5).filterMap DialogItem.line⟩

/-! ## what a document means -/

def asText : Json.Value → Option Bytes
  | .string s => Json.decode s
  | _ => none

def asMessages : Json.Value → Option Messages
  | .object [(name, v)] => if name = sym "text" then (asText v).map Messages.mk else none
  | _ => none

def asRole (name : Bytes) : Option Role :=
  if name = ascii "user" then some .user
  else if name = ascii "model" then some .model
  else none

def asLine : Json.Value → Option ConversationLine
  | .object [(role, r), (parts, .array ps)] =>
    if role = sym "role" ∧ parts = sym "parts" then
      ((asText r).bind asRole).bind fun role => (ps.mapM asMessages).map (ConversationLine.mk role)
    else none
  | _ => none

/-- the turns that a document asks about -/
def question : Json.Value → Option (List ConversationLine)
  | .object members =>
    match members.find? fun m => m.1 = sym "contents" with
    | some (_, .array turns) => turns.mapM asLine
    | _ => none
  | _ => none

/-! ## the encoded turns -/

section
variable {E : Json.Escape}

theorem messages_decode (hE : E.Faithful) (m : Messages) :
    ∃ v, Json.Reads (m.encode E) v ∧ asMessages v = some m := by
  obtain ⟨u, hu, hv⟩ := Json.reads_decode hE m.text
  have hmember := @Json.reads_member (ascii "text") _ _ (Json.plain_of_all rfl) hv
  refine ⟨_, Json.reads_object (List.Forall₂.cons hmember List.Forall₂.nil), ?_⟩
  show (Json.decode u).map Messages.mk = some m
  rw [hu]
  rfl

theorem parts_decode (hE : E.Faithful) (parts : List Messages) :
    ∃ vs, Json.ReadsAll (parts.map (Messages.encode E)) vs ∧
      List.Forall₂ (fun v m => asMessages v = some m) vs parts := by
  induction parts with
  | nil => exact ⟨[], List.Forall₂.nil, List.Forall₂.nil⟩
  | cons m parts ih =>
    obtain ⟨vs, hvs, hparts⟩ := ih
    obtain ⟨v, hv, hm⟩ := messages_decode hE m
    exact ⟨v :: vs, List.Forall₂.cons hv hvs, List.Forall₂.cons hm hparts⟩

theorem line_decode (hE : E.Faithful) (line : ConversationLine) :
    ∃ v, Json.Reads (line.encode E) v ∧ asLine v = some line := by
  obtain ⟨vs, hvs, hparts⟩ := parts_decode hE line.parts
  have hname : ∀ b ∈ line.role.name, Json.mustEscape b = false := by
    cases line.role <;> exact Json.plain_of_all rfl
  have hrole := @Json.reads_member (ascii "role") _ _ (Json.plain_of_all rfl)
    (Json.reads_plain hname)
  have harray := @Json.reads_member (ascii "parts") _ _ (Json.plain_of_all rfl)
    (Json.reads_array hvs)
  refine ⟨_, Json.reads_object (List.Forall₂.cons hrole (List.Forall₂.cons harray
    List.Forall₂.nil)), ?_⟩
  have hasRole : (Json.decode (line.role.name.map .byte)).bind asRole = some line.role := by
    rw [Json.decode_bytes]
    cases line.role <;> decide
  show ((Json.decode (line.role.name.map .byte)).bind asRole).bind (fun role =>
    (vs.mapM asMessages).map (ConversationLine.mk role)) = some line
  rw [hasRole, Json.mapM_of_forall₂ hparts]
  rfl

/-- **The encoded turns decode to the turns.** -/
theorem lines_decode (hE : E.Faithful) (lines : List ConversationLine) :
    ∃ vs, Json.ReadsAll (lines.map (ConversationLine.encode E)) vs ∧
      List.Forall₂ (fun v line => asLine v = some line) vs lines := by
  induction lines with
  | nil => exact ⟨[], List.Forall₂.nil, List.Forall₂.nil⟩
  | cons line lines ih =>
    obtain ⟨vs, hvs, hlines⟩ := ih
    obtain ⟨v, hv, hline⟩ := line_decode hE line
    exact ⟨v :: vs, List.Forall₂.cons hv hvs, List.Forall₂.cons hline hlines⟩

theorem history_elements (hE : E.Faithful) {lines : List ConversationLine} (hne : lines ≠ []) :
    ∃ vs, vs ≠ [] ∧ Json.Elements (jsonString E ⟨lines⟩) vs ∧ vs.mapM asLine = some lines := by
  obtain ⟨vs, hvs, hlines⟩ := lines_decode hE lines
  have htexts : lines.map (ConversationLine.encode E) ≠ [] := by
    rwa [Ne, List.map_eq_nil_iff]
  have hrun := Json.run_items hvs htexts [] []
  refine ⟨vs, ?_, ?_, Json.mapM_of_forall₂ hlines⟩
  · rintro rfl
    exact htexts (List.forall₂_nil_right_iff.mp hvs)
  · rw [jsonString_eq]
    exact Json.elements_of_value hrun (List.cons_ne_nil _ _) rfl

/-! ## the document -/

theorem premiseTurn_line (premise : Bytes) :
    asLine (premiseTurn (premise.map .byte)) = some (toConversationLine .user premise) := by
  have hasRole : (Json.decode (sym "user")).bind asRole = some .user := by decide
  have htext : [Json.Value.object [(sym "text", .string (premise.map .byte))]].mapM asMessages =
      some [⟨premise⟩] := by
    refine Json.mapM_of_forall₂ (List.Forall₂.cons ?_ List.Forall₂.nil)
    show (Json.decode (premise.map .byte)).map Messages.mk = some ⟨premise⟩
    rw [Json.decode_bytes]
    rfl
  show ((Json.decode (sym "user")).bind asRole).bind (fun role =>
    ([Json.Value.object [(sym "text", .string (premise.map .byte))]].mapM asMessages).map
      (ConversationLine.mk role)) = some (toConversationLine .user premise)
  rw [hasRole, htext]
  rfl

theorem question_requestValue (premise : Bytes) {turns : List Json.Value}
    {lines : List ConversationLine} (h : turns.mapM asLine = some lines) :
    question (requestValue (premise.map .byte) turns) =
      some (toConversationLine .user premise :: lines) := by
  show (premiseTurn (premise.map .byte) :: turns).mapM asLine = _
  rw [List.mapM_cons, premiseTurn_line, h]
  rfl

/-- the turns that a client asks about: the premise and the last items of the dialog -/
def asked (pv : PersonalityDisplacement) (langCode : Bytes) (dialog : List DialogItem) :
    List ConversationLine :=
  toConversationLine .user (premise pv.text (toText langCode)) :: (retrieveHistory dialog).contents

/-- the document that the server posts -/
def posted (E : Json.Escape) (pv : PersonalityDisplacement) (langCode : Bytes)
    (dialog : List DialogItem) : Bytes :=
  requestBody (premise pv.text (toText langCode)) (jsonString E (retrieveHistory dialog))

theorem premise_clean (pv : PersonalityDisplacement) (langCode : Bytes) :
    (premise pv.text (toText langCode)).all escapable = true := by
  obtain ⟨hlang, -, hlanglen⟩ := toText_language langCode
  rw [premise_escapable (personality_length pv).2 hlanglen]
  intro c hc
  have hord : (pv.text ++ toText langCode).all ordinary = true := by
    rw [List.all_append, personality_ordinary, hlang]
    rfl
  have hc' := List.all_eq_true.mp hord c hc
  unfold ordinary at hc'
  rw [Bool.and_eq_true, decide_eq_true_eq] at hc'
  exact .inl hc'.1

theorem posted_question (hE : E.Faithful) (pv : PersonalityDisplacement) (langCode : Bytes)
    {dialog : List DialogItem} (hne : (retrieveHistory dialog).contents ≠ []) :
    (Json.read (posted E pv langCode dialog)).bind question = some (asked pv langCode dialog) := by
  obtain ⟨vs, hvs, helements, hlines⟩ := history_elements hE hne
  unfold posted
  rw [read_requestBody, if_pos (premise_clean pv langCode), run_conversation _ helements hvs,
    Option.bind_some]
  exact question_requestValue _ hlines

theorem generate_posted (pv : PersonalityDisplacement) (langCode : Bytes) {dialog : List DialogItem}
    (hfit : (jsonString E (retrieveHistory dialog)).length ≤ maxConversationSize - 1) :
    generateGeminiRequestJson pv.text (toText langCode) (jsonString E (retrieveHistory dialog))
      (maxMessageSize * 4) = some (posted E pv langCode dialog) :=
  generate_eq (personality_length pv).2 (toText_language langCode).2.2 hfit

theorem parsed_request (pv : PersonalityDisplacement) (langCode lineSeparator rest : Bytes)
    {dialog : List DialogItem} (hne : (retrieveHistory dialog).contents ≠ [])
    (hbar : ∀ line ∈ (retrieveHistory dialog).contents, ∀ part ∈ line.parts, bar ∉ part.text)
    (hfit : (jsonString E (retrieveHistory dialog)).length ≤ maxConversationSize - 1) :
    Parsed (SocketClient.sendMessage lineSeparator .aiRequest
      (toRequestPayload E pv langCode (retrieveHistory dialog)) ++ rest) msgAiDialogRequest
        ⟨pv.text, toText langCode, jsonString E (retrieveHistory dialog), true⟩ := by
  have hreceived := (history_received E pv langCode lineSeparator rest hne hbar _).mpr rfl
  rwa [List.take_of_length_le hfit] at hreceived

/-- **The AI is asked what was said.**  For a dialog whose last items do not contain '|' and fit into
the conversation buffer, whatever their other bytes are: the server accepts the request, and the
document that it posts asks, read as JSON, the premise with the personality and the language of the
client, and then exactly the last items of the dialog, in their order, with their roles. -/
theorem question_preserved (hE : E.Faithful) (lineSeparator rest : Bytes)
    (pv : PersonalityDisplacement) (langCode : Bytes) (dialog : List DialogItem)
    (hne : (retrieveHistory dialog).contents ≠ [])
    (hbar : ∀ line ∈ (retrieveHistory dialog).contents, ∀ part ∈ line.parts, bar ∉ part.text)
    (hfit : (jsonString E (retrieveHistory dialog)).length ≤ maxConversationSize - 1) :
    ∃ request json, Parsed (SocketClient.sendMessage lineSeparator .aiRequest
        (toRequestPayload E pv langCode (retrieveHistory dialog)) ++ rest) msgAiDialogRequest
          request ∧
      generateGeminiRequestJson request.personality request.language request.conversation
        (maxMessageSize * 4) = some json ∧
      (Json.read json).bind question = some (asked pv langCode dialog) :=
  ⟨_, _, parsed_request pv langCode lineSeparator rest hne hbar hfit, generate_posted pv langCode hfit,
    posted_question hE pv langCode hne⟩

end

/-- A dialog of seven items, of which the last five are asked; one has a quotation mark in it. -/
theorem question_preserved_dialog :
    ∃ request json, Parsed (SocketClient.sendMessage [lf] .aiRequest
        (toRequestPayload Json.shortEscapes calm (ascii "it-IT") (retrieveHistory
          [.responseItem (ascii "uno"), .utteranceItem (ascii "due"), .responseItem (ascii "tre"),
            .utteranceItem (ascii "quattro"), .other, .responseItem (ascii "dice \"ciao\""),
            .utteranceItem (ascii "sei")])) ++ []) msgAiDialogRequest request ∧
      generateGeminiRequestJson request.personality request.language request.conversation
        (maxMessageSize * 4) = some json ∧
      (Json.read json).bind question =
        some [toConversationLine .user (premise calm.text (ascii "italian")),
          toConversationLine .user (ascii "tre"), toConversationLine .model (ascii "quattro"),
          toConversationLine .user (ascii "dice \"ciao\""), toConversationLine .model (ascii "sei")] :=
  question_preserved Json.shortEscapes_faithful [lf] [] calm (ascii "it-IT") _ (by decide) (by decide)
    (by decide +kernel)

end Client
