import RobotDialog.Lib.JsonContext
import RobotDialog.Wire.Dialog

/-!
# The request to the AI

`generate_gemini_request_json` of `gemini_ai.c`: the premise with the personality and the language
is escaped into a string, the conversation goes into the array `contents` as it is.

* `premiseText`, `escapeLoop`       the premise and its escapes;
* `generateGeminiRequestJson`       the function;
* `generate_eq`                     no buffer is too small for an accepted request;
* `read_requestBody`                the body as JSON: what the conversation does behind the premise.
-/

namespace Server
open CString Wire

/-! ## the function -/

/-- the premise before it is cut to its buffer -/
def premiseText (personality language : Bytes) : Bytes :=
  ascii "You are a robot assistant (Furhat robot) designed to adapt to human personality. " ++
  ascii "Respond in " ++ language ++ ascii " language. Here is your personality profile: " ++
  personality ++ ascii "\\n\\n" ++
  ascii "Keep responses concise (1-3 sentences) and naturally conversational."

def premise (personality language : Bytes) : Bytes := cut 1024 (premiseText personality language)

/-- what the loop writes for one byte -/
def escapeChar (c : UInt8) : Bytes :=
  if c = Json.quote then [Json.backslash, Json.quote]
  else if c = Json.backslash then [Json.backslash, Json.backslash]
  else if c = lf then [Json.backslash, 110]
  else if c = cr then [Json.backslash, 114]
  else [c]

/-- the loop that escapes the premise: `dst` is what it has written into a buffer of `size` bytes -/
def escapeLoop (size : Nat) : Bytes → Bytes → Bytes
  | dst, [] => dst
  | dst, c :: src =>
    if dst.length < size - 2 then escapeLoop size (dst ++ escapeChar c) src else dst

/-- the template up to the settings of the filters -/
def configText : Bytes :=
  ascii "\x7b" ++
  ascii "  \"generationConfig\": \x7b" ++
  ascii "    \"temperature\": 0.9," ++
  ascii "    \"maxOutputTokens\": 800," ++
  ascii "    \"topP\": 1," ++
  ascii "    \"topK\": 1" ++
  ascii "  \x7d,"

/-- the template of the settings of the filters -/
def safetyText : Bytes :=
  ascii "  \"safetySettings\": [" ++
  ascii "    \x7b" ++
  ascii "      \"category\": \"HARM_CATEGORY_HARASSMENT\"," ++
  ascii "      \"threshold\": \"BLOCK_MEDIUM_AND_ABOVE\"" ++
  ascii "    \x7d," ++
  ascii "    \x7b" ++
  ascii "      \"category\": \"HARM_CATEGORY_HATE_SPEECH\"," ++
  ascii "      \"threshold\": \"BLOCK_MEDIUM_AND_ABOVE\"" ++
  ascii "    \x7d," ++
  ascii "    \x7b" ++
  ascii "      \"category\": \"HARM_CATEGORY_SEXUALLY_EXPLICIT\"," ++
  ascii "      \"threshold\": \"BLOCK_MEDIUM_AND_ABOVE\"" ++
  ascii "    \x7d," ++
  ascii "    \x7b" ++
  ascii "      \"category\": \"HARM_CATEGORY_DANGEROUS_CONTENT\"," ++
  ascii "      \"threshold\": \"BLOCK_MEDIUM_AND_ABOVE\"" ++
  ascii "    \x7d" ++
  ascii "  ],"

/-- the template of the premise, up to its text -/
def contentsText : Bytes :=
  ascii "  \"contents\": [" ++
  ascii "    \x7b" ++
  ascii "      \"role\": \"user\"," ++
  ascii "      \"parts\": [" ++
  ascii "        \x7b" ++
  ascii "          \"text\": \""

/-- the template up to the premise -/
def requestHead : Bytes := configText ++ safetyText ++ contentsText

/-- the template between the premise and the conversation -/
def requestMiddle : Bytes :=
  ascii "\"" ++
  ascii "        \x7d" ++
  ascii "      ]" ++
  ascii "    \x7d," ++
  ascii "    "

/-- the template behind the conversation -/
def requestTail : Bytes := ascii "  ]" ++ ascii "\x7d"

/-- `generate_gemini_request_json`; `none` is the return value -1 -/
def generateGeminiRequestJson (personality language conversation : Bytes) (outputSize : Nat) :
    Option Bytes :=
  let escaped := escapeLoop 4096 [] (premise personality language)
  let json := requestHead ++ escaped ++ requestMiddle ++ conversation ++ requestTail
  if json.length ≥ outputSize then none else some json

/-! ## the template as JSON -/

/-- a name or a text without escapes -/
def sym (s : String) : List Json.Sym := (ascii s).map .byte

def generationConfig : Json.Value :=
  .object [(sym "temperature", .number (ascii "0.9")),
    (sym "maxOutputTokens", .number (ascii "800")),
    (sym "topP", .number (ascii "1")), (sym "topK", .number (ascii "1"))]

def safetySetting (category : String) : Json.Value :=
  .object [(sym "category", .string (sym category)),
    (sym "threshold", .string (sym "BLOCK_MEDIUM_AND_ABOVE"))]

def safetySettings : Json.Value :=
  .array [safetySetting "HARM_CATEGORY_HARASSMENT", safetySetting "HARM_CATEGORY_HATE_SPEECH",
    safetySetting "HARM_CATEGORY_SEXUALLY_EXPLICIT",
    safetySetting "HARM_CATEGORY_DANGEROUS_CONTENT"]

/-- the members in front of `contents` -/
def settings : List Json.Member :=
  [(sym "generationConfig", generationConfig), (sym "safetySettings", safetySettings)]

/-- the turn that gives the AI its premise -/
def premiseTurn (text : List Json.Sym) : Json.Value :=
  .object [(sym "role", .string (sym "user")), (sym "parts",
    .array [.object [(sym "text", .string text)]])]

/-- a request with these turns behind the premise -/
def requestValue (text : List Json.Sym) (turns : List Json.Value) : Json.Value :=
  .object (settings ++ [(sym "contents", .array (premiseTurn text :: turns))])

/-- what is open where the premise stands -/
def premiseStack : List Json.Frame :=
  [.member [] (sym "text"), .array [], .member [(sym "role", .string (sym "user"))] (sym "parts"),
    .array [], .member settings (sym "contents")]

set_option maxRecDepth 100000 in
theorem run_configText : Json.run Json.start configText =
    some ⟨.name, [.object [(sym "generationConfig", generationConfig)]]⟩ := by
  rfl

set_option maxRecDepth 100000 in
theorem run_safetyText :
    Json.run ⟨.name, [.object [(sym "generationConfig", generationConfig)]]⟩ safetyText =
      some ⟨.name, [.object settings]⟩ := by
  rfl

set_option maxRecDepth 100000 in
theorem run_contentsText :
    Json.run ⟨.name, [.object settings]⟩ contentsText = some ⟨.string [], premiseStack⟩ := by
  rfl

theorem run_requestHead : Json.run Json.start requestHead = some ⟨.string [], premiseStack⟩ := by
  unfold requestHead
  rw [Json.run_append, Json.run_append, run_configText, Option.bind_some, run_safetyText,
    Option.bind_some, run_contentsText]

set_option maxRecDepth 100000 in
theorem run_requestMiddle (text : List Json.Sym) :
    Json.run ⟨.string text, premiseStack⟩ requestMiddle =
      some ⟨.value, [.array [premiseTurn text], .member settings (sym "contents")]⟩ := by
  rfl

/-! ## the premise -/

/-- JSON takes the byte as the loop writes it -/
def escapable (c : UInt8) : Bool := 32 ≤ c || c == lf || c == cr

theorem run_escapeChar (text : List Json.Sym) (fs : List Json.Frame) (c : UInt8) :
    Json.run ⟨.string text, fs⟩ (escapeChar c) =
      if escapable c then some ⟨.string (text ++ [.byte c]), fs⟩ else none := by
  unfold escapeChar
  by_cases hq : c = Json.quote
  · subst hq
    rfl
  by_cases hb : c = Json.backslash
  · subst hb
    rfl
  by_cases hlf : c = lf
  · subst hlf
    rfl
  by_cases hcr : c = cr
  · subst hcr
    rfl
  rw [if_neg hq, if_neg hb, if_neg hlf, if_neg hcr]
  have hstep : Json.run ⟨.string text, fs⟩ [c] =
      if c < 32 then none else some ⟨.string (text ++ [.byte c]), fs⟩ := by
    have hgo : Json.step ⟨.string text, fs⟩ c =
        if c = Json.quote then some (Json.endString text fs)
        else if c = Json.backslash then some ⟨.escape text, fs⟩
        else if c < 32 then none
        else some ⟨.string (text ++ [.byte c]), fs⟩ := rfl
    rw [Json.run_cons, hgo, if_neg hq, if_neg hb]
    split <;> rfl
  have hesc : escapable c = decide (32 ≤ c) := by
    unfold escapable
    rw [beq_eq_false_iff_ne.mpr hlf, beq_eq_false_iff_ne.mpr hcr, Bool.or_false, Bool.or_false]
  rw [hstep, hesc]
  by_cases hlt : c < 32
  · rw [if_pos hlt, if_neg (by simpa using hlt)]
  · rw [if_neg hlt, if_pos (by simpa using hlt)]

/-- **The escaped premise as a JSON string.** -/
theorem run_escaped (text : List Json.Sym) (fs : List Json.Frame) (src : Bytes) :
    Json.run ⟨.string text, fs⟩ (src.flatMap escapeChar) =
      if src.all escapable then some ⟨.string (text ++ src.map .byte), fs⟩ else none := by
  induction src generalizing text with
  | nil =>
    rw [List.map_nil, List.append_nil]
    rfl
  | cons c src ih =>
    rw [List.flatMap_cons, Json.run_append, run_escapeChar, List.all_cons]
    by_cases hc : escapable c = true
    · rw [if_pos hc, Option.bind_some, ih, hc, Bool.true_and, List.append_assoc]
      rfl
    · rw [if_neg hc, (Bool.not_eq_true _).mp hc, Bool.false_and]
      rfl

theorem length_escapeChar (c : UInt8) : (escapeChar c).length ≤ 2 := by
  unfold escapeChar
  repeat' split
  all_goals simp

theorem length_escaped (src : Bytes) : (src.flatMap escapeChar).length ≤ 2 * src.length := by
  induction src with
  | nil => simp
  | cons c src ih =>
    have hc := length_escapeChar c
    rw [List.flatMap_cons, List.length_append, List.length_cons]
    omega

/-- A premise that leaves two bytes for each of its own is escaped whole. -/
theorem escapeLoop_eq {size : Nat} (dst src : Bytes) (h : dst.length + 2 * src.length ≤ size - 2) :
    escapeLoop size dst src = dst ++ src.flatMap escapeChar := by
  induction src generalizing dst with
  | nil => simp [escapeLoop]
  | cons c src ih =>
    have hc := length_escapeChar c
    rw [List.length_cons] at h
    rw [escapeLoop, if_pos (by omega), ih _ (by rw [List.length_append]; omega), List.flatMap_cons,
      List.append_assoc]

/-- The premise of fields that fit into their buffers is not cut. -/
theorem premise_eq {personality language : Bytes} (hp : personality.length ≤ maxPersonalitySize - 1)
    (hl : language.length ≤ maxLanguageSize - 1) :
    premise personality language = premiseText personality language ∧
      (premise personality language).length ≤ 1023 := by
  have hlen : (premiseText personality language).length ≤ 1023 := by
    have hsum : (premiseText personality language).length =
        81 + 11 + language.length + 45 + personality.length + 4 + 68 := by
      unfold premiseText
      simp only [List.length_append]
      rfl
    unfold maxPersonalitySize at hp
    unfold maxLanguageSize at hl
    omega
  have hcut : premise personality language = premiseText personality language :=
    cut_eq_self hlen
  exact ⟨hcut, by rw [hcut]; exact hlen⟩

theorem all_premiseText (personality language : Bytes) :
    (premiseText personality language).all escapable = (personality ++ language).all escapable := by
  unfold premiseText
  simp only [List.all_append]
  have h1 : (ascii "You are a robot assistant (Furhat robot) designed to adapt to human personality. ").all
      escapable = true := by rfl
  have h2 : (ascii "Respond in ").all escapable = true := by rfl
  have h3 : (ascii " language. Here is your personality profile: ").all escapable = true := by rfl
  have h4 : (ascii "\\n\\n").all escapable = true := by rfl
  have h5 : (ascii "Keep responses concise (1-3 sentences) and naturally conversational.").all
      escapable = true := by rfl
  rw [h1, h2, h3, h4, h5]
  simp only [Bool.true_and, Bool.and_true]
  exact Bool.and_comm _ _

/-! ## the request -/

/-- the request around an escaped premise and a conversation -/
def requestBody (src conversation : Bytes) : Bytes :=
  requestHead ++ src.flatMap escapeChar ++ requestMiddle ++ conversation ++ requestTail

/-- **Fields that fit into their buffers give a request**: none of the buffers is too small. -/
theorem generate_eq {personality language conversation : Bytes}
    (hp : personality.length ≤ maxPersonalitySize - 1) (hl : language.length ≤ maxLanguageSize - 1)
    (hc : conversation.length ≤ maxConversationSize - 1) :
    generateGeminiRequestJson personality language conversation (maxMessageSize * 4) =
      some (requestBody (premise personality language) conversation) := by
  obtain ⟨-, hlen⟩ := premise_eq hp hl
  have hloop : escapeLoop 4096 [] (premise personality language) =
      (premise personality language).flatMap escapeChar := by
    rw [escapeLoop_eq _ _ (by rw [List.length_nil]; omega), List.nil_append]
  have hhead : requestHead.length ≤ 2000 := by
    unfold requestHead configText safetyText contentsText
    simp only [List.length_append]
    decide
  have hmiddle : requestMiddle.length ≤ 100 := by decide
  have htail : requestTail.length = 4 := rfl
  have hescaped := length_escaped (premise personality language)
  have hfit : ¬ (requestBody (premise personality language) conversation).length ≥
      maxMessageSize * 4 := by
    unfold requestBody
    simp only [List.length_append]
    unfold maxConversationSize at hc
    unfold maxMessageSize
    omega
  unfold generateGeminiRequestJson
  rw [hloop]
  exact if_neg hfit

/-- what is open where the conversation stands -/
def conversationStack (text : List Json.Sym) : List Json.Frame :=
  [.array [premiseTurn text], .member settings (sym "contents")]

/-- **A request as JSON**: the premise must be escapable, and the rest is up to the conversation. -/
theorem read_requestBody (src conversation : Bytes) :
    Json.read (requestBody src conversation) =
      if src.all escapable then
        (Json.run ⟨.value, conversationStack (src.map .byte)⟩ (conversation ++ requestTail)).bind
          Json.finish
      else none := by
  unfold Json.read requestBody
  rw [List.append_assoc, Json.run_append, Json.run_append, Json.run_append, run_requestHead,
    Option.bind_some, run_escaped]
  split
  · rw [Option.bind_some, List.nil_append, run_requestMiddle, Option.bind_some]
    rfl
  · rfl

end Server
