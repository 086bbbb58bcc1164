import RobotDialog.Lib.JsonWriter
import RobotDialog.Server.OneReply
import RobotDialog.Wire.Request

/-!
# Long histories

A history of any length on its way from the client to the AI: the line, the payload and the
conversation have buffers of their own, and each of them cuts what does not fit.

* `history_received`      the conversation is the beginning of the history;
* `history_list_iff`      when this beginning is still a list of objects;
* `history_whole_iff`     when the server passes on a list of objects.
-/

namespace Server
open CString Wire

/-! ## the history as JSON -/

theorem messages_reads {E : Json.Escape} (hE : E.Valid) (m : Messages) :
    ∃ v, Json.Reads (m.encode E) v := by
  obtain ⟨v, hv⟩ := Json.reads_string hE m.text
  have hmember := @Json.reads_member (ascii "text") _ _ (Json.plain_of_all rfl) hv
  exact ⟨_, Json.reads_object (List.Forall₂.cons hmember List.Forall₂.nil)⟩

theorem line_object {E : Json.Escape} (hE : E.Valid) (line : ConversationLine) :
    Json.ObjectText (line.encode E) := by
  have hname : ∀ b ∈ line.role.name, Json.mustEscape b = false := by
    cases line.role <;> exact Json.plain_of_all rfl
  obtain ⟨vs, hvs⟩ : ∃ vs, Json.ReadsAll (line.parts.map (Messages.encode E)) vs := by
    induction line.parts with
    | nil => exact ⟨[], List.Forall₂.nil⟩
    | cons m parts ih =>
      obtain ⟨vs, hvs⟩ := ih
      obtain ⟨v, hv⟩ := messages_reads hE m
      exact ⟨v :: vs, List.Forall₂.cons hv hvs⟩
  have hrole := @Json.reads_member (ascii "role") _ _ (Json.plain_of_all rfl)
    (Json.reads_plain hname)
  have hparts := @Json.reads_member (ascii "parts") _ _ (Json.plain_of_all rfl)
    (Json.reads_array hvs)
  exact Json.objectText_object
    (List.Forall₂.cons hrole (List.Forall₂.cons hparts List.Forall₂.nil))

theorem jsonString_eq (E : Json.Escape) (contents : List ConversationLine) :
    jsonString E ⟨contents⟩ =
      List.intercalate [Json.comma] (contents.map (ConversationLine.encode E)) :=
  removeSurrounding_array _

theorem jsonString_take (E : Json.Escape) (contents : List ConversationLine) (k : Nat) :
    jsonString E ⟨contents.take k⟩ <+: jsonString E ⟨contents⟩ := by
  rw [jsonString_eq, jsonString_eq, List.map_take]
  generalize contents.map (ConversationLine.encode E) = texts
  induction texts generalizing k with
  | nil => simp
  | cons o rest ih =>
    rcases Nat.eq_zero_or_pos k with rfl | hk
    · exact List.nil_prefix
    · obtain ⟨n, rfl⟩ : ∃ n, k = n + 1 := ⟨k - 1, by omega⟩
      rw [List.take_succ_cons]
      by_cases hn : rest.take n = []
      · rw [hn, List.intercalate_singleton]
        have hfirst := Json.prefix_first o rest (k := rest.length + 1) (by omega)
        rwa [List.take_of_length_le (by rw [List.length_cons])] at hfirst
      · have hne : rest ≠ [] := by
          rintro rfl
          exact hn List.take_nil
        rw [List.intercalate_cons_of_ne_nil hn, List.intercalate_cons_of_ne_nil hne]
        exact (List.prefix_append_right_inj _).mpr (ih n)

/-- **When the beginning of a history is a list of objects**: when it is the whole history, or when
it ends with a turn. -/
theorem history_list_iff {E : Json.Escape} (hE : E.Valid) {history : MessageHistory}
    (hne : history.contents ≠ []) (size : Nat) :
    (∃ vs, Json.ObjectList ((jsonString E history).take size) vs) ↔
      (jsonString E history).length ≤ size ∨
        ∃ k, 0 < k ∧ (jsonString E ⟨history.contents.take k⟩).length = size := by
  obtain ⟨contents⟩ := history
  have hobjs : ∀ o ∈ contents.map (ConversationLine.encode E), Json.ObjectText o := by
    intro o ho
    obtain ⟨line, -, rfl⟩ := List.mem_map.mp ho
    exact line_object hE line
  have hpre : (jsonString E ⟨contents⟩).take size <+:
      List.intercalate [Json.comma] (contents.map (ConversationLine.encode E)) := by
    rw [← jsonString_eq]
    exact List.take_prefix _ _
  have hpos : 0 < contents.length := List.length_pos_of_ne_nil hne
  rw [Json.prefix_objectList hobjs hpre]
  simp only [List.length_map, ← List.map_take, ← jsonString_eq]
  constructor
  · rintro ⟨k, hk, -, he⟩
    have hlen := congrArg List.length he
    rw [List.length_take] at hlen
    by_cases hle : (jsonString E ⟨contents⟩).length ≤ size
    · exact .inl hle
    · exact .inr ⟨k, hk, by omega⟩
  · rintro (hle | ⟨k, hk, hlen⟩)
    · refine ⟨contents.length, hpos, le_rfl, ?_⟩
      rw [List.take_length, List.take_of_length_le hle]
    · have htake := List.prefix_iff_eq_take.mp (jsonString_take E contents k)
      rw [hlen] at htake
      by_cases hle : k ≤ contents.length
      · exact ⟨k, hk, hle, htake.symm⟩
      · refine ⟨contents.length, hpos, le_rfl, ?_⟩
        rw [List.take_length, ← htake, List.take_of_length_le (by omega)]

/-! ## the way to the AI -/

section
variable (E : Json.Escape) (pv : PersonalityDisplacement) (langCode : Bytes)
  {history : MessageHistory}

/-- What a payload buffer keeps of a request: the end of the history is cut. -/
theorem requestText_take : ∃ n, maxConversationSize - 1 ≤ n ∧
    (requestText E pv langCode history).take (maxMessageSize - 1) =
      pv.text ++ bar :: (toText langCode ++ bar :: (jsonString E history).take n) := by
  have hp := (personality_length pv).2
  have hl := (toText_language langCode).2.2
  refine ⟨maxMessageSize - 1 - pv.text.length - (toText langCode).length - 2, ?_, ?_⟩
  · unfold maxPersonalitySize at hp
    unfold maxLanguageSize at hl
    unfold maxConversationSize maxMessageSize
    omega
  · have hshape : requestText E pv langCode history =
        (pv.text ++ bar :: (toText langCode ++ [bar])) ++ jsonString E history := by
      unfold requestText
      simp
    have hlen : (pv.text ++ bar :: (toText langCode ++ [bar])).length =
        pv.text.length + (toText langCode).length + 2 := by
      simp only [List.length_append, List.length_cons, List.length_nil]
      omega
    have hfit : pv.text.length + (toText langCode).length + 2 ≤ maxMessageSize - 1 := by
      unfold maxPersonalitySize at hp
      unfold maxLanguageSize at hl
      unfold maxMessageSize
      omega
    rw [hshape, List.take_append, hlen, List.take_of_length_le (by omega)]
    have hroom : maxMessageSize - 1 - pv.text.length - (toText langCode).length - 2 =
        maxMessageSize - 1 - (pv.text.length + (toText langCode).length + 2) := by omega
    rw [hroom]
    simp

theorem receiveMessage_history (tail : Bytes) :
    receiveMessage (decimal 1 ++ bar :: (requestText E pv langCode history ++ lf :: tail)) =
      some ⟨1, ((requestText E pv langCode history).take (maxMessageSize - 1)).length,
        (requestText E pv langCode history).take (maxMessageSize - 1)⟩ := by
  obtain ⟨h0, hlf, hcr⟩ := requestText_not_mem E pv langCode history
  exact receiveMessage_take hlf hcr (by omega) h0 tail

/-- **What the server makes of a request of any length**: the conversation is the beginning of the
history. -/
theorem history_received (lineSeparator rest : Bytes) (hne : history.contents ≠ [])
    (hbar : ∀ line ∈ history.contents, ∀ part ∈ line.parts, bar ∉ part.text)
    (request : ClientMessage) :
    Parsed (SocketClient.sendMessage lineSeparator .aiRequest
        (toRequestPayload E pv langCode history) ++ rest) msgAiDialogRequest request ↔
      request = ⟨pv.text, toText langCode,
        (jsonString E history).take (maxConversationSize - 1), true⟩ := by
  have hstream : SocketClient.sendMessage lineSeparator .aiRequest
      (toRequestPayload E pv langCode history) ++ rest =
      decimal 1 ++ bar :: (requestText E pv langCode history ++ lf :: (lineSeparator ++ rest)) := by
    unfold SocketClient.sendMessage
    rw [List.append_assoc, request_line]
    rfl
  obtain ⟨n, hn, hpayload⟩ := @requestText_take E pv langCode history
  -- the three fields
  obtain ⟨pb, p0, -, -⟩ := ordinary_not_mem (personality_ordinary pv)
  obtain ⟨hl, lne, llen⟩ := toText_language langCode
  obtain ⟨lb, l0, -, -⟩ := ordinary_not_mem hl
  have hcb : bar ∉ jsonString E history := by
    rw [bar_mem_jsonString]
    rintro ⟨line, hline, part, hpart, hm⟩
    exact hbar line hline part hpart hm
  have hc0 : 0 ∉ jsonString E history := jsonString_control E history (by decide)
  obtain ⟨tl, htl⟩ := jsonString_head E hne
  have hcne : (jsonString E history).take n ≠ [] := by
    obtain ⟨k, rfl⟩ : ∃ k, n = k + 1 := ⟨n - 1, by unfold maxConversationSize at hn; omega⟩
    rw [htl, List.take_succ_cons]
    exact List.cons_ne_nil _ _
  have hparse := @parse_fields pv.text (toText langCode) ((jsonString E history).take n) []
    ⟨pb, p0, (personality_length pv).1⟩ ⟨lb, l0, lne⟩
    ⟨fun h => hcb (List.mem_of_mem_take h), fun h => hc0 (List.mem_of_mem_take h), hcne⟩
    (.inl rfl) List.not_mem_nil
  have hcut : cut maxConversationSize ((jsonString E history).take n) =
      (jsonString E history).take (maxConversationSize - 1) := by
    unfold cut
    rw [List.take_take, min_eq_left hn]
  rw [List.append_nil, ← hpayload, cut_eq_self (personality_length pv).2, cut_eq_self llen,
    hcut] at hparse
  rw [hstream]
  constructor
  · rintro ⟨msg, hmsg, -, hrequest⟩
    rw [receiveMessage_history] at hmsg
    obtain rfl := Option.some.inj hmsg
    exact Option.some.inj (hrequest.symm.trans hparse)
  · rintro rfl
    exact ⟨_, receiveMessage_history E pv langCode _, rfl, hparse⟩

/-- **Long histories.**  Whatever the texts of the history are, as long as they do not contain '|':
what the server passes to the AI is a list of objects if and only if the history fits into the
conversation buffer, or the first turns of it fill the buffer exactly. -/
theorem history_whole_iff (hE : E.Valid) (lineSeparator rest : Bytes)
    (hne : history.contents ≠ [])
    (hbar : ∀ line ∈ history.contents, ∀ part ∈ line.parts, bar ∉ part.text) :
    (∀ request, Parsed (SocketClient.sendMessage lineSeparator .aiRequest
        (toRequestPayload E pv langCode history) ++ rest) msgAiDialogRequest request →
      ∃ vs, Json.ObjectList request.conversation vs) ↔
      (jsonString E history).length ≤ maxConversationSize - 1 ∨
        ∃ k, 0 < k ∧
          (jsonString E ⟨history.contents.take k⟩).length = maxConversationSize - 1 := by
  rw [← history_list_iff hE hne]
  simp only [history_received E pv langCode lineSeparator rest hne hbar, forall_eq]

end

theorem history_whole_hello :
    Json.shortEscapes.Valid ∧
    ∀ request, Parsed (SocketClient.sendMessage [lf] .aiRequest
        (toRequestPayload Json.shortEscapes calm (ascii "en-GB") (oneTurn (ascii "say \"hi\""))) ++
          []) msgAiDialogRequest request →
      ∃ vs, Json.ObjectList request.conversation vs :=
  ⟨Json.shortEscapes_valid, (history_whole_iff Json.shortEscapes calm (ascii "en-GB")
    Json.shortEscapes_valid [lf] [] (by decide) (by decide)).mpr (.inl (by decide +kernel))⟩

theorem oneTurn_length (E : Json.Escape) (text : Bytes) :
    (E.text text).length ≤ (jsonString E (oneTurn text)).length := by
  unfold oneTurn
  rw [jsonString_eq]
  unfold ConversationLine.encode Messages.encode Json.object Json.array Json.member Json.string
  simp only [List.map_cons, List.map_nil, List.intercalate_singleton, List.length_cons,
    List.length_append, List.intercalate_cons_of_ne_nil (List.cons_ne_nil _ _)]
  omega

theorem letters_length (E : Json.Escape) (n : Nat) :
    (E.text (List.replicate n 97)).length = n := by
  induction n with
  | zero => rfl
  | succ n ih =>
    have hcons : E.text (List.replicate (n + 1) 97) = E.esc 97 ++ E.text (List.replicate n 97) :=
      rfl
    rw [hcons, E.plain 97 (by decide), List.length_append, List.length_singleton, ih]
    omega

/-- **A turn that is cut.**  The user says 2100 letters, and the server passes on the beginning of
an object. -/
theorem history_cut :
    ∃ request, Parsed (SocketClient.sendMessage [lf] .aiRequest
        (toRequestPayload Json.shortEscapes calm (ascii "it-IT")
          (oneTurn (List.replicate 2100 97))) ++ []) msgAiDialogRequest request ∧
      ¬ ∃ vs, Json.ObjectList request.conversation vs := by
  have hne : (oneTurn (List.replicate 2100 97)).contents ≠ [] := List.cons_ne_nil _ _
  have hlong : 2100 ≤ (jsonString Json.shortEscapes (oneTurn (List.replicate 2100 97))).length := by
    have h := oneTurn_length Json.shortEscapes (List.replicate 2100 97)
    rwa [letters_length] at h
  refine ⟨_, (history_received _ _ _ [lf] [] hne ?_ _).mpr rfl, ?_⟩
  · intro line hline part hpart hbar
    obtain rfl := List.mem_singleton.mp hline
    obtain rfl := List.mem_singleton.mp hpart
    exact absurd (List.eq_of_mem_replicate hbar) (by decide)
  · rw [history_list_iff Json.shortEscapes_valid hne]
    have hsize : maxConversationSize - 1 = 2047 := rfl
    rintro (h | ⟨k, hk, h⟩)
    · omega
    · have hall : (oneTurn (List.replicate 2100 97)).contents.take k =
          (oneTurn (List.replicate 2100 97)).contents := List.take_of_length_le hk
      rw [hall] at h
      have hsame : (jsonString Json.shortEscapes (oneTurn (List.replicate 2100 97))).length =
          maxConversationSize - 1 := h
      omega

end Server
