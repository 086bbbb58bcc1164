import RobotDialog.Server.Handler

/-!
# The fields of a request by position

The text before the first '|' is meant as the personality, the text behind it as the language, and
so on. `strtok` takes several '|' in a row as one, and skips them at the front.

* `Fields`                  the first three fields of a payload, none of them empty;
* `handler_rejects`         a request that is not parsed is answered with `MSG_ERROR`;
* `ReadByPosition`          only such fields are accepted, and an empty one makes an error;
* `parse_fields_iff`        when the request is accepted with its own fields;
* `fields_by_position`      the payloads for which the fields are read by position.
-/

namespace Server
open CString Wire

/-- the texts before the first '|', behind it and behind the second one are `p`, `l`, `c`, and none
of them is empty -/
def Fields (payload p l c : Bytes) : Prop :=
  (∃ rest, payload.splitOn bar = p :: l :: c :: rest) ∧ p ≠ [] ∧ l ≠ [] ∧ c ≠ []

/-- the text before the first '|' is empty, or the text behind it -/
def EmptyField (payload : Bytes) : Prop :=
  (∃ rest, payload.splitOn bar = [] :: rest) ∨ ∃ p rest, payload.splitOn bar = p :: [] :: rest

/-- the request that consists of these fields, each in its buffer -/
def requestOf (p l c : Bytes) : ClientMessage :=
  { personality := cut maxPersonalitySize p
    language := cut maxLanguageSize l
    conversation := cut maxConversationSize c
    isValid := true }

/-- the handler got a request with this payload, and parses it with `parse_client_dialog_message` -/
structure Handles (strdupOk : Bool) (data : Bytes) (calls : Calls) : Prop where
  received : ∃ msg, calls.received = some msg ∧ msg.data = data ∧
    (msg.type = msgAiDialogRequest ∨ msg.type = msgTestDialogRequest)
  parse : calls.parse = parseClientDialogMessage strdupOk
  parseAgain : calls.parseAgain = parseClientDialogMessage strdupOk

/-- **Fields are read by position.** A request is accepted only with three fields, which it keeps;
with an empty personality or language it is rejected, and the server answers `MSG_ERROR`. -/
def ReadByPosition (strdupOk : Bool) (data : Bytes) : Prop :=
  (∀ request, parseClientDialogMessage strdupOk data = some request →
    ∃ p l c, Fields (cstr data) p l c ∧ request = requestOf p l c) ∧
  (EmptyField (cstr data) →
    parseClientDialogMessage strdupOk data = none ∧
    ∀ calls, Handles strdupOk data calls →
      ∃ text, processSingleRequestAndClose calls = [.send msgError text, .close])

/-! ## requests that are not parsed -/

theorem handler_rejects {strdupOk : Bool} {data : Bytes} {calls : Calls}
    (h : Handles strdupOk data calls) (hparse : parseClientDialogMessage strdupOk data = none) :
    processSingleRequestAndClose calls =
      [.send msgError (ascii "Invalid request format"), .close] := by
  obtain ⟨msg, hmsg, hdata, htype⟩ := h.received
  have hfirst : calls.parse msg.data = none := by rw [h.parse, hdata, hparse]
  have hagain : calls.parseAgain msg.data = none := by rw [h.parseAgain, hdata, hparse]
  have hai : aiCase calls msg = [.send msgError (ascii "Invalid request format"), .close] := by
    unfold aiCase
    rw [hfirst]
  have htest : testCase calls msg = [.send msgError (ascii "Invalid request format"), .close] := by
    unfold testCase
    rw [hagain]
  unfold processSingleRequestAndClose
  rw [hmsg]
  show (if msg.type = msgAiDialogRequest then aiCase calls msg
    else if msg.type = msgTestDialogRequest then testCase calls msg else _) = _
  rw [hai, htest]
  rcases htype with h1 | h2
  · rw [if_pos h1]
  · rw [if_pos h2, ite_self]

/-! ## fields and tokens -/

/-- Fields that are not empty are the first tokens. -/
theorem Fields.tokens {payload p l c : Bytes} (h : Fields payload p l c) :
    ∃ more, tokens bar payload = p :: l :: c :: more := by
  obtain ⟨⟨rest, hsplit⟩, hp, hl, hc⟩ := h
  refine ⟨rest.filter (· ≠ []), ?_⟩
  unfold CString.tokens
  rw [hsplit, List.filter_cons_of_pos (by simpa using hp), List.filter_cons_of_pos (by simpa using hl),
    List.filter_cons_of_pos (by simpa using hc)]

theorem Fields.not_empty {payload p l c : Bytes} (h : Fields payload p l c) :
    ¬ EmptyField payload := by
  obtain ⟨⟨rest, hsplit⟩, hp, hl, -⟩ := h
  rintro (⟨rest', hempty⟩ | ⟨p', rest', hempty⟩)
  · rw [hsplit, List.cons.injEq] at hempty
    exact hp hempty.1
  · rw [hsplit, List.cons.injEq, List.cons.injEq] at hempty
    exact hl hempty.2.1

/-- **When a request is accepted with its own fields.** -/
theorem parse_fields_iff (data : Bytes) :
    (∀ request, parseClientDialogMessage true data = some request →
      ∃ p l c, Fields (cstr data) p l c ∧ request = requestOf p l c) ↔
    (tokens bar (cstr data)).length < 3 ∨ ∃ p l c, Fields (cstr data) p l c := by
  constructor
  · intro h
    rcases htok : tokens bar (cstr data) with - | ⟨p, - | ⟨l, - | ⟨c, more⟩⟩⟩
    · exact .inl (by simp)
    · exact .inl (by simp)
    · exact .inl (by simp)
    · have hparse : parseClientDialogMessage true data = some (requestOf p l c) := by
        rw [parse_eq, htok]
        rfl
      obtain ⟨p', l', c', hfields, -⟩ := h _ hparse
      exact .inr ⟨p', l', c', hfields⟩
  · intro h request hparse
    rcases h with hfew | ⟨p, l, c, hfields⟩
    · rw [parse_eq] at hparse
      rcases htok : tokens bar (cstr data) with - | ⟨p, - | ⟨l, - | ⟨c, more⟩⟩⟩
      all_goals rw [htok] at hparse hfew
      · cases hparse
      · cases hparse
      · cases hparse
      · simp only [List.length_cons] at hfew
        omega
    · obtain ⟨more, htok⟩ := hfields.tokens
      rw [parse_eq, htok] at hparse
      exact ⟨p, l, c, hfields, (Option.some.inj hparse).symm⟩

/-- **The payloads whose fields are read by position**: those without memory for the copy, those
with fewer than three texts between the '|' that are not empty, and those whose first three texts
are not empty. -/
theorem fields_by_position (strdupOk : Bool) (data : Bytes) :
    ReadByPosition strdupOk data ↔
      strdupOk = false ∨ (tokens bar (cstr data)).length < 3 ∨
        ∃ p l c, Fields (cstr data) p l c := by
  -- the second part of the property follows from the first one
  have hpart : ReadByPosition strdupOk data ↔
      ∀ request, parseClientDialogMessage strdupOk data = some request →
        ∃ p l c, Fields (cstr data) p l c ∧ request = requestOf p l c := by
    refine ⟨fun h => h.1, fun h => ⟨h, fun hempty => ?_⟩⟩
    have hnone : parseClientDialogMessage strdupOk data = none := by
      rcases hparse : parseClientDialogMessage strdupOk data with - | request
      · rfl
      · obtain ⟨p, l, c, hfields, -⟩ := h request hparse
        exact absurd hempty hfields.not_empty
    exact ⟨hnone, fun calls hcalls => ⟨_, handler_rejects hcalls hnone⟩⟩
  rw [hpart]
  cases strdupOk with
  | false =>
    refine iff_of_true (fun request h => ?_) (.inl rfl)
    rw [parse_no_memory] at h
    cases h
  | true =>
    rw [parse_fields_iff]
    simp

/-- A payload without a personality: its language is taken for one. -/
theorem fields_shifted : ¬ ReadByPosition true (ascii "|it|hi|you") := by
  rintro ⟨-, h⟩
  have hempty : EmptyField (cstr (ascii "|it|hi|you")) :=
    .inl ⟨[ascii "it", ascii "hi", ascii "you"], by decide⟩
  have haccept : parseClientDialogMessage true (ascii "|it|hi|you") =
      some ⟨ascii "it", ascii "hi", ascii "you", true⟩ := by decide
  rw [(h hempty).1] at haccept
  cases haccept

end Server
