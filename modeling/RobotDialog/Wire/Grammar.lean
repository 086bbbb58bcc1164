import RobotDialog.Lib.Strtol
import RobotDialog.Wire.Protocol

/-!
# The grammar of messages

Which byte streams `receive_message` accepts. The line of a stream is what stands in front of its
first line feed without the carriage returns, cut at the line buffer.

* `LineRead`, `lineText`     a stream with a line, and the string in the line buffer;
* `Grammar`                  a line `TYPE|payload` with a number in range as its type;
* `receiveLine_kept`         the loop of `receive_line` finds the line;
* `parseLine_iff`            what `receive_message` makes of the line buffer;
* `receiveMessage_iff`       the grammar is accepted, and besides it lines with a blank type;
* `receiveMessage_grammar`   nothing else, as long as the type is not blank.
-/

namespace Wire
open CString

/-- what `receive_line` keeps of a stream -/
def kept (stream : Bytes) : Bytes := (stream.takeWhile (· != lf)).filter (· != cr)

/-- the newline comes, or so many bytes that `room` is used up -/
def LineRead (room : Nat) (stream : Bytes) : Prop := lf ∈ stream ∨ room ≤ (kept stream).length

/-- the number of bytes that the line buffer of `receive_message` takes -/
def lineRoom : Nat := maxMessageSize + 64 - 1

def lineText (stream : Bytes) : Bytes := cstr ((kept stream).take lineRoom)

/-- `msg` is the message of a line `TYPE|payload` -/
def Grammar (line : Bytes) (msg : Message) : Prop :=
  ∃ type payload, line = type ++ bar :: payload ∧ IsNumber type msg.type ∧
    0 ≤ msg.type ∧ msg.type ≤ 1000 ∧ msg.data = payload.take (maxMessageSize - 1) ∧
    msg.length = (cstr msg.data).length

/-- the stream has a line of the grammar, and `msg` is its message -/
def Accepted (stream : Bytes) (msg : Message) : Prop :=
  LineRead lineRoom stream ∧ Grammar (lineText stream) msg

/-- the stream has a line of two bytes or more with nothing but white space before its first '|' -/
def BlankType (stream : Bytes) : Prop :=
  LineRead lineRoom stream ∧ 2 ≤ (kept stream).length ∧
    ∃ type payload, lineText stream = type ++ bar :: payload ∧ Blank type

/-! ## the line -/

theorem kept_lf (stream : Bytes) : kept (lf :: stream) = [] := by
  unfold kept
  rw [List.takeWhile_cons, if_neg (by decide)]
  rfl

theorem kept_cr (stream : Bytes) : kept (cr :: stream) = kept stream := by
  unfold kept
  rw [List.takeWhile_cons, if_pos (by decide), List.filter_cons_of_neg (by decide)]

theorem kept_cons {ch : UInt8} (hlf : ch ≠ lf) (hcr : ch ≠ cr) (stream : Bytes) :
    kept (ch :: stream) = ch :: kept stream := by
  unfold kept
  rw [List.takeWhile_cons, if_pos (by simpa using hlf), List.filter_cons_of_pos (by simpa using hcr)]

/-- **The loop of `receive_line`.** It fails when the stream ends before the newline and before the
buffer is full, and else it stores what is kept of the stream, up to its room. -/
theorem receiveLine_kept (room : Nat) (stream line : Bytes) :
    (∃ unread, receiveLine room stream = some (line, unread)) ↔
      LineRead room stream ∧ line = (kept stream).take room := by
  induction stream generalizing room line with
  | nil =>
    cases room with
    | zero =>
      show (∃ unread, some ([], []) = some (line, unread)) ↔ _
      simp [LineRead, kept, eq_comm]
    | succ room =>
      show (∃ unread, none = some (line, unread)) ↔ _
      simp [LineRead, kept]
  | cons ch stream ih =>
    cases room with
    | zero =>
      show (∃ unread, some ([], ch :: stream) = some (line, unread)) ↔ _
      simp [LineRead, eq_comm]
    | succ room =>
      by_cases hlf : ch = lf
      · subst hlf
        rw [receiveLine, if_pos rfl, kept_lf]
        simp [LineRead, eq_comm]
      by_cases hcr : ch = cr
      · subst hcr
        have hread : LineRead (room + 1) (cr :: stream) ↔ LineRead (room + 1) stream := by
          unfold LineRead
          rw [kept_cr, List.mem_cons, or_iff_right (Ne.symm hlf)]
        rw [receiveLine, if_neg hlf, if_pos rfl, ih, kept_cr, hread]
      · have hread : LineRead (room + 1) (ch :: stream) ↔ LineRead room stream := by
          unfold LineRead
          rw [kept_cons hlf hcr, List.mem_cons, or_iff_right (Ne.symm hlf), List.length_cons,
            Nat.add_le_add_iff_right]
        rw [receiveLine, if_neg hlf, if_neg hcr, kept_cons hlf hcr, hread, List.take_succ_cons]
        constructor
        · rintro ⟨unread, h⟩
          obtain ⟨⟨rest, unread'⟩, hrest, he⟩ := Option.map_eq_some_iff.mp h
          obtain ⟨hstream, hline⟩ := (ih room rest).mp ⟨unread', hrest⟩
          rw [Prod.mk.injEq] at he
          exact ⟨hstream, by rw [← he.1, hline]⟩
        · rintro ⟨hstream, rfl⟩
          obtain ⟨unread, h⟩ := (ih room _).mpr ⟨hstream, rfl⟩
          exact ⟨unread, by rw [h]; rfl⟩

theorem receiveMessage_line_iff (stream : Bytes) (msg : Message) :
    receiveMessage stream = some msg ↔
      LineRead lineRoom stream ∧ parseLine ((kept stream).take lineRoom) = some msg := by
  unfold receiveMessage
  rw [Option.bind_eq_some_iff]
  constructor
  · rintro ⟨⟨line, unread⟩, hline, hparse⟩
    obtain ⟨hread, rfl⟩ := (receiveLine_kept lineRoom stream line).mp ⟨unread, hline⟩
    exact ⟨hread, hparse⟩
  · rintro ⟨hread, hparse⟩
    obtain ⟨unread, hline⟩ := (receiveLine_kept lineRoom stream _).mpr ⟨hread, rfl⟩
    exact ⟨_, hline, hparse⟩

/-! ## the message -/

/-- the message with this type and this text behind the '|' -/
def messageOf (type : Int) (payload : Bytes) : Message :=
  { type := type
    length := (payload.take (maxMessageSize - 1)).length
    data := payload.take (maxMessageSize - 1) }

/-- `msg` is what `receive_message` returns for the type text `type` and the payload `payload` -/
def TypeRead (type payload : Bytes) (msg : Message) : Prop :=
  (IsNumber type msg.type ∨ (Blank type ∧ msg.type = 0)) ∧ 0 ≤ msg.type ∧ msg.type ≤ 1000 ∧
    msg = messageOf msg.type payload

/-- **What `receive_message` makes of the line buffer**: the text before the first '|' is a number
in range or blank, the text behind it is the payload. -/
theorem parseLine_iff (line : Bytes) (msg : Message) :
    parseLine line = some msg ↔
      2 ≤ line.length ∧ ∃ type payload, cstr line = type ++ bar :: payload ∧ bar ∉ type ∧
        TypeRead type payload msg := by
  unfold parseLine
  by_cases hlen : line.length < 2
  · rw [if_pos hlen]
    constructor
    · intro h
      cases h
    · rintro ⟨h, -⟩
      omega
  rw [if_neg hlen]
  rcases delim_cases bar (cstr line) with hbar | ⟨type, payload, hline, hbar⟩
  · rw [if_neg hbar]
    constructor
    · intro h
      cases h
    · rintro ⟨-, type, payload, hline, -⟩
      exact absurd (by rw [hline]; simp) hbar
  have hmem : bar ∈ cstr line := by rw [hline]; simp
  have hbefore : (cstr line).takeWhile (· != bar) = type := by
    rw [hline]
    exact takeWhile_delim hbar payload
  have hafter : ((cstr line).dropWhile (· != bar)).drop 1 = payload := by
    rw [hline, dropWhile_delim hbar payload]
    rfl
  have hunique : ∀ type' payload', cstr line = type' ++ bar :: payload' → bar ∉ type' →
      type' = type ∧ payload' = payload := by
    intro type' payload' hline' hbar'
    constructor
    · rw [← hbefore, hline', takeWhile_delim hbar']
    · rw [← hafter, hline', dropWhile_delim hbar']
      rfl
  obtain ⟨⟨z, endptr⟩, hz⟩ : ∃ r, strtol (trim type) = r := ⟨_, rfl⟩
  rw [if_pos hmem]
  simp only [hbefore, hafter, hz]
  constructor
  · intro h
    by_cases hbad : endptr ≠ [] ∨ z < 0 ∨ z > 1000
    · rw [if_pos hbad] at h
      cases h
    · rw [if_neg hbad, Option.some.injEq] at h
      subst h
      simp only [ne_eq, not_or, not_not] at hbad
      obtain ⟨rfl, hlow, hhigh⟩ := hbad
      exact ⟨by omega, type, payload, hline, hbar, (strtol_trim type z).mp hz,
        Int.not_lt.mp hlow, Int.not_lt.mp hhigh, rfl⟩
  · rintro ⟨-, type', payload', hline', hbar', hread, hlow, hhigh, hmsg⟩
    obtain ⟨rfl, rfl⟩ := hunique type' payload' hline' hbar'
    have hvalue : (msg.type, []) = (z, endptr) := by
      rw [← hz]
      exact ((strtol_trim type' msg.type).mpr hread).symm
    obtain ⟨rfl, rfl⟩ := Prod.mk.inj hvalue
    rw [if_neg (by simp only [ne_eq, not_true_eq_false, false_or, not_or]; omega)]
    exact congrArg some hmsg.symm

theorem bar_not_blank {t : Bytes} (h : Blank t) : bar ∉ t := by
  intro hbar
  have hspace : isspace bar = true := h bar hbar
  exact absurd hspace (by decide)

theorem bar_not_number {t : Bytes} {z : Int} (h : IsNumber t z) : bar ∉ t :=
  h.not_mem (by decide) (by decide) (by decide) (by decide)

theorem messageOf_iff {line type payload : Bytes} (hline : cstr line = type ++ bar :: payload)
    (msg : Message) :
    msg = messageOf msg.type payload ↔
      msg.data = payload.take (maxMessageSize - 1) ∧ msg.length = (cstr msg.data).length := by
  have h0 : 0 ∉ payload := by
    intro hmem
    have hin : 0 ∈ cstr line := by
      rw [hline]
      exact List.mem_append_right _ (List.mem_cons_of_mem _ hmem)
    exact nul_not_mem_cstr line hin
  have hcut : cstr (payload.take (maxMessageSize - 1)) = payload.take (maxMessageSize - 1) :=
    cstr_eq_self fun h => h0 (List.mem_of_mem_take h)
  constructor
  · intro h
    rw [h]
    exact ⟨rfl, by rw [messageOf, hcut]⟩
  · rintro ⟨hdata, hlength⟩
    rw [hdata, hcut] at hlength
    obtain ⟨type, length, data⟩ := msg
    rw [messageOf, ← hlength, ← hdata]

theorem line_long {line type payload : Bytes} (hline : cstr line = type ++ bar :: payload)
    (hne : type ≠ []) : 2 ≤ line.length := by
  have hpos : 0 < type.length := List.length_pos_of_ne_nil hne
  have hcstr : (cstr line).length ≤ line.length := (List.takeWhile_sublist _).length_le
  rw [hline, List.length_append, List.length_cons] at hcstr
  omega

def BlankMessage (stream : Bytes) (msg : Message) : Prop :=
  ∃ type payload, lineText stream = type ++ bar :: payload ∧ Blank type ∧ msg = messageOf 0 payload

/-- **What `receive_message` accepts**: the grammar, and lines with a blank type. -/
theorem receiveMessage_iff (stream : Bytes) (msg : Message) :
    receiveMessage stream = some msg ↔
      Accepted stream msg ∨ (BlankType stream ∧ BlankMessage stream msg) := by
  have hlen : 2 ≤ ((kept stream).take lineRoom).length ↔ 2 ≤ (kept stream).length := by
    have hroom : 2 ≤ lineRoom := by decide
    rw [List.length_take]
    omega
  rw [receiveMessage_line_iff, parseLine_iff]
  constructor
  · rintro ⟨hread, hlong, type, payload, hline, -, htype, hlow, hhigh, hmsg⟩
    rcases htype with hnum | ⟨hblank, hzero⟩
    · obtain ⟨hdata, hlength⟩ := (messageOf_iff hline msg).mp hmsg
      exact .inl ⟨hread, type, payload, hline, hnum, hlow, hhigh, hdata, hlength⟩
    · rw [hzero] at hmsg
      exact .inr ⟨⟨hread, hlen.mp hlong, type, payload, hline, hblank⟩,
        type, payload, hline, hblank, hmsg⟩
  · rintro (⟨hread, type, payload, hline, hnum, hlow, hhigh, hdata, hlength⟩ |
      ⟨⟨hread, hlong, -⟩, type, payload, hline, hblank, rfl⟩)
    · refine ⟨hread, line_long hline ?_, type, payload, hline, bar_not_number hnum, .inl hnum, hlow,
        hhigh, (messageOf_iff hline msg).mpr ⟨hdata, hlength⟩⟩
      rintro rfl
      exact hnum.not_blank fun c hc => absurd hc List.not_mem_nil
    · exact ⟨hread, hlen.mpr hlong, type, payload, hline, bar_not_blank hblank,
        Or.inr ⟨hblank, rfl⟩, Int.le_refl 0, Int.zero_le_ofNat 1000, rfl⟩

theorem Grammar.not_blank {line type payload : Bytes} {msg : Message} (h : Grammar line msg)
    (hline : line = type ++ bar :: payload) : ¬ Blank type := by
  intro hblank
  obtain ⟨type', payload', hline', hnum, -⟩ := h
  have hsame : type = type' := by
    rw [← takeWhile_delim (bar_not_blank hblank) payload, ← hline, hline',
      takeWhile_delim (bar_not_number hnum) payload']
  exact hnum.not_blank (hsame ▸ hblank)

/-- **The server accepts exactly the grammar, unless the type is blank.** For such a stream it
returns a message of type 0, where the grammar asks for a digit. -/
theorem receiveMessage_grammar (stream : Bytes) :
    (∀ msg, receiveMessage stream = some msg ↔ Accepted stream msg) ↔ ¬ BlankType stream := by
  constructor
  · intro h hblank
    obtain ⟨type, payload, hline, htype⟩ := hblank.2.2
    have hmsg : receiveMessage stream = some (messageOf 0 payload) :=
      (receiveMessage_iff stream _).mpr (.inr ⟨hblank, type, payload, hline, htype, rfl⟩)
    exact ((h _).mp hmsg).2.not_blank hline htype
  · intro hblank msg
    rw [receiveMessage_iff]
    constructor
    · rintro (h | ⟨h, -⟩)
      · exact h
      · exact absurd h hblank
    · exact .inl

theorem receiveMessage_no_type :
    ¬ ∀ msg, receiveMessage (ascii "|x\n") = some msg ↔ Accepted (ascii "|x\n") msg := by
  intro h
  have haccept : receiveMessage (ascii "|x\n") = some ⟨0, 1, ascii "x"⟩ := by decide
  obtain ⟨-, type, payload, hline, hnum, -⟩ := (h _).mp haccept
  have hempty : type = [] := by
    have htext : lineText (ascii "|x\n") = bar :: ascii "x" := by decide
    rw [htext] at hline
    cases type with
    | nil => rfl
    | cons c type =>
      rw [List.cons_append, List.cons.injEq] at hline
      exact absurd (hline.1 ▸ List.mem_cons_self) (bar_not_number hnum)
  exact hnum.not_blank fun c hc => by rw [hempty] at hc; exact absurd hc List.not_mem_nil

end Wire
