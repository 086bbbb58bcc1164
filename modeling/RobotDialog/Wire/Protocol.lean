import RobotDialog.Lib.CString

/-!
# The wire protocol of the server

`send_message`, `receive_line` and `receive_message` of `protocol.c`: one message is one line
`TYPE|payload`.

* `formatMessage`, `sendLoop`, `sendMessage`   sending, for any sequence of results of `send`;
* `receiveLine`, `receiveMessage`              receiving from the bytes that the peer sends before
                                               the stream ends or fails;
* `sendLoop_complete`                          a return value 0 means that all bytes were sent;
* `receiveMessage_take`                        a line of any length is received, its payload cut;
* `receiveLine_line`, `receiveMessage_line`    a well-formed line is received as it was sent.
-/

namespace Wire
open CString

/-! ## constants of config.h -/

def msgAiDialogRequest : Nat := 1
def msgTestDialogRequest : Nat := 2
def msgAiDialogResponse : Nat := 3
def msgTestDialogResponse : Nat := 4
def msgError : Nat := 5
def maxMessageSize : Nat := 3000
def maxAiResponseSize : Nat := 2048

/-- the line feed, the carriage return, the character '|' -/
def lf : UInt8 := 10
def cr : UInt8 := 13
def bar : UInt8 := 124

/-- `%d` of a number that is not negative -/
def decimal (n : Nat) : Bytes := (Nat.toDigits 10 n).map fun c => c.toNat.toUInt8

/-! ## sending -/

/-- the buffer that `send_message` formats -/
def formatMessage (type : Nat) (data : Bytes) : Bytes :=
  cut (maxMessageSize + 32)
    (if cstr data ≠ [] then decimal type ++ bar :: (cstr data ++ [lf])
    else decimal type ++ [bar, lf])

/-- a result of `send`: a byte count, EAGAIN or EWOULDBLOCK, another error -/
inductive SendResult where
  | sent (n : Nat)
  | again
  | error
  deriving DecidableEq, Repr

/-- the loop of `send_message` on the bytes not sent yet: the bytes it puts on the stream and its
return value, `none` as long as it goes on -/
def sendLoop : List SendResult → Bytes → Bytes × Option Int
  | _, [] => ([], some 0)
  | [], _ :: _ => ([], none)
  | .sent n :: rs, msg =>
    if n = 0 then ([], some (-1))
    else
      let (written, rc) := sendLoop rs (msg.drop n)
      (msg.take n ++ written, rc)
  | .again :: rs, msg => sendLoop rs msg
  | .error :: _, _ => ([], some (-1))

def sendMessage (rs : List SendResult) (type : Nat) (data : Bytes) : Bytes × Option Int :=
  sendLoop rs (formatMessage type data)

theorem sendLoop_complete (rs : List SendResult) (msg : Bytes)
    (h : (sendLoop rs msg).2 = some 0) : (sendLoop rs msg).1 = msg := by
  induction rs generalizing msg with
  | nil =>
    cases msg with
    | nil => rfl
    | cons b msg => cases h
  | cons r rs ih =>
    cases msg with
    | nil => cases r <;> rfl
    | cons b msg =>
      cases r with
      | sent n =>
        unfold sendLoop at h ⊢
        by_cases hn : n = 0
        · rw [if_pos hn] at h
          cases h
        · rw [if_neg hn] at h ⊢
          show (b :: msg).take n ++ (sendLoop rs ((b :: msg).drop n)).1 = b :: msg
          rw [ih _ h, List.take_append_drop]
      | again => exact ih _ h
      | error => cases h

theorem formatMessage_eq {type : Nat} {text : Bytes} (h0 : 0 ∉ text)
    (hlen : (decimal type).length + text.length + 2 ≤ maxMessageSize + 31) :
    formatMessage type text = decimal type ++ bar :: (text ++ [lf]) := by
  unfold formatMessage
  rw [cstr_eq_self h0]
  by_cases ht : text = []
  · subst ht
    rw [if_neg (by simp)]
    refine cut_eq_self ?_
    simp only [List.length_append, List.length_cons, List.length_nil] at hlen ⊢
    omega
  · rw [if_pos ht]
    refine cut_eq_self ?_
    simp only [List.length_append, List.length_cons, List.length_nil]
    omega

/-! ## receiving -/

/-- the loop of `receive_line` with `room` bytes left in the buffer: the line and the bytes not read
yet; `none` is the return value -1, the stream ended or failed -/
def receiveLine : Nat → Bytes → Option (Bytes × Bytes)
  | 0, stream => some ([], stream)
  | _ + 1, [] => none
  | room + 1, ch :: stream =>
    if ch = lf then some ([], stream)
    else if ch = cr then receiveLine (room + 1) stream
    else (receiveLine room stream).map fun p => (ch :: p.1, p.2)

/-- `message_t` -/
structure Message where
  type : Int
  length : Nat
  data : Bytes
  deriving DecidableEq, Repr

/-- what `receive_message` does with the line buffer -/
def parseLine (line : Bytes) : Option Message :=
  if line.length < 2 then none
  else if bar ∈ cstr line then
    let typeStr := trim ((cstr line).takeWhile (· != bar))
    let payloadStr := ((cstr line).dropWhile (· != bar)).drop 1
    let (parsedType, endptr) := strtol typeStr
    if endptr ≠ [] ∨ parsedType < 0 ∨ parsedType > 1000 then none
    else
      let payload := payloadStr.take (maxMessageSize - 1)
      some { type := parsedType, length := payload.length, data := payload }
  else none

/-- `receive_message`; `none` is the return value -1 -/
def receiveMessage (stream : Bytes) : Option Message :=
  (receiveLine (maxMessageSize + 64 - 1) stream).bind fun p => parseLine p.1

theorem receiveLine_line {room : Nat} {line : Bytes} (hlf : lf ∉ line) (hcr : cr ∉ line)
    (hlen : line.length < room) (rest : Bytes) :
    receiveLine room (line ++ lf :: rest) = some (line, rest) := by
  induction line generalizing room with
  | nil =>
    obtain ⟨n, rfl⟩ : ∃ n, room = n + 1 := ⟨room - 1, by simp at hlen; omega⟩
    simp [receiveLine]
  | cons c line ih =>
    rw [List.mem_cons, not_or] at hlf hcr
    rw [List.length_cons] at hlen
    obtain ⟨n, rfl⟩ : ∃ n, room = n + 1 := ⟨room - 1, by omega⟩
    rw [List.cons_append, receiveLine, if_neg (Ne.symm hlf.1), if_neg (Ne.symm hcr.1),
      ih hlf.2 hcr.2 (by omega)]
    rfl

theorem receiveLine_cut (room : Nat) {line : Bytes} (hlf : lf ∉ line) (hcr : cr ∉ line)
    (rest : Bytes) :
    ∃ unread, receiveLine room (line ++ lf :: rest) = some (line.take room, unread) := by
  induction line generalizing room with
  | nil => cases room <;> exact ⟨_, by simp [receiveLine]; rfl⟩
  | cons c line ih =>
    rw [List.mem_cons, not_or] at hlf hcr
    cases room with
    | zero => exact ⟨_, rfl⟩
    | succ room =>
      obtain ⟨unread, h⟩ := ih room hlf.2 hcr.2
      refine ⟨unread, ?_⟩
      rw [List.cons_append, receiveLine, if_neg (Ne.symm hlf.1), if_neg (Ne.symm hcr.1), h]
      rfl

/-! ## the type of a message -/

theorem decimal_ne_nil (n : Nat) : decimal n ≠ [] := by
  unfold decimal
  simp [Nat.toDigits_ne_nil]

theorem isdigit_decimal (n : Nat) : ∀ c ∈ decimal n, isdigit c = true := by
  intro c hc
  unfold decimal at hc
  obtain ⟨d, hd, rfl⟩ := List.mem_map.mp hc
  have hdigit : d.isDigit = true := Nat.isDigit_of_mem_toDigits (by omega) (by omega) hd
  unfold Char.isDigit at hdigit
  rw [Bool.and_eq_true, decide_eq_true_eq, decide_eq_true_eq] at hdigit
  have hlow : 48 ≤ d.toNat := UInt32.le_iff_toNat_le.mp hdigit.1
  have hhigh : d.toNat ≤ 57 := UInt32.le_iff_toNat_le.mp hdigit.2
  have hval : d.toNat.toUInt8.toNat = d.toNat := by
    show d.toNat % 256 = d.toNat
    omega
  unfold isdigit
  rw [Bool.and_eq_true, decide_eq_true_eq, decide_eq_true_eq, UInt8.le_iff_toNat_le,
    UInt8.le_iff_toNat_le, hval]
  exact ⟨hlow, hhigh⟩

theorem not_mem_decimal {c : UInt8} (hc : isdigit c = false) (n : Nat) : c ∉ decimal n := by
  intro h
  rw [isdigit_decimal n c h] at hc
  cases hc

theorem digitsValue_decimal (n : Nat) : digitsValue (decimal n) = n := by
  have hval : ∀ d ∈ Nat.toDigits 10 n, d.toNat.toUInt8.toNat = d.toNat := by
    intro d hd
    have hdigit : d.isDigit = true := Nat.isDigit_of_mem_toDigits (by omega) (by omega) hd
    unfold Char.isDigit at hdigit
    rw [Bool.and_eq_true, decide_eq_true_eq, decide_eq_true_eq] at hdigit
    have hhigh : d.toNat ≤ 57 := UInt32.le_iff_toNat_le.mp hdigit.2
    show d.toNat % 256 = d.toNat
    omega
  have hfold : digitsValue (decimal n) = Nat.ofDigitChars 10 (Nat.toDigits 10 n) 0 := by
    unfold digitsValue decimal
    rw [List.foldl_map, Nat.ofDigitChars_eq_foldl]
    refine List.foldl_ext _ _ _ fun m d hd => ?_
    rw [hval d hd]
    rfl
  rw [hfold, Nat.ofDigitChars_ten_toDigits]

theorem length_decimal {n : Nat} (h : n ≤ 1000) : (decimal n).length ≤ 4 := by
  unfold decimal
  rw [List.length_map, Nat.length_toDigits_le_iff (by omega) (by omega)]
  omega

theorem strtol_decimal (n : Nat) : strtol (trim (decimal n)) = ((n : Int), []) := by
  rw [trim_digits (isdigit_decimal n), strtol_digits (decimal_ne_nil n) (isdigit_decimal n),
    digitsValue_decimal]

/-! ## a line is read back -/

theorem parseLine_any (type : Nat) (payload : Bytes) (htype : type ≤ 1000) :
    parseLine (decimal type ++ bar :: payload) =
      some ⟨type, ((cstr payload).take (maxMessageSize - 1)).length,
        (cstr payload).take (maxMessageSize - 1)⟩ := by
  have hbar : bar ∉ decimal type := not_mem_decimal (by decide) type
  have hcstr : cstr (decimal type ++ bar :: payload) = decimal type ++ bar :: cstr payload := by
    have hnul : ∀ c ∈ decimal type, (c != 0) = true := by
      intro c hc
      refine bne_iff_ne.mpr ?_
      rintro rfl
      exact not_mem_decimal (by decide) type hc
    unfold cstr
    rw [List.takeWhile_append_of_pos hnul, List.takeWhile_cons, if_pos (by decide)]
  have hbefore : (decimal type ++ bar :: cstr payload).takeWhile (· != bar) = decimal type :=
    takeWhile_delim hbar (cstr payload)
  have hafter : (decimal type ++ bar :: cstr payload).dropWhile (· != bar) = bar :: cstr payload :=
    dropWhile_delim hbar (cstr payload)
  have hpos : 0 < (decimal type).length := List.length_pos_of_ne_nil (decimal_ne_nil type)
  have hlong : ¬ (decimal type ++ bar :: payload).length < 2 := by
    rw [List.length_append, List.length_cons]
    omega
  have hrange : ¬ (([] : Bytes) ≠ [] ∨ (type : Int) < 0 ∨ (type : Int) > 1000) := by
    simp only [ne_eq, not_true_eq_false, false_or, not_or]
    omega
  unfold parseLine
  rw [if_neg hlong, hcstr, if_pos (by simp)]
  simp only [hbefore, hafter, strtol_decimal, List.drop_succ_cons, List.drop_zero]
  rw [if_neg hrange]

theorem parseLine_cut {type : Nat} {payload : Bytes} (h0 : 0 ∉ payload) (htype : type ≤ 1000) :
    parseLine (decimal type ++ bar :: payload) =
      some ⟨type, (payload.take (maxMessageSize - 1)).length,
        payload.take (maxMessageSize - 1)⟩ := by
  rw [parseLine_any type payload htype, cstr_eq_self h0]

section
variable {type : Nat} {payload : Bytes} (hlf : lf ∉ payload) (hcr : cr ∉ payload)
  (htype : type ≤ 1000)

include hlf hcr in
theorem line_clean (type : Nat) :
    lf ∉ decimal type ++ bar :: payload ∧ cr ∉ decimal type ++ bar :: payload := by
  simp only [List.mem_append, List.mem_cons, not_or]
  exact ⟨⟨not_mem_decimal (by decide) type, by decide, hlf⟩,
    ⟨not_mem_decimal (by decide) type, by decide, hcr⟩⟩

include hlf hcr htype

/-- **A line of any length is received**, and its payload is cut to its buffer. -/
theorem receiveMessage_take (h0 : 0 ∉ payload) (rest : Bytes) :
    receiveMessage (decimal type ++ bar :: (payload ++ lf :: rest)) =
      some ⟨type, (payload.take (maxMessageSize - 1)).length,
        payload.take (maxMessageSize - 1)⟩ := by
  obtain ⟨hlf', hcr'⟩ := line_clean hlf hcr type
  have hd : (decimal type).length ≤ 4 := length_decimal htype
  have hline : decimal type ++ bar :: (payload ++ lf :: rest) =
      (decimal type ++ bar :: payload) ++ lf :: rest := by simp
  -- what the line buffer leaves of the payload is more than the payload buffer takes
  obtain ⟨n, hn⟩ : ∃ n, maxMessageSize + 64 - 1 = (decimal type).length + (n + 1) :=
    ⟨maxMessageSize + 62 - (decimal type).length, by unfold maxMessageSize; omega⟩
  have htake : (decimal type ++ bar :: payload).take (maxMessageSize + 64 - 1) =
      decimal type ++ bar :: payload.take n := by
    rw [hn, List.take_length_add_append, List.take_succ_cons]
  have hmin : min (maxMessageSize - 1) n = maxMessageSize - 1 := by
    unfold maxMessageSize at hn ⊢
    omega
  have h0' : 0 ∉ payload.take n := fun h => h0 (List.mem_of_mem_take h)
  obtain ⟨unread, hreceive⟩ := receiveLine_cut (maxMessageSize + 64 - 1) hlf' hcr' rest
  unfold receiveMessage
  rw [hline, hreceive, Option.bind_some, htake, parseLine_cut h0' htype, List.take_take, hmin]

variable (hlen : payload.length ≤ maxMessageSize - 1)
include hlen

theorem line_fits : lf ∉ decimal type ++ bar :: payload ∧ cr ∉ decimal type ++ bar :: payload ∧
    (decimal type ++ bar :: payload).length < maxMessageSize + 64 - 1 := by
  obtain ⟨hlf', hcr'⟩ := line_clean hlf hcr type
  have hd : (decimal type).length ≤ 4 := length_decimal htype
  refine ⟨hlf', hcr', ?_⟩
  rw [List.length_append, List.length_cons]
  unfold maxMessageSize at hlen ⊢
  omega

/-- **A well-formed line is received as it was sent.** -/
theorem receiveMessage_line (h0 : 0 ∉ payload) (rest : Bytes) :
    receiveMessage (decimal type ++ bar :: (payload ++ lf :: rest)) =
      some ⟨type, payload.length, payload⟩ := by
  rw [receiveMessage_take hlf hcr htype h0 rest, List.take_of_length_le hlen]

end

end Wire
