import RobotDialog.Wire.Protocol

/-!
# A message arrives whole or not at all

What `receive_message` makes of the bytes that `send_message` has put on the stream.

* `sendLoop_prefix`     at any time the stream holds a prefix of the line;
* `sendLoop_failed`     when the send fails, the end of the line is missing;
* `receiveLine_eof`     a stream that ends within the line gives nothing;
* `message_delivery`    the receiver obtains the message as it was sent, or an error.
-/

namespace Wire
open CString

/-! ## the bytes on the stream -/

/-- No byte is repeated or skipped, however the kernel splits the sends. -/
theorem sendLoop_prefix (rs : List SendResult) (msg : Bytes) : (sendLoop rs msg).1 <+: msg := by
  induction rs generalizing msg with
  | nil => cases msg <;> exact List.nil_prefix
  | cons r rs ih =>
    cases msg with
    | nil => cases r <;> exact List.nil_prefix
    | cons b msg =>
      cases r with
      | sent n =>
        unfold sendLoop
        by_cases hn : n = 0
        · rw [if_pos hn]
          exact List.nil_prefix
        · rw [if_neg hn]
          show (b :: msg).take n ++ (sendLoop rs ((b :: msg).drop n)).1 <+: b :: msg
          have htail := ih ((b :: msg).drop n)
          have hall := (List.prefix_append_right_inj ((b :: msg).take n)).mpr htail
          rwa [List.take_append_drop] at hall
      | again => exact ih _
      | error => exact List.nil_prefix

/-- A return value -1 means that bytes are missing. -/
theorem sendLoop_failed (rs : List SendResult) (msg : Bytes)
    (h : (sendLoop rs msg).2 = some (-1)) : (sendLoop rs msg).1.length < msg.length := by
  induction rs generalizing msg with
  | nil => cases msg <;> simp [sendLoop] at h
  | cons r rs ih =>
    cases msg with
    | nil => cases r <;> simp [sendLoop] at h
    | cons b msg =>
      have hpos : 0 < (b :: msg).length := by simp
      cases r with
      | sent n =>
        unfold sendLoop at h ⊢
        by_cases hn : n = 0
        · rw [if_pos hn]
          exact hpos
        · rw [if_neg hn] at h ⊢
          show ((b :: msg).take n ++ (sendLoop rs ((b :: msg).drop n)).1).length < _
          have htail := ih _ h
          rw [List.length_drop] at htail
          rw [List.length_append, List.length_take]
          omega
      | again => exact ih _ h
      | error => exact hpos

/-! ## a stream that ends too early -/

theorem receiveLine_eof {room : Nat} {stream : Bytes} (hlf : lf ∉ stream)
    (hlen : stream.length < room) : receiveLine room stream = none := by
  induction stream generalizing room with
  | nil =>
    obtain ⟨n, rfl⟩ : ∃ n, room = n + 1 := ⟨room - 1, by rw [List.length_nil] at hlen; omega⟩
    rfl
  | cons c stream ih =>
    rw [List.mem_cons, not_or] at hlf
    rw [List.length_cons] at hlen
    obtain ⟨n, rfl⟩ : ∃ n, room = n + 1 := ⟨room - 1, by omega⟩
    rw [receiveLine, if_neg (Ne.symm hlf.1)]
    by_cases hc : c = cr
    · rw [if_pos hc]
      exact ih hlf.2 (by omega)
    · rw [if_neg hc, ih hlf.2 (by omega)]
      rfl

/-- A proper prefix of a line, and nothing behind it. -/
theorem receiveMessage_cut {line written : Bytes} (hlf : lf ∉ line)
    (hfit : line.length < maxMessageSize + 64 - 1) (hpre : written <+: line ++ [lf])
    (hcut : written.length < (line ++ [lf]).length) : receiveMessage written = none := by
  have hline : written <+: line := by
    rw [List.prefix_concat_iff] at hpre
    rcases hpre with he | h
    · rw [he] at hcut
      omega
    · exact h
  have hno : lf ∉ written := fun h => hlf (hline.subset h)
  have hlen : written.length ≤ line.length := hline.length_le
  unfold receiveMessage
  rw [receiveLine_eof hno (by omega)]
  rfl

/-! ## delivery -/

/-- **A message arrives whole or not at all.** Whatever the sends return, the stream holds a prefix
of the formatted line; after a return value 0 the receiver obtains the type and the payload that
were sent, after -1 and the end of the stream it obtains an error. -/
theorem message_delivery {type : Nat} {payload : Bytes} (htype : type ≤ 1000)
    (hlen : payload.length ≤ maxMessageSize - 1) (h0 : 0 ∉ payload) (hlf : lf ∉ payload)
    (hcr : cr ∉ payload) (rs : List SendResult) :
    (sendMessage rs type payload).1 <+: decimal type ++ bar :: (payload ++ [lf]) ∧
    ((sendMessage rs type payload).2 = some 0 →
      ∀ rest, receiveMessage ((sendMessage rs type payload).1 ++ rest) =
        some ⟨type, payload.length, payload⟩) ∧
    ((sendMessage rs type payload).2 = some (-1) →
      receiveMessage (sendMessage rs type payload).1 = none) := by
  have hformat : formatMessage type payload = decimal type ++ bar :: (payload ++ [lf]) := by
    refine formatMessage_eq h0 ?_
    have hd : (decimal type).length ≤ 4 := length_decimal htype
    unfold maxMessageSize at hlen ⊢
    omega
  unfold sendMessage
  rw [hformat]
  have hpre := sendLoop_prefix rs (decimal type ++ bar :: (payload ++ [lf]))
  refine ⟨hpre, fun hrc rest => ?_, fun hrc => ?_⟩
  · rw [sendLoop_complete rs _ hrc]
    have hrest : (decimal type ++ bar :: (payload ++ [lf])) ++ rest =
        decimal type ++ bar :: (payload ++ lf :: rest) := by simp
    rw [hrest]
    exact receiveMessage_line hlf hcr htype hlen h0 rest
  · have hcut := sendLoop_failed rs _ hrc
    obtain ⟨hnolf, -, hfit⟩ := line_fits hlf hcr htype hlen
    have hline : decimal type ++ bar :: (payload ++ [lf]) =
        (decimal type ++ bar :: payload) ++ [lf] := by simp
    rw [hline] at hpre hcut ⊢
    exact receiveMessage_cut hnolf hfit hpre hcut

theorem message_delivery_split :
    (sendMessage [.sent 2, .again, .sent 9] 7 (ascii "a|")).2 = some 0 ∧
    receiveMessage ((sendMessage [.sent 2, .again, .sent 9] 7 (ascii "a|")).1 ++ ascii "x") =
      some ⟨7, 2, ascii "a|"⟩ ∧
    (sendMessage [.sent 2, .error] 7 (ascii "a|")).2 = some (-1) ∧
    receiveMessage (sendMessage [.sent 2, .error] 7 (ascii "a|")).1 = none := by
  have h := fun rs => @message_delivery 7 (ascii "a|") (by omega) (by decide) (by decide)
    (by decide) (by decide) rs
  have hok : (sendMessage [.sent 2, .again, .sent 9] 7 (ascii "a|")).2 = some 0 := by decide
  have hbad : (sendMessage [.sent 2, .error] 7 (ascii "a|")).2 = some (-1) := by decide
  exact ⟨hok, (h _).2.1 hok _, hbad, (h _).2.2 hbad⟩

end Wire
