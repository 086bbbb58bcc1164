import RobotDialog.Lib.Utf8
import RobotDialog.Wire.Protocol

/-!
# A reply from the server to the robot client

The client decodes the stream, reads one line and splits it at '|' (`SocketClient.startListening`,
`Parser.toMessage`).  Its default charset is UTF-8; a string of the client stands for its bytes in
UTF-8, and so does what an `InputStreamReader` makes of a stream.

* `readLine`               `BufferedReader(InputStreamReader(..)).readLine`;
* `Response`, `toMessage`  the replies and `Parser.toMessage`;
* `reply_roundTrip_iff`    the client obtains the text that the server sent exactly if the text
                           contains neither a line terminator nor '|' and is UTF-8;
* `reply_cut`              a reply that loses its second line.
-/

namespace Wire
open CString

/-- `BufferedReader.readLine` on a decoded stream: up to a line feed or a carriage return; `none` is
null, at the end of the stream -/
def readLine (stream : Bytes) : Option Bytes :=
  let chars := Utf8.decode stream
  if chars = [] then none else some (chars.takeWhile fun c => c != lf && c != cr)

/-- `String.toUInt`; `none` is a `NumberFormatException` -/
def toUInt (s : Bytes) : Option Nat :=
  let ds := match s with
    | c :: r => if c = 43 then r else s
    | [] => s
  if ds = [] ∨ ds.all isdigit = false then none
  else if digitsValue ds < UInt32.size then some (digitsValue ds) else none

inductive Response where
  | aiResponse (payload : Bytes)
  | testResponse (payload : Bytes)
  | error (payload : Bytes)
  deriving DecidableEq, Repr

def Response.invoke (code : Nat) (payload : Bytes) : Response :=
  match code with
  | 3 => .aiResponse payload
  | 4 => .testResponse payload
  | _ => .error payload

/-- `Parser.toMessage`; `none` is an exception -/
def toMessage (response : Bytes) : Option Response :=
  match response.splitOn bar with
  | code :: payload :: _ => (toUInt code).map fun c => .invoke c payload
  | _ => none

/-! ## the first fields of a line -/

theorem splitOn_head (d : UInt8) (xs : Bytes) :
    ∃ tl, xs.splitOn d = xs.takeWhile (· != d) :: tl := by
  rcases delim_cases d xs with h | ⟨as, bs, rfl, has⟩
  · exact ⟨[], by rw [List.splitOn_eq_singleton h, takeWhile_no_delim h]⟩
  · refine ⟨bs.splitOn d, ?_⟩
    rw [List.splitOn_append_cons_self, List.splitOn_eq_singleton has, takeWhile_delim has]
    rfl

theorem toMessage_line {type : Nat} (ht : type = 3 ∨ type = 4 ∨ type = 5) (payload : Bytes) :
    toMessage (decimal type ++ bar :: payload) =
      some (.invoke type (payload.takeWhile (· != bar))) := by
  obtain ⟨hno, hcode⟩ : bar ∉ decimal type ∧ toUInt (decimal type) = some type := by
    rcases ht with rfl | rfl | rfl <;> decide
  obtain ⟨tl, htl⟩ := splitOn_head bar payload
  unfold toMessage
  rw [List.splitOn_append_cons_self, List.splitOn_eq_singleton hno, htl]
  simp [hcode]

theorem Response.invoke_inj {type : Nat} (ht : type = 3 ∨ type = 4 ∨ type = 5) (p q : Bytes) :
    Response.invoke type p = Response.invoke type q ↔ p = q := by
  rcases ht with rfl | rfl | rfl <;> simp [Response.invoke]

/-! ## the round trip -/

theorem readLine_reply {type : Nat} (ht : type = 3 ∨ type = 4 ∨ type = 5) (rest : Bytes) :
    readLine (decimal type ++ bar :: rest) =
      some (decimal type ++ bar :: (Utf8.decode rest).takeWhile fun c => c != lf && c != cr) := by
  obtain ⟨d, hd, hascii, hline⟩ : ∃ d, decimal type = [d] ∧ d < 128 ∧
      (d != lf && d != cr) = true := by
    rcases ht with rfl | rfl | rfl
    · exact ⟨51, by decide, by decide, by decide⟩
    · exact ⟨52, by decide, by decide, by decide⟩
    · exact ⟨53, by decide, by decide, by decide⟩
  have hchars : Utf8.decode (d :: bar :: rest) = d :: bar :: Utf8.decode rest := by
    rw [Utf8.decode_cons hascii, Utf8.decode_cons (by decide)]
  unfold readLine
  rw [hd, List.singleton_append, hchars, if_neg (List.cons_ne_nil _ _), List.takeWhile_cons,
    if_pos hline, List.takeWhile_cons, if_pos (by decide)]
  rfl

theorem readLine_sent {type : Nat} (ht : type = 3 ∨ type = 4 ∨ type = 5) {text : Bytes}
    (h0 : 0 ∉ text) (hlen : text.length ≤ maxAiResponseSize - 1) {rs : List SendResult}
    {written : Bytes} (hs : sendMessage rs type text = (written, some 0)) :
    readLine written =
      some (decimal type ++ bar :: (Utf8.decode text).takeWhile fun c => c != lf && c != cr) := by
  have hd : (decimal type).length = 1 := by rcases ht with rfl | rfl | rfl <;> rfl
  have hwritten : written = decimal type ++ bar :: (text ++ [lf]) := by
    have hall := sendLoop_complete rs (formatMessage type text) (congrArg Prod.snd hs)
    rw [show (sendLoop rs (formatMessage type text)).1 = written from congrArg Prod.fst hs] at hall
    rw [hall, formatMessage_eq h0]
    rw [hd]
    unfold maxMessageSize
    unfold maxAiResponseSize at hlen
    omega
  have hstop : (Utf8.decode text ++ [lf]).takeWhile (fun c => c != lf && c != cr) =
      (Utf8.decode text).takeWhile fun c => c != lf && c != cr := by
    rw [List.takeWhile_append]
    split
    · rename_i hfull
      rw [show [lf].takeWhile (fun c => c != lf && c != cr) = [] from rfl, List.append_nil]
      exact (List.takeWhile_prefix _).eq_of_length hfull |>.symm
    · rfl
  rw [hwritten, readLine_reply ht, Utf8.decode_split (by decide)]
  exact congrArg (fun line => some (decimal type ++ bar :: line)) hstop

/-- what the client keeps of a text: it ends at a line terminator and at '|' -/
def heard (text : Bytes) : Bytes :=
  ((Utf8.decode text).takeWhile fun c => c != lf && c != cr).takeWhile (· != bar)

theorem valid_heard (text : Bytes) : Utf8.Valid (heard text) := by
  refine ((Utf8.valid_decode text).takeWhile fun c hc => ?_).takeWhile fun c hc => ?_
  · rw [Bool.and_eq_false_iff, bne_eq_false_iff_eq, bne_eq_false_iff_eq] at hc
    rcases hc with rfl | rfl <;> decide
  · rw [bne_eq_false_iff_eq] at hc
    subst hc
    decide

/-- **What is heard whole.** -/
theorem heard_eq_self_iff (text : Bytes) :
    heard text = text ↔ lf ∉ text ∧ cr ∉ text ∧ bar ∉ text ∧ Utf8.Valid text := by
  have hcut : Utf8.Valid text →
      (heard text = text ↔ ∀ c ∈ text, c ≠ bar ∧ c ≠ lf ∧ c ≠ cr) := by
    intro hvalid
    unfold heard
    rw [(Utf8.decode_eq_self_iff text).mpr hvalid, List.takeWhile_takeWhile,
      List.takeWhile_eq_self_iff]
    simp only [bne_iff_ne, Bool.and_eq_true, decide_eq_true_eq]
  constructor
  · intro h
    have hvalid : Utf8.Valid text := h ▸ valid_heard text
    have hall := (hcut hvalid).mp h
    exact ⟨fun hm => (hall lf hm).2.1 rfl, fun hm => (hall cr hm).2.2 rfl,
      fun hm => (hall bar hm).1 rfl, hvalid⟩
  · rintro ⟨hlf, hcr, hbar, hvalid⟩
    exact (hcut hvalid).mpr fun c hc =>
      ⟨fun e => hbar (e ▸ hc), fun e => hlf (e ▸ hc), fun e => hcr (e ▸ hc)⟩

theorem reply_heard {type : Nat} (ht : type = 3 ∨ type = 4 ∨ type = 5) {text : Bytes}
    (h0 : 0 ∉ text) (hlen : text.length ≤ maxAiResponseSize - 1) {rs : List SendResult}
    {written : Bytes} (hs : sendMessage rs type text = (written, some 0)) :
    (readLine written).bind toMessage = some (.invoke type (heard text)) := by
  rw [readLine_sent ht h0 hlen hs, Option.bind_some, toMessage_line ht]
  rfl

/-- **The round trip of a reply.**  For every way in which `send` delivers the whole message, the
client obtains the response of the type that was sent with exactly the text that was sent, if and
only if the text contains neither a line feed nor a carriage return nor '|' and is UTF-8. -/
theorem reply_roundTrip_iff (type : Nat) (ht : type = 3 ∨ type = 4 ∨ type = 5) (text : Bytes)
    (h0 : 0 ∉ text) (hlen : text.length ≤ maxAiResponseSize - 1) (rs : List SendResult)
    (written : Bytes) (hs : sendMessage rs type text = (written, some 0)) :
    (readLine written).bind toMessage = some (Response.invoke type text) ↔
      lf ∉ text ∧ cr ∉ text ∧ bar ∉ text ∧ Utf8.Valid text := by
  rw [reply_heard ht h0 hlen hs, Option.some.injEq, Response.invoke_inj ht, heard_eq_self_iff]

theorem reply_roundTrip_hello :
    (readLine (sendMessage [.sent 3, .again, .sent 100] 3 (ascii "Ciao! Come stai?")).1).bind
      toMessage = some (Response.invoke 3 (ascii "Ciao! Come stai?")) ↔
    lf ∉ ascii "Ciao! Come stai?" ∧ cr ∉ ascii "Ciao! Come stai?" ∧
      bar ∉ ascii "Ciao! Come stai?" ∧ Utf8.Valid (ascii "Ciao! Come stai?") :=
  reply_roundTrip_iff 3 (.inl rfl) (ascii "Ciao! Come stai?") (by decide) (by decide)
    [.sent 3, .again, .sent 100] _ (by decide)

/-- **A reply that loses its second line.** -/
theorem reply_cut :
    (readLine (sendMessage [.sent 100] 3 (ascii "Ciao!\nCome stai?")).1).bind toMessage =
      some (Response.invoke 3 (ascii "Ciao!")) ∧
    (sendMessage [.sent 100] 3 (ascii "Ciao!\nCome stai?")).2 = some 0 := by
  decide

end Wire
