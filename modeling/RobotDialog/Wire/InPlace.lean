import RobotDialog.Lib.Memory
import RobotDialog.Lib.Strtol
import RobotDialog.Wire.Dialog

/-!
# Receiving in place

`receive_line`, `trim_whitespace`, `receive_message`, `safe_strncpy` and
`parse_client_dialog_message` as they work on the buffers: each read and each store goes through the
memory, where it is a fault outside of its object, and a read of a byte that nobody has written is
one too.

* `receiveLine`, `trimWhitespace`, `receiveMessage`   from the socket to `message_t`;
* `strtok`, `safeStrncpy`, `parseClientDialogMessage` from there to `client_message_t`;
* `trimWhitespace_spec`, `strtok_spec` and so on      what each one leaves behind;
* `request_in_place`                                  there is no fault, and the result is that of the
                                                      functions on strings.
-/

namespace InPlace
open CString Memory Wire

/-! ## from the socket to `message_t` -/

/-- the loop of `receive_line`: the buffer and `pos`, or the return value -1 -/
def receiveLoop (bufferSize : Nat) : Bytes → Block → Nat → Option (Option (Block × Nat))
  | [], buffer, pos => return if pos < bufferSize - 1 then none else some (buffer, pos)
  | ch :: stream, buffer, pos =>
    if pos < bufferSize - 1 then
      if ch = lf then return some (buffer, pos)
      else if ch = cr then receiveLoop bufferSize stream buffer pos
      else do receiveLoop bufferSize stream (← store buffer pos ch) (pos + 1)
    else return some (buffer, pos)

def receiveLine (stream : Bytes) (buffer : Block) (bufferSize : Nat) :
    Option (Option (Block × Nat)) := do
  match ← receiveLoop bufferSize stream buffer 0 with
  | none => return none
  | some (buffer, pos) => return some (← store buffer pos 0, pos)

/-- `while (end > str && isspace(*end)) --end` -/
def trimEnd (m : Block) (str : Nat) : Nat → Option Nat
  | 0 => return 0
  | stop + 1 => do
    if str < stop + 1 then
      if isspace (← load m (stop + 1)) then trimEnd m str stop else return stop + 1
    else return stop + 1

def trimWhitespace (m : Block) (str : Nat) : Option (Block × Nat) := do
  let str ← scan (fun c => !isspace c) m str
  if (← load m str) = 0 then return (m, str)
  else
    let stop ← trimEnd m str (str + (← strlen m str) - 1)
    return (← store m (stop + 1) 0, str)

/-- `message_t` -/
structure MessageBlock where
  type : Int
  length : Nat
  data : Block

/-- what `receive_message` does with the line buffer -/
def parseLine (line : Block) (lineLength : Nat) : Option (Option MessageBlock) := do
  if lineLength < 2 then return none
  else
    let pipePos ← scan (fun c => c == bar || c == 0) line 0              -- strchr
    if (← load line pipePos) ≠ bar then return none
    else
      let (line, typeStr) ← trimWhitespace (← store line pipePos 0) 0
      let str ← text line typeStr
      let (parsedType, rest) := strtol str
      let endptr := typeStr + (str.length - rest.length)
      if (← load line endptr) ≠ 0 ∨ parsedType < 0 ∨ parsedType > 1000 then return none
      else
        let payloadLen := min (← strlen line (pipePos + 1)) (maxMessageSize - 1)
        let data ← copy line (pipePos + 1) (written (List.replicate maxMessageSize 0)) 0 payloadLen
        return some ⟨parsedType, payloadLen, ← store data payloadLen 0⟩

/-- `receive_message`; the line buffer is not initialised -/
def receiveMessage (garbage : Fin (maxMessageSize + 64) → Option UInt8) (stream : Bytes) :
    Option (Option MessageBlock) := do
  match ← receiveLine stream (List.ofFn garbage) (maxMessageSize + 64) with
  | none => return none
  | some (line, lineLength) => parseLine line lineLength

/-! ## from there to `client_message_t` -/

/-- `strtok` with a single delimiter -/
def strtok (d : UInt8) (m : Block) (s : Nat) : Option (Block × Nat × Option Nat) := do
  let start ← scan (fun c => c != d) m s
  if (← load m start) = 0 then return (m, start, none)
  else
    let stop ← scan (fun c => c == d || c == 0) m start
    if (← load m stop) = 0 then return (m, stop, some start)
    else return (← store m stop 0, stop + 1, some start)

def tokenLoop : Nat → Block → Nat → Option Nat → List Nat → Option (Block × List Nat)
  | 0, m, _, _, parts => return (m, parts)
  | _ + 1, m, _, none, parts => return (m, parts)
  | room + 1, m, cursor, some t, parts => do
    let (m', cursor', token') ← strtok bar m cursor
    tokenLoop room m' cursor' token' (parts ++ [t])

def safeStrncpy (dest src : Block) (s size : Nat) : Option Block := do
  store (← strncpy src s dest 0 (size - 1)) (size - 1) 0

/-- `client_message_t` -/
structure ClientMessageBlock where
  personality : Block
  language : Block
  conversation : Block
  isValid : Bool

def copyParts (m : Block) (parts : List Nat) : Option (Option ClientMessageBlock) := do
  match parts with
  | [p, l, c] =>
    return some
      { personality := ← safeStrncpy (written (List.replicate maxPersonalitySize 0)) m p
          maxPersonalitySize
        language := ← safeStrncpy (written (List.replicate maxLanguageSize 0)) m l maxLanguageSize
        conversation := ← safeStrncpy (written (List.replicate maxConversationSize 0)) m c
          maxConversationSize
        isValid := true }
  | _ => return none

def parseClientDialogMessage (strdupOk : Bool) (data : Block) :
    Option (Option ClientMessageBlock) := do
  let len ← strlen data 0
  if len = 0 then return none
  else if strdupOk then
    let dataCopy ← copy data 0 (List.replicate (len + 1) none) 0 (len + 1)
    let (m, cursor, token) ← strtok bar dataCopy 0
    let (m', parts) ← tokenLoop 3 m cursor token []
    copyParts m' parts
  else return none

/-- `receive_message`, and then `parse_client_dialog_message` on its data -/
def readRequest (garbage : Fin (maxMessageSize + 64) → Option UInt8) (strdupOk : Bool)
    (stream : Bytes) : Option (Option (MessageBlock × Option ClientMessageBlock)) := do
  match ← receiveMessage garbage stream with
  | none => return none
  | some msg => return some (msg, ← parseClientDialogMessage strdupOk msg.data)

/-! ## arrays that hold a string -/

/-- an array of `size` bytes: a string and zeros behind it -/
def field (size : Nat) (s : Bytes) : Block :=
  written s ++ List.replicate (size - s.length) (some 0)

def ofMessage (m : Message) : MessageBlock := ⟨m.type, m.length, field maxMessageSize m.data⟩

def ofClientMessage (m : ClientMessage) : ClientMessageBlock :=
  { personality := field maxPersonalitySize m.personality
    language := field maxLanguageSize m.language
    conversation := field maxConversationSize m.conversation
    isValid := m.isValid }

theorem field_eq {size : Nat} {s : Bytes} (h : s.length < size) :
    field size s = written s ++ some 0 :: List.replicate (size - s.length - 1) (some 0) := by
  obtain ⟨n, hn⟩ : ∃ n, size - s.length = n + 1 := ⟨size - s.length - 1, by omega⟩
  unfold field
  rw [hn, List.replicate_succ, Nat.add_sub_cancel]

theorem copy_field {size n : Nat} (pre : Block) {b : Bytes} (hn : n ≤ b.length) (hsize : n < size)
    (post : Block) :
    ∃ data, copy (pre ++ (written b ++ post)) pre.length (written (List.replicate size 0)) 0 n =
        some data ∧ store data n 0 = some (field size (b.take n)) := by
  have htake : (b.take n).length = n := List.length_take_of_le hn
  obtain ⟨k, rfl⟩ : ∃ k, size = n + (k + 1) := ⟨size - n - 1, by omega⟩
  have hold : (written (List.replicate n 0)).length = (b.take n).length := by
    rw [length_written, List.length_replicate, htake]
  have hzeros : written (List.replicate (n + (k + 1)) 0) =
      [] ++ (written (List.replicate n 0) ++ some 0 :: written (List.replicate k 0)) := by
    rw [List.replicate_add, written_append]
    rfl
  have hsrc : written b ++ post = written (b.take n) ++ (written (b.drop n) ++ post) := by
    rw [← List.append_assoc, ← written_append, List.take_append_drop]
  have hcopy := copy_over pre (b.take n) (written (b.drop n) ++ post) [] hold
    (some 0 :: written (List.replicate k 0))
  rw [← hsrc, htake, ← hzeros, List.length_nil, List.nil_append] at hcopy
  refine ⟨_, hcopy, ?_⟩
  have hstore := store_at (written (b.take n)) (some 0) (written (List.replicate k 0)) 0
  rw [length_written, htake] at hstore
  rw [hstore, field_eq (by omega), htake, Nat.add_sub_cancel_left, Nat.add_sub_cancel]
  unfold written
  rw [List.map_replicate]

/-! ## the line -/

theorem receiveLoop_spec {bufferSize room : Nat} (stream : Bytes) {done : Bytes} {old : Block}
    (hroom : done.length + room = bufferSize - 1) (hold : room < old.length) :
    ∃ r, receiveLoop bufferSize stream (written done ++ old) done.length = some r ∧
      ((Wire.receiveLine room stream = none ∧ r = none) ∨
        ∃ line rest tail, Wire.receiveLine room stream = some (line, rest) ∧ tail ≠ [] ∧
          r = some (written (done ++ line) ++ tail, (done ++ line).length)) := by
  induction stream generalizing room done old with
  | nil =>
    cases room with
    | zero =>
      refine ⟨_, by unfold receiveLoop; rw [if_neg (by omega)]; rfl,
        .inr ⟨[], [], old, rfl, ?_, ?_⟩⟩
      · exact List.ne_nil_of_length_pos hold
      · rw [List.append_nil]
    | succ room =>
      exact ⟨none, by unfold receiveLoop; rw [if_pos (by omega)]; rfl, .inl ⟨rfl, rfl⟩⟩
  | cons ch stream ih =>
    cases room with
    | zero =>
      refine ⟨_, by unfold receiveLoop; rw [if_neg (by omega)]; rfl,
        .inr ⟨[], ch :: stream, old, rfl, ?_, ?_⟩⟩
      · exact List.ne_nil_of_length_pos hold
      · rw [List.append_nil]
    | succ room =>
      unfold receiveLoop Wire.receiveLine
      rw [if_pos (by omega)]
      by_cases hlf : ch = lf
      · rw [if_pos hlf, if_pos hlf]
        refine ⟨_, rfl, .inr ⟨[], stream, old, rfl, ?_, ?_⟩⟩
        · exact List.ne_nil_of_length_pos (Nat.zero_lt_of_lt hold)
        · rw [List.append_nil]
      · rw [if_neg hlf, if_neg hlf]
        by_cases hcr : ch = cr
        · rw [if_pos hcr, if_pos hcr]
          exact ih hroom hold
        · rw [if_neg hcr, if_neg hcr]
          obtain ⟨o, old, rfl⟩ : ∃ o rest, old = o :: rest :=
            List.exists_cons_of_length_pos (Nat.zero_lt_of_lt hold)
          have hstore : store (written done ++ o :: old) done.length ch =
              some (written (done ++ [ch]) ++ old) := by
            have h := store_at (written done) o old ch
            rw [length_written] at h
            rw [h, written_append, List.append_assoc]
            rfl
          have hroom' : (done ++ [ch]).length + room = bufferSize - 1 := by
            rw [List.length_append, List.length_singleton]
            omega
          obtain ⟨r, hr, hcase⟩ := ih hroom' (Nat.lt_of_succ_lt_succ hold)
          refine ⟨r, ?_, ?_⟩
          · rw [hstore, ← hr, List.length_append]
            rfl
          · rcases hcase with ⟨hnone, rfl⟩ | ⟨line, rest, tail, hline, htail, rfl⟩
            · exact .inl ⟨by rw [hnone]; rfl, rfl⟩
            · refine .inr ⟨ch :: line, rest, tail, by rw [hline]; rfl, htail, ?_⟩
              rw [List.append_assoc]
              rfl

/-- **`receive_line`** stores the line and its NUL in the buffer. -/
theorem receiveLine_spec {bufferSize : Nat} (h : 0 < bufferSize) (stream : Bytes) {buffer : Block}
    (hbuffer : buffer.length = bufferSize) :
    (Wire.receiveLine (bufferSize - 1) stream = none ∧
        receiveLine stream buffer bufferSize = some none) ∨
      ∃ line rest tail, Wire.receiveLine (bufferSize - 1) stream = some (line, rest) ∧
        receiveLine stream buffer bufferSize =
          some (some (written line ++ some 0 :: tail, line.length)) := by
  have hroom : ([] : Bytes).length + (bufferSize - 1) = bufferSize - 1 := Nat.zero_add _
  have hold : bufferSize - 1 < buffer.length := by omega
  obtain ⟨r, hr, hcase⟩ := receiveLoop_spec stream hroom hold
  rw [written_nil, List.nil_append, List.length_nil] at hr
  unfold receiveLine
  rw [hr]
  rcases hcase with ⟨hnone, rfl⟩ | ⟨line, rest, tail, hline, htail, rfl⟩
  · exact .inl ⟨hnone, rfl⟩
  · obtain ⟨o, tail, rfl⟩ := List.exists_cons_of_ne_nil htail
    refine .inr ⟨line, rest, tail, hline, ?_⟩
    have hstore := store_at (written line) o tail 0
    rw [length_written] at hstore
    rw [List.nil_append, Option.bind_eq_bind, Option.bind_some]
    dsimp only
    rw [hstore]
    rfl

/-! ## trimming -/

theorem trimEnd_stop {m : Block} {str stop : Nat} {c : UInt8} (h : load m stop = some c)
    (hc : isspace c = false) : trimEnd m str stop = some stop := by
  cases stop with
  | zero => rfl
  | succ stop =>
    unfold trimEnd
    rw [h, Option.bind_eq_bind, Option.bind_some, hc]
    split <;> rfl

theorem trimEnd_spec (pre : Block) (t after : Bytes) (ha : Blank after) {x : UInt8}
    (hx : isspace x = false) (post : Block) :
    trimEnd (pre ++ (written (t ++ [x] ++ after) ++ post)) pre.length
        (pre.length + (t ++ [x] ++ after).length - 1) = some (pre.length + t.length) := by
  induction after using List.reverseRecOn generalizing post with
  | nil =>
    have hend : pre.length + (t ++ [x] ++ []).length - 1 = pre.length + t.length := by
      rw [List.append_nil, List.length_append, List.length_singleton]
      rfl
    have hload := load_at (pre ++ written t) x post
    rw [List.length_append, length_written, List.append_assoc] at hload
    rw [hend, List.append_nil, written_append, List.append_assoc]
    exact trimEnd_stop hload hx
  | append_singleton after c ih =>
    have hc : isspace c = true := ha c (List.mem_append_right _ List.mem_cons_self)
    have hnext := ih (fun d hd => ha d (List.mem_append_left _ hd)) (some c :: post)
    have hm : written (t ++ [x] ++ (after ++ [c])) ++ post =
        written (t ++ [x] ++ after) ++ some c :: post := by
      rw [← List.append_assoc (t ++ [x]), written_append (t ++ [x] ++ after), List.append_assoc]
      rfl
    have hload := load_at (pre ++ written (t ++ [x] ++ after)) c post
    rw [List.length_append, length_written, List.append_assoc] at hload
    obtain ⟨n, hn⟩ : ∃ n, pre.length + (t ++ [x] ++ after).length = n + 1 := by
      refine ⟨pre.length + t.length + after.length, ?_⟩
      simp only [List.length_append, List.length_singleton]
      omega
    have hend : pre.length + (t ++ [x] ++ (after ++ [c])).length - 1 = n + 1 := by
      simp only [List.length_append, List.length_singleton] at hn ⊢
      omega
    have hlt : pre.length < n + 1 := by
      rw [← hn]
      simp only [List.length_append, List.length_singleton]
      omega
    rw [hn] at hload hnext
    rw [hm, hend]
    unfold trimEnd
    rw [if_pos hlt, hload, Option.bind_eq_bind, Option.bind_some, if_pos hc]
    exact hnext

/-- **`trim_whitespace`** leaves the trimmed string at the offset that it returns, and everything
behind the string as it was. -/
theorem trimWhitespace_spec (pre : Block) {s : Bytes} (h0 : 0 ∉ s) (post : Block) :
    ∃ before gap, trimWhitespace (pre ++ (written s ++ some 0 :: post)) pre.length =
        some (pre ++ (written before ++ (written (trim s) ++ some 0 :: (gap ++ post))),
          pre.length + before.length) ∧
      before.length + (trim s).length + gap.length = s.length := by
  have hscan := scan_string (p := fun c => !isspace c) rfl pre s post
  simp only [Bool.not_not] at hscan
  have hsplit : s.takeWhile isspace ++ s.dropWhile isspace = s := List.takeWhile_append_dropWhile
  have hload := load_string pre (s.takeWhile isspace) (s.dropWhile isspace) post
  rw [hsplit] at hload
  unfold trimWhitespace
  rw [hscan, Option.bind_eq_bind, Option.bind_some, hload, Option.bind_eq_bind, Option.bind_some]
  by_cases hr : s.dropWhile isspace = []
  · -- nothing but white space
    have htrim : trim s = [] := by
      unfold trim
      rw [hr]
      rfl
    rw [hr, List.append_nil] at hsplit
    refine ⟨s, [], ?_, by rw [htrim]; simp⟩
    rw [hr, htrim, hsplit]
    rfl
  · obtain ⟨c, r, hcr⟩ := List.exists_cons_of_ne_nil hr
    have hc : c ≠ 0 := by
      rintro rfl
      exact h0 (hsplit ▸ List.mem_append_right _ (hcr ▸ List.mem_cons_self))
    have hne : trim s ≠ [] := by
      intro hnil
      have hblank := List.rdropWhile_eq_nil_iff.mp hnil c (hcr ▸ List.mem_cons_self)
      have hhead := List.head_dropWhile_not isspace (l := s) hr
      simp only [hcr, List.head_cons] at hhead
      rw [hhead] at hblank
      cases hblank
    obtain ⟨t, x, htx⟩ : ∃ t x, trim s = t ++ [x] :=
      ⟨_, _, (List.dropLast_append_getLast hne).symm⟩
    have hx : isspace x = false := by
      have hlast := List.rdropWhile_last_not isspace (s.dropWhile isspace) hne
      have hget : (trim s).getLast hne = x := by simp only [htx, List.getLast_append_singleton]
      rw [← hget]
      exact eq_false_of_ne_true hlast
    obtain ⟨after, hafter, hdrop⟩ : ∃ after, Blank after ∧
        s.dropWhile isspace = t ++ [x] ++ after := by
      refine ⟨(s.dropWhile isspace).rtakeWhile isspace, fun d hd => List.mem_rtakeWhile_imp hd, ?_⟩
      rw [← htx]
      exact (List.rdropWhile_append_rtakeWhile ..).symm
    have hs : s = s.takeWhile isspace ++ (t ++ [x] ++ after) := by rw [← hdrop, hsplit]
    generalize s.takeWhile isspace = before at hs ⊢
    have h0' : 0 ∉ t ++ [x] ++ after := fun h => h0 (hs ▸ List.mem_append_right _ h)
    have hm : pre ++ (written s ++ some 0 :: post) =
        (pre ++ written before) ++ (written (t ++ [x] ++ after) ++ some 0 :: post) := by
      conv_lhs => rw [hs]
      rw [written_append before, List.append_assoc (written before), List.append_assoc pre]
    have hstr : pre.length + before.length = (pre ++ written before).length := by
      rw [List.length_append, length_written]
    have hstop : (pre ++ written before).length + t.length + 1 =
        (pre ++ written before ++ written (t ++ [x])).length := by
      simp only [List.length_append, length_written, List.length_singleton, Nat.add_assoc]
    -- the byte behind the trimmed string is white space or the NUL
    obtain ⟨old, rest, hold, hrest⟩ : ∃ old rest,
        written after ++ some 0 :: post = old :: (rest ++ post) ∧ rest.length = after.length := by
      cases after with
      | nil => exact ⟨some 0, [], rfl, rfl⟩
      | cons a after =>
        refine ⟨some a, written after ++ [some 0], ?_, ?_⟩
        · rw [List.append_assoc]
          rfl
        · rw [List.length_append, length_written]
          rfl
    refine ⟨before, rest, ?_, ?_⟩
    · have hhead : ¬ (s.dropWhile isspace).headD 0 = 0 := by
        rw [hcr]
        exact hc
      rw [if_neg hhead, hm, hstr, strlen_string _ h0' post, Option.bind_some,
        trimEnd_spec (pre ++ written before) t after hafter hx (some 0 :: post), Option.bind_some,
        written_append, List.append_assoc (written (t ++ [x])), hold, ← List.append_assoc, hstop,
        store_at, Option.bind_eq_bind, Option.bind_some, htx, List.append_assoc, List.append_assoc]
      rfl
    · have hlen := congrArg List.length hs
      simp only [htx, List.length_append, List.length_singleton] at hlen ⊢
      omega

/-! ## the message -/

theorem nul_not_mem_trim {s : Bytes} (h0 : 0 ∉ s) : 0 ∉ trim s := by
  obtain ⟨before, after, -, -, hsplit⟩ := trim_split s
  exact fun h => h0 (hsplit ▸ List.mem_append_left _ (List.mem_append_right _ h))

theorem parseLine_bar {typ payload : Bytes} (h0 : 0 ∉ typ) (h0' : 0 ∉ payload) (rest : Block) :
    ∃ line typeStr, trimWhitespace (written typ ++ some 0 :: (written payload ++ some 0 :: rest)) 0 =
        some (line, typeStr) ∧
      text line typeStr = some (trim typ) ∧
      load line (typeStr + ((trim typ).length - (strtol (trim typ)).2.length)) =
        some ((strtol (trim typ)).2.headD 0) ∧
      strlen line (typ.length + 1) = some payload.length ∧
      ∀ n ≤ payload.length, n < maxMessageSize →
        ∃ data, copy line (typ.length + 1) (written (List.replicate maxMessageSize 0)) 0 n =
            some data ∧
          store data n 0 = some (field maxMessageSize (payload.take n)) := by
  obtain ⟨before, gap, htrim, hlen⟩ :=
    trimWhitespace_spec [] h0 (written payload ++ some 0 :: rest)
  rw [List.nil_append, List.length_nil, Nat.zero_add, List.nil_append] at htrim
  have htext := text_string (written before) (nul_not_mem_trim h0)
    (gap ++ (written payload ++ some 0 :: rest))
  have hend := load_string (written before)
    ((trim typ).take ((trim typ).length - (strtol (trim typ)).2.length)) (strtol (trim typ)).2
    (gap ++ (written payload ++ some 0 :: rest))
  rw [List.suffix_iff_eq_append.mp (strtol_suffix (trim typ))] at hend
  -- in front of the payload: the type, the NUL that replaced the bar, and what was trimmed
  have hpre : written before ++
        (written (trim typ) ++ some 0 :: (gap ++ (written payload ++ some 0 :: rest))) =
      (written before ++ (written (trim typ) ++ some 0 :: gap)) ++
        (written payload ++ some 0 :: rest) := by
    simp only [List.append_assoc, List.cons_append]
  have hprelen : (written before ++ (written (trim typ) ++ some 0 :: gap)).length =
      typ.length + 1 := by
    simp only [List.length_append, length_written, List.length_cons]
    omega
  refine ⟨_, before.length, htrim, ?_, ?_, ?_, ?_⟩
  · rwa [length_written] at htext
  · rw [length_written, List.length_take_of_le (Nat.sub_le _ _)] at hend
    exact hend
  · rw [hpre, ← hprelen]
    exact strlen_string _ h0' rest
  · intro n hn hroom
    have hcopy := copy_field (written before ++ (written (trim typ) ++ some 0 :: gap)) hn hroom
      (some 0 :: rest)
    rw [hprelen, ← hpre] at hcopy
    exact hcopy

/-- **`receive_message` on its line buffer**: no fault, and the message that the line stands for. -/
theorem parseLine_spec (line : Bytes) (tail : Block) :
    parseLine (written line ++ some 0 :: tail) line.length =
      some ((Wire.parseLine line).map ofMessage) := by
  unfold parseLine Wire.parseLine
  by_cases hlen : line.length < 2
  · rw [if_pos hlen, if_pos hlen]
    rfl
  rw [if_neg hlen, if_neg hlen]
  obtain ⟨rest, hrest⟩ := written_cstr line tail
  have h0 : 0 ∉ cstr line := nul_not_mem_cstr line
  rw [hrest]
  generalize cstr line = s at h0 ⊢
  have hscan := scan_delim bar [] h0 rest
  rw [List.nil_append, List.length_nil, Nat.zero_add] at hscan
  have hload := load_string [] (s.takeWhile (· != bar)) (s.dropWhile (· != bar)) rest
  rw [List.takeWhile_append_dropWhile, List.nil_append, List.length_nil, Nat.zero_add] at hload
  rw [hscan, Option.bind_eq_bind, Option.bind_some, hload, Option.bind_eq_bind, Option.bind_some]
  rcases delim_cases bar s with hbar | ⟨typ, payload, rfl, htyp⟩
  · have hdrop : s.dropWhile (· != bar) = [] := by
      have hall := List.takeWhile_append_dropWhile (p := (· != bar)) (l := s)
      rwa [takeWhile_no_delim hbar, List.append_right_eq_self] at hall
    rw [if_neg hbar, hdrop]
    rfl
  · rw [List.mem_append, List.mem_cons, not_or, not_or] at h0
    obtain ⟨r, typeStr, htrim, htext, hend, hstrlen, hcopy⟩ := parseLine_bar h0.1 h0.2.2 rest
    have hmem : bar ∈ typ ++ bar :: payload := List.mem_append_right _ List.mem_cons_self
    have hstore := store_at (written typ) (some bar) (written payload ++ some 0 :: rest) 0
    rw [length_written] at hstore
    rw [if_pos hmem, takeWhile_delim htyp, dropWhile_delim htyp, List.headD_cons, if_neg (by simp),
      written_append, written_cons, List.append_assoc, List.cons_append, hstore,
      Option.bind_eq_bind, Option.bind_some, htrim, Option.bind_eq_bind, Option.bind_some]
    dsimp only
    have h0rest : 0 ∉ (strtol (trim typ)).2 := fun h =>
      nul_not_mem_trim h0.1 ((strtol_suffix _).mem h)
    have hend' : (strtol (trim typ)).2.headD 0 ≠ 0 ↔ (strtol (trim typ)).2 ≠ [] :=
      not_congr (headD_eq_zero h0rest)
    rw [htext, Option.bind_eq_bind, Option.bind_some, hend, Option.bind_some, List.drop_succ_cons,
      List.drop_zero]
    simp only [hend']
    split
    · rfl
    · obtain ⟨data, hdata, hfield⟩ := hcopy (min payload.length (maxMessageSize - 1))
        (Nat.min_le_left _ _) (Nat.lt_of_le_of_lt (Nat.min_le_right _ _) (by decide))
      have htake : payload.take (min payload.length (maxMessageSize - 1)) =
          payload.take (maxMessageSize - 1) := by
        rw [Nat.min_comm, ← List.take_take, List.take_length]
      rw [hstrlen, Option.bind_some, hdata, Option.bind_some, hfield, Option.bind_some, htake]
      have hlength : (payload.take (maxMessageSize - 1)).length =
          min payload.length (maxMessageSize - 1) := by
        rw [List.length_take, Nat.min_comm]
      rw [← hlength]
      rfl

/-- **`receive_message`** has no fault, whatever the peer sends and whatever the line buffer held. -/
theorem receiveMessage_spec (garbage : Fin (maxMessageSize + 64) → Option UInt8) (stream : Bytes) :
    receiveMessage garbage stream = some ((Wire.receiveMessage stream).map ofMessage) := by
  unfold receiveMessage Wire.receiveMessage
  have hlen : (List.ofFn garbage).length = maxMessageSize + 64 := List.length_ofFn
  rcases receiveLine_spec (by decide) stream hlen with
    ⟨hnone, hline⟩ | ⟨line, rest, tail, hsome, hline⟩
  · rw [hline, hnone]
    rfl
  · rw [hline, hsome]
    exact parseLine_spec line tail

/-! ## the tokens -/

theorem length_cstrAt (b : Bytes) (s : Nat) : (cstrAt b s).length ≤ b.length - s := by
  have h := (List.takeWhile_sublist (· != 0) (l := b.drop s)).length_le
  rwa [List.length_drop] at h

/-- **`strtok`** reads and stores inside of the string and its NUL. -/
theorem strtok_spec {d : UInt8} (hd : d ≠ 0) {b : Bytes} {s : Nat} (hs : s ≤ b.length)
    (tail : Block) {b' : Bytes} {cursor : Nat} {token : Option Nat}
    (h : CString.strtok d b s = (b', cursor, token)) :
    strtok d (written b ++ some 0 :: tail) s =
        some (written b' ++ some 0 :: tail, cursor, token) ∧
      b'.length = b.length ∧ cursor ≤ b.length ∧ ∀ t ∈ token, t ≤ b.length := by
  have hzero : (0 : UInt8) != d := bne_iff_ne.mpr (Ne.symm hd)
  have hscan := scan_cstrAt (p := fun c => c != d) hzero hs tail
  have hsame : (fun c => !(c != d)) = fun c : UInt8 => c == d := funext fun c => Bool.not_not _
  rw [hsame] at hscan
  have hempty : ∀ k, (cstrAt b k).headD 0 = 0 ↔ cstrAt b k = [] := fun k =>
    headD_eq_zero (nul_not_mem_cstr _)
  have hlen := length_cstrAt b
  unfold CString.strtok at h
  unfold strtok
  rw [hscan, Option.bind_eq_bind, Option.bind_some]
  by_cases hnil : cstrAt b s = []
  · rw [if_pos hnil] at h
    obtain ⟨rfl, rfl, rfl⟩ := h
    rw [hnil, List.takeWhile_nil, List.length_nil, Nat.add_zero, load_cstrAt hs,
      Option.bind_eq_bind, Option.bind_some, if_pos ((hempty _).mpr hnil)]
    exact ⟨rfl, rfl, hs, fun t ht => by cases ht⟩
  · rw [if_neg hnil] at h
    have htake : ((cstrAt b s).takeWhile (· == d)).length ≤ b.length - s :=
      le_trans (List.takeWhile_sublist _).length_le (hlen s)
    obtain ⟨start, hstart⟩ : ∃ k, s + ((cstrAt b s).takeWhile (· == d)).length = k := ⟨_, rfl⟩
    have hle : start ≤ b.length := by omega
    simp only [hstart] at h ⊢
    rw [load_cstrAt hle, Option.bind_eq_bind, Option.bind_some]
    by_cases hnil' : cstrAt b start = []
    · rw [if_pos hnil'] at h
      obtain ⟨rfl, rfl, rfl⟩ := h
      rw [if_pos ((hempty _).mpr hnil')]
      exact ⟨rfl, rfl, hle, fun t ht => by cases ht⟩
    · rw [if_neg hnil'] at h
      have htake' : ((cstrAt b start).takeWhile (· != d)).length ≤ b.length - start :=
        le_trans (List.takeWhile_sublist _).length_le (hlen start)
      obtain ⟨stop, hstop⟩ : ∃ k, start + ((cstrAt b start).takeWhile (· != d)).length = k :=
        ⟨_, rfl⟩
      have hle' : stop ≤ b.length := by omega
      rw [if_neg fun e => hnil' ((hempty _).mp e), scan_delim_cstrAt d hle, Option.bind_eq_bind,
        Option.bind_some]
      simp only [hstop] at h ⊢
      rw [load_cstrAt hle', Option.bind_some]
      by_cases hnil'' : cstrAt b stop = []
      · rw [if_pos hnil''] at h
        obtain ⟨rfl, rfl, rfl⟩ := h
        rw [if_pos ((hempty _).mpr hnil'')]
        exact ⟨rfl, rfl, hle', fun t ht => Option.some.inj ht ▸ hle⟩
      · rw [if_neg hnil''] at h
        obtain ⟨rfl, rfl, rfl⟩ := h
        have hlt : stop < b.length := by
          have hpos := List.length_pos_of_ne_nil hnil''
          have := hlen stop
          omega
        have hstore : store (written b ++ some 0 :: tail) stop 0 =
            some (written (b.set stop 0) ++ some 0 :: tail) := by
          unfold store
          rw [if_pos (by rw [List.length_append, length_written]; omega),
            List.set_append_left _ _ (by rwa [length_written])]
          unfold written
          rw [List.map_set]
        rw [if_neg fun e => hnil'' ((hempty _).mp e), hstore]
        exact ⟨rfl, List.length_set, hlt, fun t ht => Option.some.inj ht ▸ hle⟩

theorem tokenLoop_spec (room : Nat) {b : Bytes} {cursor : Nat} (hcursor : cursor ≤ b.length)
    (token : Option Nat) (htoken : ∀ t ∈ token, t ≤ b.length) {parts : List Nat}
    (hparts : ∀ t ∈ parts, t ≤ b.length) (tail : Block) {b' : Bytes} {parts' : List Nat}
    (h : Wire.tokenLoop room b cursor token parts = (b', parts')) :
    tokenLoop room (written b ++ some 0 :: tail) cursor token parts =
        some (written b' ++ some 0 :: tail, parts') ∧ ∀ t ∈ parts', t ≤ b'.length := by
  induction room generalizing b cursor token parts with
  | zero =>
    obtain ⟨rfl, rfl⟩ := h
    exact ⟨rfl, hparts⟩
  | succ room ih =>
    cases token with
    | none =>
      obtain ⟨rfl, rfl⟩ := h
      exact ⟨rfl, hparts⟩
    | some t =>
      obtain ⟨⟨b₁, cursor₁, token₁⟩, hstrtok⟩ : ∃ p, CString.strtok bar b cursor = p := ⟨_, rfl⟩
      obtain ⟨hstep, hlen, hcursor₁, htoken₁⟩ := strtok_spec bar_ne_zero hcursor tail hstrtok
      unfold Wire.tokenLoop at h
      rw [hstrtok] at h
      unfold tokenLoop
      rw [hstep, Option.bind_eq_bind, Option.bind_some]
      rw [← hlen] at hcursor₁ htoken₁ hparts htoken
      refine ih hcursor₁ token₁ htoken₁ (fun u hu => ?_) h
      rcases List.mem_append.mp hu with hu | hu
      · exact hparts u hu
      · obtain rfl := List.mem_singleton.mp hu
        exact htoken u rfl

/-! ## the fields -/

/-- **`safe_strncpy`** into an array of zeros: the string, cut, with a NUL behind it. -/
theorem safeStrncpy_spec {size : Nat} (hsize : 0 < size) {b : Bytes} {s : Nat} (hs : s ≤ b.length)
    (tail : Block) :
    safeStrncpy (written (List.replicate size 0)) (written b ++ some 0 :: tail) s size =
      some (field size (cut size (cstrAt b s))) := by
  obtain ⟨n, rfl⟩ : ∃ n, size = n + 1 := ⟨size - 1, by omega⟩
  obtain ⟨rest, hrest⟩ := written_cstrAt b s tail
  have hzeros : written (List.replicate (n + 1) 0) =
      [] ++ (List.replicate n (some 0) ++ [some 0]) := by
    rw [List.nil_append, ← List.replicate_succ']
    exact List.map_replicate
  have hcopy := strncpy_over (written (b.take s)) (nul_not_mem_cstr (b.drop s)) rest []
    (List.replicate n (some 0)) [some 0]
  rw [List.length_replicate, length_take_written hs, List.length_nil, ← hzeros,
    List.nil_append] at hcopy
  have hlen : (written ((cstrAt b s).take n) ++
      List.replicate (n - (cstrAt b s).length) (some 0)).length = n := by
    rw [List.length_append, length_written, List.length_take, List.length_replicate]
    omega
  have hstore := store_at (written ((cstrAt b s).take n) ++
    List.replicate (n - (cstrAt b s).length) (some 0)) (some 0) [] 0
  rw [hlen] at hstore
  have hfield : field (n + 1) (cut (n + 1) (cstrAt b s)) = written ((cstrAt b s).take n) ++
      List.replicate (n - (cstrAt b s).length) (some 0) ++ [some 0] := by
    have hrep : n + 1 - ((cstrAt b s).take n).length = n - (cstrAt b s).length + 1 := by
      rw [List.length_take]
      omega
    show written ((cstrAt b s).take n) ++
      List.replicate (n + 1 - ((cstrAt b s).take n).length) (some 0) = _
    rw [hrep, List.replicate_succ', List.append_assoc]
  unfold safeStrncpy
  rw [Nat.add_sub_cancel, hrest]
  show (strncpy (written (b.take s) ++ (written (cstr (b.drop s)) ++ some 0 :: rest)) s _ 0 n).bind
    _ = _
  rw [hcopy, Option.bind_some, hfield]
  exact hstore

theorem copyParts_spec {b : Bytes} {parts : List Nat} (hparts : ∀ t ∈ parts, t ≤ b.length)
    (tail : Block) :
    copyParts (written b ++ some 0 :: tail) parts =
      some ((Wire.copyParts b parts).map ofClientMessage) := by
  unfold copyParts Wire.copyParts
  rcases parts with - | ⟨p, - | ⟨l, - | ⟨c, - | ⟨t, rest⟩⟩⟩⟩
  · rfl
  · rfl
  · rfl
  · have hp := hparts p (by simp)
    have hl := hparts l (by simp)
    have hc := hparts c (by simp)
    dsimp only
    rw [safeStrncpy_spec (by decide) hp, Option.bind_eq_bind, Option.bind_some,
      safeStrncpy_spec (by decide) hl, Option.bind_some, safeStrncpy_spec (by decide) hc,
      Option.bind_some]
    rfl
  · rfl

/-- **`parse_client_dialog_message`** has no fault on an array that holds a string. -/
theorem parse_spec (strdupOk : Bool) {data : Bytes} (h0 : 0 ∉ data) (tail : Block) :
    parseClientDialogMessage strdupOk (written data ++ some 0 :: tail) =
      some ((Wire.parseClientDialogMessage strdupOk data).map ofClientMessage) := by
  have hstrlen := strlen_string [] h0 tail
  rw [List.nil_append, List.length_nil] at hstrlen
  unfold parseClientDialogMessage Wire.parseClientDialogMessage
  rw [hstrlen, Option.bind_eq_bind, Option.bind_some, cstr_eq_self h0]
  by_cases hnil : data = []
  · subst hnil
    rfl
  · rw [if_neg hnil, if_neg fun e => hnil (List.length_eq_zero_iff.mp e)]
    cases strdupOk with
    | false => rfl
    | true =>
      rw [if_pos rfl, if_pos rfl]
      have hold : (List.replicate (data.length + 1) (none : Option UInt8)).length =
          (data ++ [0]).length := by
        rw [List.length_replicate, List.length_append, List.length_singleton]
      have hcopy := copy_over [] (data ++ [0]) tail [] hold []
      rw [List.nil_append, List.nil_append, List.append_nil, List.nil_append, List.append_nil,
        List.length_append, List.length_singleton, written_append, List.append_assoc] at hcopy
      have hdup : copy (written data ++ some 0 :: tail) 0
          (List.replicate (data.length + 1) none) 0 (data.length + 1) =
          some (written data ++ some 0 :: []) := hcopy
      obtain ⟨⟨b, cursor, token⟩, hstrtok⟩ : ∃ p, CString.strtok bar data 0 = p := ⟨_, rfl⟩
      obtain ⟨hfirst, hlen, hcursor, htoken⟩ :=
        strtok_spec bar_ne_zero (Nat.zero_le _) [] hstrtok
      rw [← hlen] at hcursor htoken
      obtain ⟨⟨b', parts⟩, hloop⟩ : ∃ p, Wire.tokenLoop 3 b cursor token [] = p := ⟨_, rfl⟩
      obtain ⟨hrun, hparts⟩ := tokenLoop_spec 3 hcursor token htoken
        (fun _ h => absurd h List.not_mem_nil) [] hloop
      rw [hdup, Option.bind_eq_bind, Option.bind_some, hfirst, Option.bind_eq_bind, Option.bind_some,
        hstrtok]
      dsimp only
      rw [hrun, hloop, Option.bind_eq_bind, Option.bind_some]
      exact copyParts_spec hparts []

theorem receiveMessage_data {stream : Bytes} {m : Message}
    (h : Wire.receiveMessage stream = some m) : 0 ∉ m.data ∧ m.data.length < maxMessageSize := by
  unfold Wire.receiveMessage at h
  obtain ⟨p, -, h⟩ := Option.bind_eq_some_iff.mp h
  unfold Wire.parseLine at h
  by_cases hlen : p.1.length < 2
  · rw [if_pos hlen] at h
    cases h
  rw [if_neg hlen] at h
  by_cases hbar : bar ∈ cstr p.1
  · rw [if_pos hbar] at h
    dsimp only at h
    split at h
    · cases h
    · obtain rfl := Option.some.inj h
      refine ⟨fun h0 => nul_not_mem_cstr p.1 ?_, ?_⟩
      · exact (List.dropWhile_sublist _).mem ((List.drop_sublist 1 _).mem (List.mem_of_mem_take h0))
      · exact Nat.lt_of_le_of_lt (List.length_take_le _ _) (by decide)
  · rw [if_neg hbar] at h
    cases h

/-- **The request, in place.**  Whatever bytes the peer sends and whatever the line buffer held
before, `receive_message` and `parse_client_dialog_message` read and store inside of their buffers
only, read nothing that they have not written, and leave in `message_t` and in `client_message_t`
what the functions on strings return. -/
theorem request_in_place (garbage : Fin (maxMessageSize + 64) → Option UInt8) (strdupOk : Bool)
    (stream : Bytes) :
    readRequest garbage strdupOk stream =
      some ((Wire.receiveMessage stream).map fun m =>
        (ofMessage m, (Wire.parseClientDialogMessage strdupOk m.data).map ofClientMessage)) := by
  unfold readRequest
  rw [receiveMessage_spec, Option.bind_eq_bind, Option.bind_some]
  cases hm : Wire.receiveMessage stream with
  | none => rfl
  | some m =>
    obtain ⟨h0, hlen⟩ := receiveMessage_data hm
    show (parseClientDialogMessage strdupOk (field maxMessageSize m.data)).bind _ = _
    rw [field_eq hlen, parse_spec strdupOk h0]
    rfl

end InPlace
