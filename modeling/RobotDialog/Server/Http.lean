import RobotDialog.Lib.Resources
import RobotDialog.Server.Answer
import RobotDialog.Server.Gemini

/-!
# The call of the AI over HTTP

`my_curl_write_callback`, `call_gemini_api` and `generate_ai_response`, with the block of the heap
that collects the body, and with everything they acquire and release.  What curl, `realloc` and the
JSON parser do is a parameter.

* `myCurlWriteCallback`       one chunk of the body goes into the block;
* `CurlResponse.Holds`        the block holds these bytes and a NUL, and no more;
* `curlEasyPerform_spec`      whatever the chunks are, the block holds them one behind the other;
* `generateAiResponse`        the whole function;
* `generateAiResponse_safe`   it does what `callGeminiApi` does with the body as a JSON value, and
                              releases everything once.
-/

namespace Http
open CString Wire JsonC Resources Lts Server

/-! ## the body -/

/-- a block of the heap -/
abbrev Block := Σ size, Buffer size

/-- `curl_response_t` -/
structure CurlResponse where
  memory : Option Block
  size : Nat

/-- `curl_response_t api_response = {0}` -/
def CurlResponse.zero : CurlResponse := ⟨none, 0⟩

/-- what `call_gemini_api` acquires -/
inductive Resource where
  | curl                                      -- curl_easy_init
  | headers                                   -- curl_slist_append
  | memory                                    -- realloc
  | root                                      -- json_tokener_parse
  deriving DecidableEq, Repr

/-- the bytes of a block, none for the null pointer -/
def contents (memory : Option Block) : Bytes := memory.elim [] fun b => b.2.bytes

/-- `realloc(memory, n)`: the new block has the bytes of the old one, and `fill` behind them -/
def realloc (memory : Option Block) (n : Nat) (fill : Nat → UInt8) : Buffer n where
  bytes := (List.range n).map fun i => ((contents memory)[i]?).getD (fill i)
  length_eq := by rw [List.length_map, List.length_range]

/-- a call of the callback; `realloc` fails if it finds no block -/
structure Chunk where
  contents : Bytes
  found : Option (Nat → UInt8)

/-- what `my_curl_write_callback` returns, the response behind it, and what it did to the block -/
structure Written where
  value : Nat
  response : CurlResponse
  events : List (Event Resource)

/-- `my_curl_write_callback`; `none` is a store outside of the block -/
def myCurlWriteCallback (chunk : Chunk) (response : CurlResponse) : Option Written :=
  match chunk.found with
  | none => some ⟨0, response, []⟩
  | some fill =>
    let realsize := chunk.contents.length
    let ptr := realloc response.memory (response.size + realsize + 1) fill
    (ptr.storeAll response.size chunk.contents).bind fun copied =>
      (copied.store (response.size + realsize) 0).map fun ended =>
        { value := realsize
          response := ⟨some ⟨_, ended⟩, response.size + realsize⟩
          events := [if response.memory.isNone then .acquire .memory else .use .memory] }

/-- `curl_easy_perform` while the body comes in: it stops when the callback takes less than it was
given -/
def curlEasyPerform : List Chunk → CurlResponse → Option (Bool × CurlResponse × List (Event Resource))
  | [], response => some (true, response, [])
  | chunk :: chunks, response =>
    (myCurlWriteCallback chunk response).bind fun w =>
      if w.value = chunk.contents.length then
        (curlEasyPerform chunks w.response).map fun p => (p.1, p.2.1, w.events ++ p.2.2)
      else some (false, w.response, w.events)

/-- the block holds `data` and a NUL, and nothing else -/
structure CurlResponse.Holds (response : CurlResponse) (data : Bytes) : Prop where
  size : response.size = data.length
  memory : (response.memory = none ∧ data = []) ∨
    ∃ block : Block, response.memory = some block ∧ block.2.bytes = data ++ [0]

theorem holds_zero : CurlResponse.zero.Holds [] := ⟨rfl, .inl ⟨rfl, rfl⟩⟩

theorem realloc_kept {memory : Option Block} {n : Nat} {data : Bytes} (fill : Nat → UInt8)
    (hdata : data <+: contents memory) (hn : data.length ≤ n) :
    data <+: (realloc memory n fill).bytes := by
  obtain ⟨rest, hrest⟩ := hdata
  rw [List.prefix_iff_eq_take]
  refine List.ext_getElem ?_ fun i hi hi' => ?_
  · rw [List.length_take, (realloc memory n fill).length_eq, min_eq_left hn]
  · simp only [realloc, List.getElem_take, List.getElem_map, List.getElem_range]
    rw [← hrest, List.getElem?_append_left hi, List.getElem?_eq_getElem hi]
    rfl

theorem CurlResponse.Holds.kept {response : CurlResponse} {data : Bytes}
    (h : response.Holds data) : data <+: Http.contents response.memory := by
  rcases h.memory with ⟨-, rfl⟩ | ⟨block, hblock, hbytes⟩
  · exact List.nil_prefix
  · rw [hblock]
    exact ⟨[0], hbytes.symm⟩

/-- **One chunk.**  Every store is inside of the block; the bytes are appended, or `realloc` fails and
nothing changes. -/
theorem myCurlWriteCallback_spec {response : CurlResponse} {data : Bytes}
    (h : response.Holds data) (chunk : Chunk) :
    ∃ w, myCurlWriteCallback chunk response = some w ∧
      ((chunk.found.isSome = true ∧ w.value = chunk.contents.length ∧
          w.response.Holds (data ++ chunk.contents) ∧ w.response.memory.isSome = true ∧
          w.events = [if response.memory.isNone then .acquire .memory else .use .memory]) ∨
        (chunk.found.isSome = false ∧ w = ⟨0, response, []⟩)) := by
  unfold myCurlWriteCallback
  cases hfound : chunk.found with
  | none => exact ⟨_, rfl, .inr ⟨rfl, rfl⟩⟩
  | some fill =>
    have hkept : data <+: (realloc response.memory
        (response.size + chunk.contents.length + 1) fill).bytes :=
      realloc_kept fill h.kept (by rw [h.size]; omega)
    obtain ⟨copied, hcopied, hboth⟩ := Buffer.storeAll_holds hkept chunk.contents (by
      rw [h.size]; omega)
    have hlen : (data ++ chunk.contents).length = response.size + chunk.contents.length := by
      rw [List.length_append, h.size]
    obtain ⟨ended, hended, hnul⟩ := Buffer.store_holds hboth 0 (by omega)
    rw [← h.size] at hcopied
    rw [hlen] at hended
    have hfull : ended.bytes = data ++ chunk.contents ++ [0] := by
      refine (hnul.eq_of_length ?_).symm
      rw [ended.length_eq, List.length_append, hlen, List.length_singleton]
    refine ⟨_, by simp only [hcopied, Option.bind_some, hended, Option.map_some]; rfl,
      .inl ⟨rfl, rfl, ⟨hlen.symm, .inr ⟨_, rfl, hfull⟩⟩, rfl, rfl⟩⟩

/-! ## the whole body -/

/-- the chunks one behind the other -/
def bytesOf (chunks : List Chunk) : Bytes := chunks.flatMap Chunk.contents

/-- `realloc` fails for no chunk that has bytes -/
def Kept (chunks : List Chunk) : Prop :=
  ∀ chunk ∈ chunks, chunk.found.isSome = true ∨ chunk.contents = []

instance (chunks : List Chunk) : Decidable (Kept chunks) := List.decidableBAll _ _

/-- the set with or without the block -/
def withMemory (held : Finset Resource) (response : CurlResponse) : Finset Resource :=
  if response.memory.isSome then insert .memory held else held

/-- **The whole body.**  Whatever the chunks are and whatever `realloc` does: every store is inside of
the block, the block is acquired once, and the transfer comes to its end exactly if `realloc` fails
for no chunk that has bytes; the block holds the body then. -/
theorem curlEasyPerform_spec {held : Finset Resource} (hheld : .memory ∉ held) (chunks : List Chunk)
    {response : CurlResponse} {data : Bytes} (h : response.Holds data) :
    ∃ ok response' events, curlEasyPerform chunks response = some (ok, response', events) ∧
      exec Resources.step (withMemory held response) events = some (withMemory held response') ∧
      (ok = true ↔ Kept chunks) ∧
      (ok = true → response'.Holds (data ++ bytesOf chunks) ∧
        response'.memory.isSome =
          (response.memory.isSome || chunks.any fun chunk => chunk.found.isSome)) := by
  induction chunks generalizing response data with
  | nil =>
    refine ⟨true, response, [], rfl, rfl, iff_of_true rfl (by simp [Kept]), fun _ => ⟨?_, ?_⟩⟩
    · rwa [bytesOf, List.flatMap_nil, List.append_nil]
    · rw [List.any_nil, Bool.or_false]
  | cons chunk chunks ih =>
    have hbytes : data ++ bytesOf (chunk :: chunks) = data ++ chunk.contents ++ bytesOf chunks := by
      rw [bytesOf, List.flatMap_cons, List.append_assoc]
      rfl
    have hkept : Kept (chunk :: chunks) ↔
        (chunk.found.isSome = true ∨ chunk.contents = []) ∧ Kept chunks := List.forall_mem_cons
    obtain ⟨w, hw, ⟨hfound, hvalue, hholds, hsome, hevents⟩ | ⟨hfound, rfl⟩⟩ :=
      myCurlWriteCallback_spec h chunk
    · obtain ⟨ok, response', events, hrun, hexec, hok, hend⟩ := ih hholds
      refine ⟨ok, response', w.events ++ events, ?_, ?_, ?_, fun hyes => ?_⟩
      · unfold curlEasyPerform
        rw [hw, Option.bind_some, if_pos hvalue, hrun]
        rfl
      · have hfirst : exec Resources.step (withMemory held response) w.events =
            some (withMemory held w.response) := by
          rw [hevents]
          unfold withMemory
          rw [if_pos hsome]
          cases hm : response.memory with
          | none => simp [exec, Resources.step, hheld]
          | some block => simp [exec, Resources.step]
        rw [exec_append, hfirst, Option.bind_some, hexec]
      · rw [hok, hkept, and_iff_right (.inl hfound)]
      · obtain ⟨h1, h2⟩ := hend hyes
        refine ⟨hbytes ▸ h1, ?_⟩
        rw [h2, hsome, List.any_cons, hfound, Bool.true_or, Bool.or_true]
    · by_cases hempty : chunk.contents = []
      · -- no room was found for an empty chunk: curl sees no difference
        obtain ⟨ok, response', events, hrun, hexec, hok, hend⟩ := ih h
        refine ⟨ok, response', events, ?_, hexec, ?_, fun hyes => ?_⟩
        · unfold curlEasyPerform
          rw [hw, Option.bind_some, if_pos (by rw [hempty]; rfl), hrun]
          rfl
        · rw [hok, hkept, and_iff_right (.inr hempty)]
        · obtain ⟨h1, h2⟩ := hend hyes
          refine ⟨?_, ?_⟩
          · rwa [hbytes, hempty, List.append_nil]
          · rw [h2, List.any_cons, hfound, Bool.false_or]
      · have hlen : ¬ 0 = chunk.contents.length := fun e =>
          hempty (List.length_eq_zero_iff.mp e.symm)
        refine ⟨false, response, [], ?_, rfl, ?_, fun hno => by cases hno⟩
        · unfold curlEasyPerform
          rw [hw, Option.bind_some, if_neg hlen]
        · refine iff_of_false Bool.false_ne_true fun hk => ?_
          rcases (hkept.mp hk).1 with hyes | hyes
          · rw [hfound] at hyes
            cases hyes
          · exact hempty hyes

/-! ## the call -/

def geminiApiUrl : Bytes :=
  ascii "https://generativelanguage.googleapis.com/v1beta/models/gemini-1.5-flash:generateContent"

/-- the buffer `url` -/
def url (apiKey : Bytes) : Bytes := cut 512 (geminiApiUrl ++ ascii "?key=" ++ cstr apiKey)

/-- what curl is asked to post -/
structure Request where
  url : Bytes
  postFields : Bytes

/-- what `curl_easy_perform` meets -/
structure Transfer where
  chunks : List Chunk
  failed : Bool                               -- the connection failed, or the time limit ended it
  httpCode : Int

/-- what the function calls -/
structure Env where
  handle : Bool                               -- curl_easy_init
  headers : Bool                              -- curl_slist_append
  transfer : Request → Transfer               -- curl_easy_perform
  tokenerParse : Bytes → Value                -- json_tokener_parse, null is the null pointer
  toJsonString : Value → Bytes                -- json_object_to_json_string

/-- what the function returns, and what it did to its resources -/
structure Outcome where
  events : List (Event Resource)
  result : Int
  response : AiResponse

inductive Fault where
  | outside                                   -- a store outside of the block
  | crash (c : Crash)

/-- the text for a status other than 200 -/
def errorText (httpCode : Int) (errorMsg : Bytes) : Bytes :=
  if httpCode = 403 then ascii "API quota exceeded. Please check your billing settings."
  else if httpCode = 429 then ascii "API rate limit exceeded. Please try again later."
  else if httpCode = 401 then ascii "Invalid API key. Please check your configuration."
  else ascii "API Error: " ++ errorMsg

section
variable (env : Env)

/-- the response to a status other than 200 -/
def errorResponse (httpCode : Int) (errorRoot : Value) : AiResponse :=
  match (objectGetEx errorRoot (ascii "error")).bind fun e => objectGetEx e (ascii "message") with
  | none => .cleared
  | some messageObj =>
    let errorMsg := (getString env.toJsonString messageObj).elim (ascii "(null)") cstr
    { response := cut maxAiResponseSize (errorText httpCode errorMsg), success := 0 }

/-- `json_tokener_parse(api_response.memory)`, if there is a block -/
def parseMemory (response : CurlResponse) : Value :=
  response.memory.elim .null fun block => env.tokenerParse (cstr block.2.bytes)

/-- the reads of the block that takes the first element of the member `key`, `next` those of its
inner block -/
def firstReads (v : Value) (key : Bytes) (next : Value → Nat) : Nat :=
  match objectGetEx v key with
  | none => 1
  | some items =>
    match arrayGetIdx items 0 with
    | none => 2
    | some first => if first.isNull then 2 else 2 + next first

/-- the reads of the block of `first_part`; `safe_strncpy` reads the string that belongs to it -/
def textReads (firstPart : Value) : Nat :=
  match objectGetEx firstPart (ascii "text") with
  | none => 1
  | some _ => 3

/-- the reads of the block of `first_candidate` -/
def contentReads (firstCandidate : Value) : Nat :=
  match objectGetEx firstCandidate (ascii "content") with
  | none => 1
  | some content => 1 + firstReads content (ascii "parts") textReads

/-- the reads of an answer with the status 200; without candidates it is searched for an error -/
def answerReads (respRoot : Value) : Nat :=
  if (objectGetEx respRoot (ascii "candidates")).isNone then 2
  else firstReads respRoot (ascii "candidates") contentReads

/-- the reads of an answer with any other status; three texts do not contain `error_msg` -/
def errorReads (httpCode : Int) (errorRoot : Value) : Nat :=
  match objectGetEx errorRoot (ascii "error") with
  | none => 1
  | some errorObj =>
    match objectGetEx errorObj (ascii "message") with
    | none => 2
    | some _ => if httpCode = 403 ∨ httpCode = 429 ∨ httpCode = 401 then 3 else 4

/-- the reads of the document that has been parsed -/
def rootReads (httpCode : Int) (root : Value) : Nat :=
  if httpCode = 200 then answerReads root else errorReads httpCode root

/-- the events of the parse, of the reads of the document and of `json_object_put` -/
def parseEvents (httpCode : Int) (response : CurlResponse) : List (Event Resource) :=
  if response.memory.isSome then
    .use .memory ::
      if (parseMemory env response).isNull then []
      else .acquire .root ::
        (List.replicate (rootReads httpCode (parseMemory env response)) (.use .root) ++
          [.release .root])
  else []

/-- the acquisitions before the transfer, and the six calls of `curl_easy_setopt` -/
def setupEvents : List (Event Resource) :=
  (.acquire .curl :: if env.headers then [.acquire .headers] else []) ++
    List.replicate 6 (.use .curl)

/-- what `curl_easy_perform` works with -/
def performUses : List (Event Resource) :=
  .use .curl :: if env.headers then [.use .headers] else []

/-- the transfer around the calls of the callback, and `curl_easy_getinfo` -/
def transferEvents (events : List (Event Resource)) : List (Event Resource) :=
  performUses env ++ events ++ performUses env ++ [.use .curl]

/-- the releases behind the transfer -/
def releaseEvents (response : CurlResponse) : List (Event Resource) :=
  (if env.headers then [.release .headers] else []) ++ [.release .curl] ++
    if response.memory.isSome then [.release .memory] else []

/-- `generate_ai_response`, which clears the response and calls `call_gemini_api` -/
def generateAiResponse (apiKey personality language conversation : Bytes) :
    Except Fault Outcome :=
  if env.handle then
    match generateGeminiRequestJson personality language conversation (maxMessageSize * 4) with
    | none => .ok ⟨[.acquire .curl, .release .curl], -1, .cleared⟩
    | some json =>
      let found := env.transfer ⟨url apiKey, cstr json⟩
      match curlEasyPerform found.chunks .zero with
      | none => .error .outside
      | some (taken, response, events) =>
        let before := setupEvents env ++ transferEvents env events
        if found.failed || !taken then
          .ok ⟨before ++ releaseEvents env response, -1, .cleared⟩
        else
          let root := parseMemory env response
          let events :=
            before ++ parseEvents env found.httpCode response ++ releaseEvents env response
          if found.httpCode ≠ 200 then .ok ⟨events, -1, errorResponse env found.httpCode root⟩
          else
            match callGeminiApi env.toJsonString root with
            | .error c => .error (.crash c)
            | .ok (result, response) => .ok ⟨events, result, response⟩
  else .ok ⟨[], -1, .cleared⟩

/-! ## what it comes to -/

/-- the body of an answer that came in whole, with the status 200 -/
def Transfer.body (found : Transfer) : Option Bytes :=
  if found.failed = false ∧ Kept found.chunks ∧ found.httpCode = 200 ∧
      (found.chunks.any fun chunk => chunk.found.isSome) = true then
    some (bytesOf found.chunks)
  else none

/-- the answer of the AI, null if there is none -/
def answer (apiKey personality language conversation : Bytes) : Value :=
  if env.handle then
    match generateGeminiRequestJson personality language conversation (maxMessageSize * 4) with
    | none => .null
    | some json =>
      (env.transfer ⟨url apiKey, cstr json⟩).body.elim .null fun body =>
        env.tokenerParse (cstr body)
  else .null

variable {env}

theorem cstr_append_nul (s : Bytes) : cstr (s ++ [0]) = cstr s := by
  unfold cstr
  rw [List.takeWhile_append]
  split
  · rename_i hall
    rw [show [(0 : UInt8)].takeWhile (· != 0) = [] from rfl, List.append_nil]
    exact ((List.takeWhile_prefix _).eq_of_length hall).symm
  · rfl

theorem parseMemory_holds {response : CurlResponse} {data : Bytes} (h : response.Holds data) :
    parseMemory env response =
      if response.memory.isSome then env.tokenerParse (cstr data) else .null := by
  unfold parseMemory
  rcases h.memory with ⟨hnone, -⟩ | ⟨block, hblock, hbytes⟩
  · rw [hnone]
    rfl
  · rw [hblock, Option.elim_some, hbytes, cstr_append_nul]
    rfl

theorem exec_parse {held : Finset Resource} (httpCode : Int) (response : CurlResponse)
    (hmemory : response.memory.isSome = true → .memory ∈ held) (hroot : .root ∉ held) :
    exec Resources.step held (parseEvents env httpCode response) = some held := by
  unfold parseEvents
  split
  · rename_i hsome
    have huse : Resources.step (.use .memory) held = some held := if_pos (hmemory hsome)
    rw [exec_cons, huse, Option.bind_some]
    split
    · rfl
    · have hacquire : Resources.step (.acquire .root) held = some (insert .root held) :=
        if_neg hroot
      have hreads : exec Resources.step (insert .root held)
          (List.replicate (rootReads httpCode (parseMemory env response)) (.use .root)) =
            some (insert .root held) :=
        exec_uses fun e he =>
          ⟨.root, Finset.mem_insert_self _ _, (List.mem_replicate.mp he).2⟩
      have hrelease : Resources.step (.release .root) (insert .root held) = some held :=
        (if_pos (Finset.mem_insert_self _ _)).trans (congrArg some (Finset.erase_insert hroot))
      rw [exec_cons, hacquire, Option.bind_some, exec_append, hreads, Option.bind_some, exec_cons,
        hrelease]
      rfl
  · rfl

theorem exec_transfer {held held' : Finset Resource} {events : List (Event Resource)}
    (hcurl : .curl ∈ held) (hheaders : env.headers = true → .headers ∈ held) (hsub : held ⊆ held')
    (hexec : exec Resources.step held events = some held') :
    exec Resources.step held (transferEvents env events) = some held' := by
  have huses : ∀ {now : Finset Resource}, held ⊆ now →
      exec Resources.step now (performUses env) = some now := by
    intro now hnow
    refine exec_uses fun e he => ?_
    rcases List.mem_cons.mp he with rfl | he
    · exact ⟨.curl, hnow hcurl, rfl⟩
    · split at he
      · rename_i h
        exact ⟨.headers, hnow (hheaders h), List.mem_singleton.mp he⟩
      · cases he
  have hinfo : exec Resources.step held' [.use .curl] = some held' :=
    exec_uses fun e he => ⟨.curl, hsub hcurl, List.mem_singleton.mp he⟩
  unfold transferEvents
  rw [exec_append, exec_append, exec_append, huses (Finset.Subset.refl _), Option.bind_some, hexec,
    Option.bind_some, huses hsub, Option.bind_some, hinfo]

theorem clean_events {response : CurlResponse} {events : List (Event Resource)} {held}
    (hheld : held = (if env.headers then {.curl, .headers} else {.curl}))
    (hexec : exec Resources.step held events = some (withMemory held response)) (httpCode : Int) :
    Clean (setupEvents env ++ transferEvents env events ++ releaseEvents env response) ∧
      Clean (setupEvents env ++ transferEvents env events ++ parseEvents env httpCode response ++
        releaseEvents env response) := by
  have hsub : held ⊆ withMemory held response := by
    unfold withMemory
    split
    · exact Finset.subset_insert _ _
    · exact Finset.Subset.refl _
  have hsetup : exec Resources.step ∅ (setupEvents env) = some held := by
    unfold setupEvents
    rw [hheld]
    cases env.headers <;> decide
  have htransfer : exec Resources.step held (transferEvents env events) =
      some (withMemory held response) := by
    refine exec_transfer ?_ (fun h => ?_) hsub hexec
    · rw [hheld]
      cases env.headers <;> decide
    · rw [hheld, h]
      decide
  have hparse : exec Resources.step (withMemory held response) (parseEvents env httpCode response) =
      some (withMemory held response) := by
    refine exec_parse httpCode response (fun h => ?_) ?_
    · unfold withMemory
      rw [if_pos h]
      exact Finset.mem_insert_self _ _
    · unfold withMemory
      rw [hheld]
      cases response.memory.isSome <;> cases env.headers <;> decide
  have hrelease : exec Resources.step (withMemory held response) (releaseEvents env response) =
      some ∅ := by
    unfold releaseEvents withMemory
    rw [hheld]
    cases response.memory.isSome <;> cases env.headers <;> decide
  constructor
  · unfold Clean
    rw [exec_append, exec_append, hsetup, Option.bind_some, htransfer, Option.bind_some, hrelease]
  · unfold Clean
    rw [exec_append, exec_append, exec_append, hsetup, Option.bind_some, htransfer,
      Option.bind_some, hparse, Option.bind_some, hrelease]

theorem errorResponse_success (httpCode : Int) (errorRoot : Value) :
    (errorResponse env httpCode errorRoot).success = 0 := by
  unfold errorResponse
  split <;> rfl

/-- what comes out is what `callGeminiApi` makes of the answer, and everything is released -/
def Refines (env : Env) (answer : Value) (returned : Except Fault Outcome) : Prop :=
  (∀ c, callGeminiApi env.toJsonString answer = .error c → returned = .error (.crash c)) ∧
  ∀ result response, callGeminiApi env.toJsonString answer = .ok (result, response) →
    ∃ out, returned = .ok out ∧ out.result = result ∧ out.response.success = response.success ∧
      (result = 0 → out.response = response) ∧ Clean out.events

theorem refines_null {out : Outcome} (hresult : out.result = -1) (hsuccess : out.response.success = 0)
    (hclean : Clean out.events) : Refines env .null (.ok out) := by
  have hnull : callGeminiApi env.toJsonString .null = .ok (-1, .cleared) := rfl
  refine ⟨fun c e => ?_, fun result response e => ?_⟩
  · rw [hnull] at e
    cases e
  · rw [hnull] at e
    cases e
    exact ⟨out, rfl, hresult, hsuccess, fun e => absurd e (by decide), hclean⟩

theorem Transfer.body_failed {found : Transfer} {taken : Bool}
    (htaken : taken = true ↔ Kept found.chunks) (h : (found.failed || !taken) = true) :
    found.body = none := by
  unfold Transfer.body
  refine if_neg fun hall => ?_
  rw [hall.1, htaken.mpr hall.2.1] at h
  cases h

theorem Transfer.body_status {found : Transfer} (h : found.httpCode ≠ 200) : found.body = none := by
  unfold Transfer.body
  exact if_neg fun hall => h hall.2.2.1

/-- The parser is given the body of a whole answer, or nothing if nothing has come. -/
theorem parseMemory_body {found : Transfer} {response : CurlResponse}
    (hholds : response.Holds (bytesOf found.chunks))
    (hsome : response.memory.isSome = found.chunks.any fun chunk => chunk.found.isSome)
    (hfailed : found.failed = false) (hkept : Kept found.chunks) (hcode : found.httpCode = 200) :
    parseMemory env response = found.body.elim .null fun body => env.tokenerParse (cstr body) := by
  rw [parseMemory_holds hholds, hsome]
  unfold Transfer.body
  by_cases h : (found.chunks.any fun chunk => chunk.found.isSome) = true
  · rw [if_pos h, if_pos ⟨hfailed, hkept, hcode, h⟩]
    rfl
  · rw [if_neg h, if_neg fun hall => h hall.2.2.2]
    rfl

theorem transfer_refines {json : Bytes} (hhandle : env.handle = true)
    {apiKey personality language conversation : Bytes}
    (hjson : generateGeminiRequestJson personality language conversation (maxMessageSize * 4) =
      some json) :
    Refines env (answer env apiKey personality language conversation)
      (generateAiResponse env apiKey personality language conversation) := by
  have hheld : Resource.memory ∉
      (if env.headers then {.curl, .headers} else {.curl} : Finset Resource) := by
    cases env.headers <;> decide
  unfold answer generateAiResponse
  rw [if_pos hhandle, if_pos hhandle]
  simp only [hjson]
  generalize hfound : env.transfer ⟨url apiKey, cstr json⟩ = found
  obtain ⟨taken, response, events, hperform, hexec, htaken, hend⟩ :=
    curlEasyPerform_spec hheld found.chunks holds_zero
  obtain ⟨hclean, hclean'⟩ := clean_events rfl hexec found.httpCode
  simp only [hperform]
  by_cases hfail : (found.failed || !taken) = true
  · rw [if_pos hfail, Transfer.body_failed htaken hfail]
    exact refines_null rfl rfl hclean
  rw [if_neg hfail]
  rw [Bool.or_eq_true, not_or, Bool.not_eq_true, Bool.not_eq_true, Bool.not_eq_false'] at hfail
  obtain ⟨hholds, hsome⟩ := hend hfail.2
  rw [List.nil_append] at hholds
  by_cases hcode : found.httpCode = 200
  · have hany : response.memory.isSome = found.chunks.any fun chunk => chunk.found.isSome := by
      rw [hsome]
      rfl
    have hroot := @parseMemory_body env found response hholds hany hfail.1 (htaken.mp hfail.2) hcode
    rw [if_neg (not_not.mpr hcode), ← hroot]
    cases hcall : callGeminiApi env.toJsonString (parseMemory env response) with
    | error c =>
      refine ⟨fun c' e => ?_, fun result r e => ?_⟩
      · rw [hcall] at e
        cases e
        rfl
      · rw [hcall] at e
        cases e
    | ok p =>
      obtain ⟨result, r⟩ := p
      refine ⟨fun c' e => ?_, fun result' r' e => ?_⟩
      · rw [hcall] at e
        cases e
      · rw [hcall] at e
        cases e
        exact ⟨_, rfl, rfl, rfl, fun _ => rfl, hclean'⟩
  · rw [if_pos hcode, Transfer.body_status hcode]
    exact refines_null rfl (errorResponse_success _ _) hclean'

theorem generate_refines (env : Env) (apiKey personality language conversation : Bytes) :
    Refines env (answer env apiKey personality language conversation)
      (generateAiResponse env apiKey personality language conversation) := by
  by_cases hhandle : env.handle = true
  · cases hjson : generateGeminiRequestJson personality language conversation
        (maxMessageSize * 4) with
    | none =>
      unfold answer generateAiResponse
      rw [if_pos hhandle, if_pos hhandle, hjson]
      exact refines_null rfl rfl (by decide)
    | some json => exact transfer_refines hhandle hjson
  · unfold answer generateAiResponse
    rw [if_neg hhandle, if_neg hhandle]
    exact refines_null rfl rfl (by decide)

/-- **The call over HTTP refines the function on JSON values.**  However the body is cut into chunks,
whatever `realloc`, the network and the parser do: no byte is stored outside of the block, and the
function crashes only where `callGeminiApi` does on the body of a whole answer with status 200.
Otherwise it returns what `callGeminiApi` returns for this body, or for none; and everything that it
acquires it releases, once and behind the last use. -/
theorem generateAiResponse_safe (env : Env) (apiKey personality language conversation : Bytes) :
    (∀ fault, generateAiResponse env apiKey personality language conversation = .error fault →
      ∃ c, fault = .crash c ∧ callGeminiApi env.toJsonString
        (answer env apiKey personality language conversation) = .error c) ∧
    ∀ out, generateAiResponse env apiKey personality language conversation = .ok out →
      Clean out.events ∧
      (∀ r, out.events.count (.acquire r) = out.events.count (.release r)) ∧
      ∃ response, callGeminiApi env.toJsonString
          (answer env apiKey personality language conversation) = .ok (out.result, response) ∧
        out.response.success = response.success ∧ (out.result = 0 → out.response = response) := by
  obtain ⟨hcrash, hreturn⟩ := generate_refines env apiKey personality language conversation
  cases hcall : callGeminiApi env.toJsonString
      (answer env apiKey personality language conversation) with
  | error c =>
    rw [hcrash c hcall]
    refine ⟨fun fault e => ?_, fun out e => (by cases e)⟩
    cases e
    exact ⟨c, rfl, rfl⟩
  | ok p =>
    obtain ⟨result, response⟩ := p
    obtain ⟨out, hout, hresult, hsuccess, hresponse, hclean⟩ := hreturn result response hcall
    rw [hout]
    refine ⟨fun fault e => (by cases e), fun out' e => ?_⟩
    cases e
    exact ⟨hclean, hclean.released, response, by rw [hresult], hsuccess,
      fun h => hresponse (hresult ▸ h)⟩

theorem error_iff (env : Env) (apiKey personality language conversation : Bytes) (fault : Fault) :
    generateAiResponse env apiKey personality language conversation = .error fault ↔
      ∃ c, fault = .crash c ∧ callGeminiApi env.toJsonString
        (answer env apiKey personality language conversation) = .error c := by
  obtain ⟨hcrash, hreturn⟩ := generate_refines env apiKey personality language conversation
  constructor
  · intro h
    cases hcall : callGeminiApi env.toJsonString
        (answer env apiKey personality language conversation) with
    | error c =>
      rw [hcrash c hcall] at h
      cases h
      exact ⟨c, rfl, rfl⟩
    | ok p =>
      obtain ⟨out, hout, -⟩ := hreturn p.1 p.2 hcall
      rw [hout] at h
      cases h
  · rintro ⟨c, rfl, hcall⟩
    exact hcrash c hcall

theorem response_fits {env : Env} {apiKey personality language conversation : Bytes} {out : Outcome}
    (h : generateAiResponse env apiKey personality language conversation = .ok out)
    (hresult : out.result = 0) :
    0 ∉ out.response.response ∧ out.response.response.length ≤ maxAiResponseSize - 1 := by
  obtain ⟨hcrash, hreturn⟩ := generate_refines env apiKey personality language conversation
  cases hcall : callGeminiApi env.toJsonString
      (answer env apiKey personality language conversation) with
  | error c =>
    rw [hcrash c hcall] at h
    cases h
  | ok p =>
    obtain ⟨result, response⟩ := p
    obtain ⟨out', hout, hresult', -, hresponse, -⟩ := hreturn result response hcall
    rw [h] at hout
    cases hout
    obtain rfl : result = 0 := hresult'.symm.trans hresult
    obtain ⟨t, ht⟩ := answer_text hcall
    rw [hresponse rfl, ← ht]
    exact ⟨t.noNul, t.fits⟩

end

/-! ## the handler's view -/

/-- `generate_ai_response` as the handler sees it; a crash ends the process -/
def aiResponse (env : Env) (apiKey : Bytes) (request : ClientMessage) : Option Bytes :=
  match generateAiResponse env apiKey request.personality request.language
      request.conversation with
  | .ok out => if out.result = 0 ∧ out.response.success ≠ 0 then some out.response.response else none
  | .error _ => none

end Http
