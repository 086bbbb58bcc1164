import RobotDialog.Wire.Dialog

/-!
# The request handler

`process_single_request_and_close` of `network.c`: what it does with the descriptor, in order, for
any results of the functions that it calls.

* `Action`                         a reply or a close;
* `Calls`                          the results of the calls;
* `processSingleRequestAndClose`   the actions;
* `handler_closes_last`            on every path one close, and it comes last.
-/

namespace Server
open CString Wire

/-- what the handler does with `client_fd` -/
inductive Action where
  | send (type : Nat) (data : Bytes)
  | close
  deriving DecidableEq, Repr

/-- the results of the functions that the handler calls; the payload is parsed twice when the AI
fails -/
structure Calls where
  received : Option Message                              -- receive_message
  parse : Bytes → Option ClientMessage                   -- parse_client_dialog_message
  generateAiResponse : ClientMessage → Option Bytes      -- none: -1, or success == 0
  parseAgain : Bytes → Option ClientMessage              -- the parse in the test case
  testResponse : Bytes → Bytes                           -- test_response

/-- `case MSG_TEST_DIALOG_REQUEST` -/
def testCase (calls : Calls) (msg : Message) : List Action :=
  match calls.parseAgain msg.data with
  | none => [.send msgError (ascii "Invalid request format"), .close]
  | some request => [.send msgTestDialogResponse (calls.testResponse request.language), .close]

/-- `case MSG_AI_DIALOG_REQUEST` -/
def aiCase (calls : Calls) (msg : Message) : List Action :=
  match calls.parse msg.data with
  | none => [.send msgError (ascii "Invalid request format"), .close]
  | some request =>
    if request.personality = [] ∨ request.language = [] ∨ request.conversation = [] then
      [.send msgError (ascii "Missing required fields"), .close]
    else
      match calls.generateAiResponse request with
      | some response =>
        [.send msgAiDialogResponse (cut maxAiResponseSize (cstr response)), .close]
      | none => testCase calls msg                       -- falls through

def processSingleRequestAndClose (calls : Calls) : List Action :=
  match calls.received with
  | none => [.close]
  | some msg =>
    if msg.type = msgAiDialogRequest then aiCase calls msg
    else if msg.type = msgTestDialogRequest then testCase calls msg
    else [.send msgError (ascii "Unknown message type"), .close]

/-- replies, then one close -/
def ClosesLast (acts : List Action) : Prop := ∃ l, acts = l ++ [.close] ∧ .close ∉ l

theorem testCase_closes_last (calls : Calls) (msg : Message) : ClosesLast (testCase calls msg) := by
  unfold testCase
  split <;> exact ⟨[.send _ _], rfl, by simp⟩

theorem aiCase_closes_last (calls : Calls) (msg : Message) : ClosesLast (aiCase calls msg) := by
  unfold aiCase
  split
  · exact ⟨[.send _ _], rfl, by simp⟩
  · split
    · exact ⟨[.send _ _], rfl, by simp⟩
    · split
      · exact ⟨[.send _ _], rfl, by simp⟩
      · exact testCase_closes_last calls msg

/-- **On every path the handler closes the descriptor once, as its last action.** -/
theorem handler_closes_last (calls : Calls) : ClosesLast (processSingleRequestAndClose calls) := by
  unfold processSingleRequestAndClose
  split
  · exact ⟨[], rfl, by simp⟩
  · split
    · exact aiCase_closes_last calls _
    · split
      · exact testCase_closes_last calls _
      · exact ⟨[.send _ _], rfl, by simp⟩

end Server
