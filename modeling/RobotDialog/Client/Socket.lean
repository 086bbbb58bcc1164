import Mathlib.Logic.Function.Basic
import RobotDialog.Lib.Runs
import RobotDialog.Wire.Reply
import RobotDialog.Wire.Request

/-!
# The robot client: turns, connections and listeners

`SocketClient.kt` and the `Conversation` state.  Each turn of the dialogue launches a sender
coroutine that connects, starts a listener for the connection and sends the request; the flow thread
waits for a reply on the channel of the conversation.  All of them share the fields of one
`SocketClient`.

* `SenderPc`, `ListenerPc`, `FlowPc`   the program points;
* `State`                              the fields of the `SocketClient`, the connections, the channel
                                       and the history of what was closed and spoken;
* `step`                               one statement of one coroutine, or a reply of the server.

Connections have the number of their `Socket(host, port)`, turns the number of their `onResponse`.
`PrintWriter.close`, `BufferedReader.close` and `Socket.close` all close the connection and do not
throw; a closed `PrintWriter` prints nothing and does not throw.
-/

namespace Client
open CString Wire

/-- what `disconnect` closes -/
inductive Part where
  | writer
  | reader
  | socket
  deriving DecidableEq, Repr

/-- a statement at the end of a listener -/
inductive Op where
  | setDisconnected                           -- _isConnected = false
  | close (part : Part)                       -- writer?.close(), reader?.close(), socket?.close()
  deriving DecidableEq, Repr

def disconnect : List Op := [.setDisconnected, .close .writer, .close .reader, .close .socket]

/-- a listener behind `handleServerMessage`, or in its `catch`, with the `finally` block -/
def finish : List Op := .setDisconnected :: (disconnect ++ disconnect)

/-- a listener that has received an error, from `onDisconnected()` on -/
def finishError : List Op := .setDisconnected :: (disconnect ++ finish)

/-- the program points of a sender, on its connection `c` once it has one -/
inductive SenderPc where
  | notStarted
  | openSocket                                -- socket = Socket(host, port)
  | openWriter (c : Nat)                      -- writer = PrintWriter(socket!!..)
  | openReader (c : Nat)                      -- reader = BufferedReader(..socket!!..)
  | setConnected (c : Nat)                    -- _isConnected = true
  | startListening (c : Nat)                  -- launch the listener
  | testConnected                             -- if (!_isConnected) return false
  | setPayload                                -- message.payload = payload
  | print                                     -- writer?.println(message.toString())
  | done
  deriving DecidableEq, Repr

/-- the program points of a listener -/
inductive ListenerPc where
  | notStarted
  | test                                      -- if (_isConnected)
  | readField                                 -- reader?.
  | reading (r : Nat)                         -- readLine() on the reader of connection r
  | handle (r : Nat) (response : Bytes)       -- handleServerMessage(response)
  | deliver (r : Nat) (payload : Bytes)       -- onMessageReceived(payload)
  | run (ops : List Op)                       -- the statements that are left
  deriving DecidableEq, Repr

/-- a line of a request: the turn whose sender printed it, and the turn that set its payload -/
structure Line where
  turn : Nat
  payload : Option Nat
  deriving DecidableEq, Repr

/-- a payload in the channel, and the turn whose request it answers -/
structure Reply where
  turn : Nat
  payload : Bytes
  deriving DecidableEq, Repr

/-- the program points of the flow thread; `first` is the wait of three seconds -/
inductive FlowPc where
  | listening
  | waiting (turn : Nat) (first : Bool)       -- withTimeoutOrNull(..) { channel.receive() }
  | speak (turn : Nat) (text : Option Reply)  -- enrichedResponse(response, gestures)
  deriving DecidableEq, Repr

/-- a connection: what is closed, the first line that the server received, its reply, and whether
the reply has been read -/
structure Conn where
  closed : Part → Bool
  request : Option Line
  reply : Option Bytes
  taken : Bool

/-- **The state of the client.**  `opened` connections and `turns` turns have been begun.  The last
two fields are history: what the listener of a connection closed of which connection, and what was
spoken at which turn. -/
structure State where
  message : RequestType
  payload : Option Nat
  socket : Option Nat
  writer : Option Nat
  reader : Option Nat
  isConnected : Bool
  opened : Nat
  conn : Nat → Conn
  turns : Nat
  sender : Nat → SenderPc
  listener : Nat → ListenerPc
  flow : FlowPc
  channel : List Reply
  closes : List (Nat × Part × Nat)
  spoken : List (Nat × Option Reply)

inductive SenderAct where
  | run
  | fails                                     -- an exception
  deriving DecidableEq, Repr

inductive ListenerAct where
  | run
  | line                                      -- readLine returns the reply
  | eof                                       -- readLine returns null
  | fails                                     -- readLine throws
  deriving DecidableEq, Repr

inductive FlowAct where
  | enter                                     -- onEntry of a new Conversation
  | respond                                   -- onResponse
  | receive                                   -- channel.receive()
  | timeout
  | lost                                      -- the timeout strikes a receive that has a payload
  | say
  deriving DecidableEq, Repr

inductive Label where
  | sender (t : Nat) (a : SenderAct)
  | listener (c : Nat) (a : ListenerAct)
  | server (c : Nat) (reply : Bytes)
  | flow (a : FlowAct)
  deriving DecidableEq, Repr

namespace State

/-- the connection whose object a field holds -/
def field (s : State) : Part → Option Nat
  | .writer => s.writer
  | .reader => s.reader
  | .socket => s.socket

@[simp] def senderGoto (s : State) (t : Nat) (pc : SenderPc) : State :=
  { s with sender := Function.update s.sender t pc }

@[simp] def listenerGoto (s : State) (c : Nat) (pc : ListenerPc) : State :=
  { s with listener := Function.update s.listener c pc }

@[simp] def setConn (s : State) (c : Nat) (x : Conn) : State :=
  { s with conn := Function.update s.conn c x }

/-- the listener of connection `c` closes a part of connection `d` -/
@[simp] def closePart (s : State) (c : Nat) (part : Part) (d : Nat) : State :=
  { s.setConn d { s.conn d with
      closed := Function.update (Function.update (s.conn d).closed .socket true) part true } with
    closes := s.closes ++ [(c, part, d)] }

/-- a statement at the end of the listener of connection `c` -/
def perform (s : State) (c : Nat) : Op → State
  | .setDisconnected => { s with isConnected := false }
  | .close part =>
    match s.field part with
    | none => s
    | some d => s.closePart c part d

end State

/-- `SocketClient.connect`, `startListening` and `sendMessage` as a turn calls them, one
statement -/
def senderStep (s : State) (t : Nat) (a : SenderAct) : Option State :=
  match s.sender t, a with
  | .openSocket, .run =>
    some ({ s.setConn s.opened ⟨fun _ => false, none, none, false⟩ with
      socket := some s.opened
      opened := s.opened + 1 }.senderGoto t (.openWriter s.opened))
  | .openWriter c, .run =>
    match s.socket with
    | none => none                            -- socket!! throws: fails
    | some d =>
      if (s.conn d).closed .socket then none
      else some ({ s with writer := some d }.senderGoto t (.openReader c))
  | .openReader c, .run =>
    match s.socket with
    | none => none
    | some d =>
      if (s.conn d).closed .socket then none
      else some ({ s with reader := some d }.senderGoto t (.setConnected c))
  | .openSocket, .fails => some (s.senderGoto t .done)
  | .openWriter _, .fails => some (s.senderGoto t .done)
  | .openReader _, .fails => some (s.senderGoto t .done)
  | .setConnected c, .run => some ({ s with isConnected := true }.senderGoto t (.startListening c))
  | .startListening c, .run => some ((s.listenerGoto c .test).senderGoto t .testConnected)
  | .testConnected, .run =>
    if s.isConnected then some (s.senderGoto t .setPayload) else some (s.senderGoto t .done)
  | .setPayload, .run => some ({ s with payload := some t }.senderGoto t .print)
  | .print, .run =>
    match s.writer with
    | none => some (s.senderGoto t .done)
    | some d =>
      if (s.conn d).closed .writer ∨ (s.conn d).closed .socket then some (s.senderGoto t .done)
      else
        -- the server reads the first line only
        some ((s.setConn d { s.conn d with
          request := (s.conn d).request.or (some (Line.mk t s.payload)) }).senderGoto t .done)
  | _, _ => none

/-- `handleServerMessage`: the next program point of the listener, up to the call of
`onMessageReceived` -/
def afterMessage (r : Nat) (response : Bytes) : ListenerPc :=
  match toMessage response with
  | none => .run finish
  | some (.aiResponse payload) => .deliver r payload
  | some (.testResponse payload) => .deliver r payload
  | some (.error _) => .run finishError

/-- `handleServerMessage`: a test response turns the message into a test request -/
def messageAfter (s : State) (response : Bytes) : State :=
  match toMessage response with
  | some (.testResponse _) =>
    if s.message = .testRequest then s else { s with message := .testRequest, payload := none }
  | _ => s

/-- `SocketClient.startListening`, the coroutine for connection `c`, one statement -/
def listenerStep (s : State) (c : Nat) (a : ListenerAct) : Option State :=
  match s.listener c, a with
  | .test, .run =>
    if s.isConnected then some (s.listenerGoto c .readField)
    else some (s.listenerGoto c (.run disconnect))
  | .readField, .run =>
    match s.reader with
    | none => some (s.listenerGoto c (.run finish))
    | some r => some (s.listenerGoto c (.reading r))
  | .reading r, .line =>
    match (s.conn r).reply with
    | none => none
    | some response =>
      if (s.conn r).taken then none
      else some ((s.setConn r { s.conn r with taken := true }).listenerGoto c (.handle r response))
  | .reading _, .eof => some (s.listenerGoto c (.run finish))
  | .reading _, .fails => some (s.listenerGoto c (.run finish))
  | .handle r response, .run =>
    some ((messageAfter s response).listenerGoto c (afterMessage r response))
  | .deliver r payload, .run =>
    match (s.conn r).request with
    | none => none
    | some line =>
      some ({ s with channel := s.channel ++ [Reply.mk line.turn payload] }.listenerGoto c
        (.run finish))
  | .run (op :: ops), .run => some ((s.perform c op).listenerGoto c (.run ops))
  | _, _ => none

/-- the server answers the request on connection `c` -/
def serverStep (s : State) (c : Nat) (reply : Bytes) : Option State :=
  if (s.conn c).request ≠ none ∧ (s.conn c).reply = none then
    some (s.setConn c { s.conn c with reply := some reply })
  else none

/-- the flow thread after a timeout, by whether it was the wait of three seconds -/
def afterTimeout (t : Nat) : Bool → FlowPc
  | true => .waiting t false
  | false => .speak t none

/-- the flow thread in a `Conversation`, one statement -/
def flowStep (s : State) (a : FlowAct) : Option State :=
  match s.flow, a with
  | .listening, .enter => some { s with channel := [] }
  | .listening, .respond =>
    some { s with
      turns := s.turns + 1
      sender := Function.update s.sender s.turns .openSocket
      flow := .waiting s.turns true }
  | .waiting t _, .receive =>
    match s.channel with
    | [] => none
    | r :: channel => some { s with channel := channel, flow := .speak t (some r) }
  | .waiting t first, .timeout => some { s with flow := afterTimeout t first }
  | .waiting t first, .lost =>
    match s.channel with
    | [] => none
    | _ :: channel => some { s with channel := channel, flow := afterTimeout t first }
  | .speak t text, .say => some { s with spoken := s.spoken ++ [(t, text)], flow := .listening }
  | _, _ => none

/-- one statement of one coroutine, or a reply of the server -/
def step (l : Label) (s : State) : Option State :=
  match l with
  | .sender t a => senderStep s t a
  | .listener c a => listenerStep s c a
  | .server c reply => serverStep s c reply
  | .flow a => flowStep s a

/-- the client when the first `Conversation` is entered; `testMode` is `TEST_MODE` -/
def startState (testMode : Bool) : State where
  message := if testMode then .testRequest else .aiRequest
  payload := none
  socket := none
  writer := none
  reader := none
  isConnected := false
  opened := 0
  conn := fun _ => ⟨fun _ => false, none, none, false⟩
  turns := 0
  sender := fun _ => .notStarted
  listener := fun _ => .notStarted
  flow := .listening
  channel := []
  closes := []
  spoken := []

end Client
