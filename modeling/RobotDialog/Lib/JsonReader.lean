import RobotDialog.Lib.Json
import RobotDialog.Lib.Utf8

/-!
# Reading JSON

A reader for JSON texts (RFC 8259) that takes one byte after the other: its state is what it expects
next and the arrays and objects that are open.  The grammar is the one over bytes: from 128 on they
stand for the characters outside of ASCII.

* `Value`          what a text means; a number is kept as its digits;
* `step`, `run`    one byte, a text;
* `read`           the value of a whole text, if it is one;
* `readUtf8`       and if it is UTF-8.
-/

namespace Json
open CString

/-- a character of a string: as it stands in the text, or the code unit of a `\u` escape -/
inductive Sym where
  | byte (b : UInt8)
  | unit (n : Nat)
  deriving DecidableEq, Repr

inductive Value where
  | null
  | bool (b : Bool)
  | number (text : Bytes)
  | string (s : List Sym)
  | array (items : List Value)
  | object (members : List (List Sym × Value))

abbrev Member := List Sym × Value

def Value.isObject : Value → Bool
  | .object _ => true
  | _ => false

/-! ## the state -/

/-- an array or an object that is open, with what it has so far -/
inductive Frame where
  | array (items : List Value)
  | object (members : List Member)
  | member (members : List Member) (name : List Sym)     -- the value of `name` is read

/-- how far a number is -/
inductive Phase where
  | minus
  | zero
  | int
  | dot
  | frac
  | exp
  | expSign
  | expDigits
  deriving DecidableEq, Repr

inductive Mode where
  | value                                -- a value
  | first                                -- a value, or the end of the array
  | name                                 -- the name of a member
  | firstName                            -- the name of a member, or the end of the object
  | colon
  | after                                -- a comma, or the end of the array or object
  | string (s : List Sym)
  | escape (s : List Sym)                -- behind a backslash
  | hex (s : List Sym) (more n : Nat)    -- in a `\u` escape, `more + 1` digits are missing
  | number (phase : Phase) (text : Bytes)
  | literal (rest : Bytes) (v : Value)   -- in `true`, `false` or `null`
  | done (v : Value)

structure State where
  mode : Mode
  stack : List Frame

def start : State := ⟨.value, []⟩

/-! ## one byte -/

def isWs (c : UInt8) : Bool := c == 32 || c == 9 || c == 10 || c == 13

/-- the phase of a number behind one more byte -/
def Phase.next : Phase → UInt8 → Option Phase
  | .minus, c => if c = 48 then some .zero else if isdigit c then some .int else none
  | .zero, c => if c = 46 then some .dot else if c = 69 ∨ c = 101 then some .exp else none
  | .int, c =>
    if isdigit c then some .int
    else if c = 46 then some .dot
    else if c = 69 ∨ c = 101 then some .exp
    else none
  | .dot, c => if isdigit c then some .frac else none
  | .frac, c => if isdigit c then some .frac else if c = 69 ∨ c = 101 then some .exp else none
  | .exp, c =>
    if c = 43 ∨ c = 45 then some .expSign else if isdigit c then some .expDigits else none
  | .expSign, c => if isdigit c then some .expDigits else none
  | .expDigits, c => if isdigit c then some .expDigits else none

/-- a number may end here -/
def Phase.final : Phase → Bool
  | .zero | .int | .frac | .expDigits => true
  | _ => false

/-- what a backslash and this byte stand for -/
def unescape (c : UInt8) : Option UInt8 :=
  if c = quote ∨ c = backslash ∨ c = 47 then some c
  else if c = 98 then some 8
  else if c = 102 then some 12
  else if c = 110 then some 10
  else if c = 114 then some 13
  else if c = 116 then some 9
  else none

def hexValue (c : UInt8) : Option Nat :=
  if isdigit c then some (c.toNat - 48)
  else if 97 ≤ c && c ≤ 102 then some (c.toNat - 87)
  else if 65 ≤ c && c ≤ 70 then some (c.toNat - 55)
  else none

/-- a value that is complete goes into the innermost array or object -/
def deliver (v : Value) : List Frame → State
  | .array items :: fs => ⟨.after, .array (items ++ [v]) :: fs⟩
  | .member members name :: fs => ⟨.after, .object (members ++ [(name, v)]) :: fs⟩
  | fs => ⟨.done v, fs⟩

/-- the end of a string: the name of a member, or a value -/
def endString (s : List Sym) : List Frame → State
  | .object members :: fs => ⟨.colon, .member members s :: fs⟩
  | fs => deliver (.string s) fs

def startValue (c : UInt8) (fs : List Frame) : Option State :=
  if c = quote then some ⟨.string [], fs⟩
  else if c = 91 then some ⟨.first, .array [] :: fs⟩
  else if c = 123 then some ⟨.firstName, .object [] :: fs⟩
  else if c = 116 then some ⟨.literal (ascii "rue") (.bool true), fs⟩
  else if c = 102 then some ⟨.literal (ascii "alse") (.bool false), fs⟩
  else if c = 110 then some ⟨.literal (ascii "ull") .null, fs⟩
  else if c = 45 then some ⟨.number .minus [c], fs⟩
  else if c = 48 then some ⟨.number .zero [c], fs⟩
  else if isdigit c then some ⟨.number .int [c], fs⟩
  else none

def closeArray : List Frame → Option State
  | .array items :: fs => some (deliver (.array items) fs)
  | _ => none

def closeObject : List Frame → Option State
  | .object members :: fs => some (deliver (.object members) fs)
  | _ => none

/-- a byte behind a value -/
def follow (s : State) (c : UInt8) : Option State :=
  if isWs c then some s
  else
    match s.mode, s.stack with
    | .after, .array _ :: _ =>
      if c = comma then some ⟨.value, s.stack⟩
      else if c = 93 then closeArray s.stack
      else none
    | .after, .object _ :: _ =>
      if c = comma then some ⟨.name, s.stack⟩
      else if c = 125 then closeObject s.stack
      else none
    | _, _ => none

def step (s : State) (c : UInt8) : Option State :=
  match s.mode with
  | .value => if isWs c then some s else startValue c s.stack
  | .first =>
    if isWs c then some s else if c = 93 then closeArray s.stack else startValue c s.stack
  | .name => if isWs c then some s else if c = quote then some ⟨.string [], s.stack⟩ else none
  | .firstName =>
    if isWs c then some s
    else if c = 125 then closeObject s.stack
    else if c = quote then some ⟨.string [], s.stack⟩
    else none
  | .colon => if isWs c then some s else if c = colon then some ⟨.value, s.stack⟩ else none
  | .after => follow s c
  | .string t =>
    if c = quote then some (endString t s.stack)
    else if c = backslash then some ⟨.escape t, s.stack⟩
    else if c < 32 then none
    else some ⟨.string (t ++ [.byte c]), s.stack⟩
  | .escape t =>
    if c = 117 then some ⟨.hex t 3 0, s.stack⟩
    else (unescape c).map fun b => ⟨.string (t ++ [.byte b]), s.stack⟩
  | .hex t more n =>
    (hexValue c).map fun d =>
      match more with
      | 0 => ⟨.string (t ++ [.unit (16 * n + d)]), s.stack⟩
      | more + 1 => ⟨.hex t more (16 * n + d), s.stack⟩
  | .number phase text =>
    match phase.next c with
    | some phase' => some ⟨.number phase' (text ++ [c]), s.stack⟩
    | none => if phase.final then follow (deliver (.number text) s.stack) c else none
  | .literal [] _ => none
  | .literal (b :: rest) v =>
    if c = b then
      if rest = [] then some (deliver v s.stack) else some ⟨.literal rest v, s.stack⟩
    else none
  | .done _ => follow s c

/-! ## a text -/

def run (s : State) (text : Bytes) : Option State := text.foldlM step s

def finish (s : State) : Option Value :=
  match s.mode, s.stack with
  | .done v, [] => some v
  | .number phase text, [] => if phase.final then some (.number text) else none
  | _, _ => none

def read (text : Bytes) : Option Value := (run start text).bind finish

/-- the value of a JSON text that is UTF-8, as the texts that systems exchange must be -/
def readUtf8 (text : Bytes) : Option Value := if Utf8.Valid text then read text else none

example : (read (ascii " \x7b\"a\": [-2.5e3, \"x\\u0041\"], \"b\": null\x7d ")).isSome = true := by
  decide +kernel
example : (read (ascii "[1,]")).isSome = false := by decide +kernel

theorem run_nil (s : State) : run s [] = some s := rfl

theorem run_cons (s : State) (c : UInt8) (text : Bytes) :
    run s (c :: text) = (step s c).bind fun s' => run s' text := rfl

theorem run_append (s : State) (a b : Bytes) :
    run s (a ++ b) = (run s a).bind fun s' => run s' b := by
  unfold run
  rw [List.foldlM_append]
  rfl

end Json
