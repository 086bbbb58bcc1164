import RobotDialog.Lib.CString

/-!
# JSON values in C

A JSON value as a library hands it to C: null is the null pointer, and reading a value of another
kind than expected gives nothing or fails an assertion.

* `Value`                                     a value;
* `objectGetEx`, `arrayGetIdx`, `getString`   a member, an element, the text of a value;
* `Value.find`                                the value at the end of a path;
* `find_key`, `find_index`                    the path and the functions agree;
* `find_first_iff`                            a path through the first element of an array.
-/

namespace JsonC
open CString

inductive Value where
  | null
  | boolean (b : Bool)
  | number (text : Bytes)
  | string (s : Bytes)
  | array (items : List Value)
  | object (members : List (Bytes × Value))

/-- the null pointer -/
def Value.isNull : Value → Bool
  | .null => true
  | _ => false

theorem Value.eq_null {v : Value} (h : v.isNull = true) : v = .null := by
  cases v with
  | null => rfl
  | _ => cases h

def Value.IsArray (v : Value) : Prop := ∃ items, v = .array items

/-- the member `key` of an object; `none` if there is none, and for all other values -/
def objectGetEx (v : Value) (key : Bytes) : Option Value :=
  match v with
  | .object members => (members.find? fun m => m.1 == key).map Prod.snd
  | _ => none

/-- the element `i` of an array, null if it is out of range; `none` is a failed assertion, the value
is not an array -/
def arrayGetIdx (v : Value) (i : Nat) : Option Value :=
  match v with
  | .array items => some (items[i]?.getD .null)
  | _ => none

/-- the text of a value, `toJsonString` for one that is not a string; `none` is the null pointer -/
def getString (toJsonString : Value → Bytes) (v : Value) : Option Bytes :=
  match v with
  | .null => none
  | .string s => some s
  | v => some (toJsonString v)

/-! ## paths -/

inductive Step where
  | key (name : Bytes)
  | index (i : Nat)

/-- one step into a value -/
def Value.child : Value → Step → Option Value
  | .object members, .key name => (members.find? fun m => m.1 == name).map Prod.snd
  | .array items, .index i => items[i]?
  | _, _ => none

/-- the value at the end of a path -/
def Value.find (v : Value) : List Step → Option Value
  | [] => some v
  | s :: path => (v.child s).bind fun w => w.find path

theorem child_key (v : Value) (name : Bytes) : v.child (.key name) = objectGetEx v name := by
  cases v <;> rfl

theorem find_key (v : Value) (name : Bytes) (path : List Step) :
    v.find (.key name :: path) = (objectGetEx v name).bind fun w => w.find path := by
  rw [Value.find, child_key]

theorem find_null (s : Step) (path : List Step) : Value.null.find (s :: path) = none := by
  cases s <;> rfl

/-- Behind an element there is what the element holds, if it is not null. -/
theorem find_index {v w : Value} {i : Nat} (h : arrayGetIdx v i = some w) (s : Step)
    (path : List Step) : v.find (.index i :: s :: path) = w.find (s :: path) := by
  cases v with
  | array items =>
    obtain rfl : items[i]?.getD .null = w := Option.some.inj h
    show (items[i]?).bind (fun w => w.find (s :: path)) = _
    cases items[i]? with
    | none => exact (find_null s path).symm
    | some w => rfl
  | null => cases h
  | boolean b => cases h
  | number text => cases h
  | string s => cases h
  | object members => cases h

theorem arrayGetIdx_none_iff (v : Value) (i : Nat) : arrayGetIdx v i = none ↔ ¬ v.IsArray := by
  cases v with
  | array items => exact iff_of_false (fun h => by cases h) fun h => h ⟨items, rfl⟩
  | null => exact iff_of_true rfl fun ⟨_, h⟩ => by cases h
  | boolean b => exact iff_of_true rfl fun ⟨_, h⟩ => by cases h
  | number text => exact iff_of_true rfl fun ⟨_, h⟩ => by cases h
  | string s => exact iff_of_true rfl fun ⟨_, h⟩ => by cases h
  | object members => exact iff_of_true rfl fun ⟨_, h⟩ => by cases h

theorem find_index_none {v : Value} {i : Nat} (h : arrayGetIdx v i = none) (path : List Step) :
    v.find (.index i :: path) = none := by
  cases v with
  | array items => cases h
  | null => rfl
  | boolean b => rfl
  | number text => rfl
  | string s => rfl
  | object members => rfl

/-! ## the first element of a member -/

/-- `first` is the first element of the array in the member `key`, and not null -/
def FirstElement (v : Value) (key : Bytes) (first : Value) : Prop :=
  ∃ items, objectGetEx v key = some items ∧ arrayGetIdx items 0 = some first ∧
    first.isNull = false

/-- **A path through the first element of a member.** -/
theorem find_first_iff (v : Value) (key : Bytes) (s : Step) (path : List Step) (w : Value) :
    v.find (.key key :: .index 0 :: s :: path) = some w ↔
      ∃ first, FirstElement v key first ∧ first.find (s :: path) = some w := by
  rw [find_key, Option.bind_eq_some_iff]
  constructor
  · rintro ⟨items, hitems, hw⟩
    rcases hfirst : arrayGetIdx items 0 with - | first
    · rw [find_index_none hfirst] at hw
      cases hw
    · rw [find_index hfirst] at hw
      refine ⟨first, ⟨items, hitems, hfirst, ?_⟩, hw⟩
      cases first with
      | null =>
        rw [find_null] at hw
        cases hw
      | boolean b => rfl
      | number text => rfl
      | string s => rfl
      | array items => rfl
      | object members => rfl
  · rintro ⟨first, ⟨items, hitems, hfirst, -⟩, hw⟩
    exact ⟨items, hitems, by rw [find_index hfirst]; exact hw⟩

theorem forall_find_first (v : Value) (key : Bytes) (s : Step) (path : List Step)
    (P : Value → Prop) :
    (∀ w, v.find (.key key :: .index 0 :: s :: path) = some w → P w) ↔
      ∀ first, FirstElement v key first → ∀ w, first.find (s :: path) = some w → P w := by
  simp only [find_first_iff]
  constructor
  · intro h first hfirst w hw
    exact h w ⟨first, hfirst, hw⟩
  · rintro h w ⟨first, hfirst, hw⟩
    exact h first hfirst w hw

theorem find_single (v : Value) (key : Bytes) : v.find [.key key] = objectGetEx v key := by
  rw [find_key]
  cases objectGetEx v key <;> rfl

end JsonC
