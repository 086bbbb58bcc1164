import Mathlib.Data.List.Nodup
import Mathlib.Logic.Function.Basic

/-!
# Singly linked lists in a heap

`heap : P → Option ν` maps an address to the node stored there (`none`: not allocated); `next`
and `val` read the link and the contents of a node.

* `Linked val next heap p l`   from the pointer `p` (`none` is the null pointer) the links visit
                               exactly the addresses of `l`, with the contents of `l`, then null;
* `Linked.unique`              there is one such list only;
* `Linked.frame`               a write outside the list leaves it alone;
* `Linked.link_last`           linking a new node behind the last one appends it.
-/

set_option linter.unusedSectionVars false

namespace Heap

variable {P ν β : Type*} [DecidableEq P] (val : ν → β) (next : ν → Option P)

/-- the list of (address, contents) that starts at a pointer -/
def Linked (heap : P → Option ν) : Option P → List (P × β) → Prop
  | p, [] => p = none
  | p, (a, b) :: l => p = some a ∧ ∃ n, heap a = some n ∧ val n = b ∧ Linked heap (next n) l

def addrs (l : List (P × β)) : List P := l.map Prod.fst

@[simp] theorem addrs_nil : addrs ([] : List (P × β)) = [] := rfl
@[simp] theorem addrs_cons (a : P) (b : β) (l : List (P × β)) :
    addrs ((a, b) :: l) = a :: addrs l := rfl
@[simp] theorem addrs_append (l l' : List (P × β)) : addrs (l ++ l') = addrs l ++ addrs l' := by
  simp [addrs]

variable {val next} {heap : P → Option ν} {p : Option P} {l : List (P × β)}

theorem Linked.null_iff (h : Linked val next heap p l) : p = none ↔ l = [] := by
  cases l with
  | nil => exact ⟨fun _ => rfl, fun _ => h⟩
  | cons x l =>
    obtain ⟨a, b⟩ := x
    obtain ⟨hp, _⟩ := h
    simp [hp]

theorem Linked.unique {l' : List (P × β)} (h : Linked val next heap p l)
    (h' : Linked val next heap p l') : l = l' := by
  induction l generalizing p l' with
  | nil => exact (h'.null_iff.mp h).symm
  | cons x l ih =>
    obtain ⟨a, b⟩ := x
    obtain ⟨rfl, n, hn, hb, hl⟩ := h
    cases l' with
    | nil => cases h'
    | cons y l' =>
      obtain ⟨a', b'⟩ := y
      obtain ⟨ha, n', hn', hb', hl'⟩ := h'
      obtain rfl := Option.some.inj ha
      obtain rfl := Option.some.inj (hn.symm.trans hn')
      rw [← hb, ← hb', ih hl hl']

theorem Linked.uncons {a : P} (h : Linked val next heap (some a) l) :
    ∃ n l', heap a = some n ∧ l = (a, val n) :: l' ∧ Linked val next heap (next n) l' := by
  cases l with
  | nil => cases h
  | cons x l =>
    obtain ⟨a', b⟩ := x
    obtain ⟨hp, n, hn, hb, hl⟩ := h
    cases hp
    exact ⟨n, l, hn, by rw [hb], hl⟩

theorem Linked.allocated (h : Linked val next heap p l) : ∀ a ∈ addrs l, heap a ≠ none := by
  induction l generalizing p with
  | nil => simp
  | cons x l ih =>
    obtain ⟨a, b⟩ := x
    obtain ⟨_, n, hn, _, hl⟩ := h
    intro c hc
    rw [addrs_cons, List.mem_cons] at hc
    rcases hc with rfl | hc
    · simp [hn]
    · exact ih hl c hc

/-- **A write outside the list.** -/
theorem Linked.frame (h : Linked val next heap p l) {a : P} (ha : a ∉ addrs l) (x : Option ν) :
    Linked val next (Function.update heap a x) p l := by
  induction l generalizing p with
  | nil => exact h
  | cons y l ih =>
    obtain ⟨c, b⟩ := y
    obtain ⟨hp, n, hn, hb, hl⟩ := h
    rw [addrs_cons, List.mem_cons, not_or] at ha
    exact ⟨hp, n, by rw [Function.update_of_ne (Ne.symm ha.1), hn], hb, ih hl ha.2⟩

theorem Linked.last (b : β) {a : P} (h : Linked val next heap p (l ++ [(a, b)])) :
    ∃ n, heap a = some n ∧ val n = b ∧ next n = none := by
  induction l generalizing p with
  | nil =>
    obtain ⟨_, n, hn, hb, hl⟩ := h
    exact ⟨n, hn, hb, hl⟩
  | cons y l ih =>
    obtain ⟨_, n, _, _, hl⟩ := h
    exact ih hl

/-- **A new node linked behind the last one.** -/
theorem Linked.link_last {a c : P} {b : β} {n m : ν} (h : Linked val next heap p (l ++ [(a, b)]))
    (hnd : (addrs (l ++ [(a, b)])).Nodup) (hc : c ∉ addrs (l ++ [(a, b)]))
    (hcm : heap c = some m) (hm : next m = none) (hb : val n = b) (hn : next n = some c) :
    Linked val next (Function.update heap a (some n)) p (l ++ [(a, b)] ++ [(c, val m)]) := by
  have hca : c ≠ a := fun e => hc (by simp [e])
  induction l generalizing p with
  | nil =>
    obtain ⟨hp, _⟩ := h
    refine ⟨hp, n, Function.update_self .., hb, hn, m, ?_, rfl, hm⟩
    rw [Function.update_of_ne hca, hcm]
  | cons y l ih =>
    obtain ⟨d, e⟩ := y
    obtain ⟨hp, k, hk, he, hl⟩ := h
    rw [List.cons_append, addrs_cons, List.nodup_cons] at hnd
    rw [List.cons_append, addrs_cons, List.mem_cons, not_or] at hc
    have hda : d ≠ a := fun e => hnd.1 (by simp [e])
    refine ⟨hp, k, ?_, he, ih hl hnd.2 hc.2⟩
    rw [Function.update_of_ne hda, hk]

end Heap
