import RobotDialog.Lib.Runs
import Mathlib.Data.Multiset.AddSub

/-!
# A queue that serves every item exactly once

What a task queue is for, without memory, threads or counters: items are accepted at the back,
taken from the front, and finished in any order; items still waiting may be dropped at the end.

* `Queue`, `step`     the history of the queue and its operations;
* `Inv`               order, distinctness and conservation;
* `Inv.of_reach`      they hold in every run;
* `Inv.exactlyOnce`   an item that was taken is either finished once or being worked on once.
-/

namespace Fifo

variable {α : Type*}

structure Queue (α : Type*) where
  accepted : List α
  waiting : List α
  dequeued : List α
  dropped : List α
  running : Multiset α
  completed : List α

def Queue.empty : Queue α := ⟨[], [], [], [], 0, []⟩

inductive Op (α : Type*) where
  | accept (x : α)
  | dequeue
  | drop
  | complete (x : α)

/-- one operation; an item is accepted at most once, and nobody is served after a drop -/
def step [DecidableEq α] : Op α → Queue α → Option (Queue α)
  | .accept x, q =>
    if x ∈ q.accepted then none
    else some { q with accepted := q.accepted ++ [x], waiting := q.waiting ++ [x] }
  | .dequeue, q =>
    match q.waiting with
    | [] => none
    | x :: l =>
      if q.dropped = [] then
        some { q with waiting := l, dequeued := q.dequeued ++ [x], running := q.running + {x} }
      else none
  | .drop, q =>
    match q.waiting with
    | [] => none
    | x :: l => some { q with waiting := l, dropped := q.dropped ++ [x] }
  | .complete x, q =>
    if x ∈ q.running then
      some { q with running := q.running.erase x, completed := q.completed ++ [x] }
    else none

structure Inv (q : Queue α) : Prop where
  order : q.accepted = q.dequeued ++ q.dropped ++ q.waiting
  nodup : q.accepted.Nodup
  work : (q.dequeued : Multiset α) = q.completed + q.running

theorem Inv.empty : Inv (Queue.empty : Queue α) := ⟨rfl, List.nodup_nil, rfl⟩

section
variable [DecidableEq α]

theorem Inv.step {q q' : Queue α} {op : Op α} (h : Inv q) (hs : step op q = some q') : Inv q' := by
  cases op with
  | accept x =>
    simp only [Fifo.step] at hs
    split at hs <;> cases hs
    rename_i hx
    refine ⟨?_, ?_, h.work⟩
    · simp [h.order]
    · refine List.nodup_append.mpr ⟨h.nodup, List.nodup_singleton x, ?_⟩
      intro a ha b hb hab
      rw [List.mem_singleton] at hb
      exact hx (hb ▸ hab ▸ ha)
  | dequeue =>
    simp only [Fifo.step] at hs
    split at hs
    · cases hs
    · rename_i x l hl
      split at hs <;> cases hs
      rename_i hd
      refine ⟨?_, h.nodup, ?_⟩
      · simp [h.order, hl, hd]
      · rw [← Multiset.coe_add, h.work, Multiset.add_assoc]
        rfl
  | drop =>
    simp only [Fifo.step] at hs
    split at hs <;> cases hs
    rename_i x l hl
    exact ⟨by simp [h.order, hl], h.nodup, h.work⟩
  | complete x =>
    simp only [Fifo.step] at hs
    split at hs <;> cases hs
    rename_i hx
    refine ⟨h.order, h.nodup, ?_⟩
    have hx' : q.running = {x} + q.running.erase x := by
      rw [Multiset.singleton_add, Multiset.cons_erase hx]
    rw [← Multiset.coe_add, h.work, Multiset.add_assoc]
    exact congrArg _ hx'

/-- **Every run keeps order, distinctness and conservation.** -/
theorem Inv.of_reach {q : Queue α} (h : Lts.Reach Fifo.step Lts.Any Queue.empty q) : Inv q :=
  h.inv Inv Inv.empty fun _ _ _ _ hI _ hs => hI.step hs

/-- An item that was taken out is finished, once, or being worked on, once. -/
theorem Inv.exactlyOnce {q : Queue α} (h : Inv q) {x : α} (hx : x ∈ q.dequeued) :
    (q.completed.count x = 1 ∧ q.running.count x = 0) ∨
      (q.completed.count x = 0 ∧ q.running.count x = 1) := by
  have hnd : q.dequeued.Nodup := by
    have := h.nodup
    rw [h.order, List.append_assoc] at this
    exact (List.nodup_append.mp this).1
  have hone : q.dequeued.count x = 1 := List.count_eq_one_of_mem hnd hx
  have hsum := congrArg (Multiset.count x) h.work
  rw [Multiset.count_add, Multiset.coe_count, Multiset.coe_count, hone] at hsum
  omega

end
end Fifo
