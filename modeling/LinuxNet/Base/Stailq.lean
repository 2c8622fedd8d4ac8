-- SUMMARY: The singly-linked tail queues of <sys/queue.h>, as lists of nodes with addresses, and what leaves a queue against what was in it.
import Mathlib.Data.List.Nodup

/-! # STAILQ

A queue is the list of its elements from head to tail. An element is a node at
an address, and pointers into the queue are addresses: following `STAILQ_NEXT`
from a node that has been removed is an access the model can see. -/

namespace LinuxNet

structure Node (α : Type*) where
  addr : Nat
  val : α
  deriving DecidableEq, Repr

abbrev Stailq (α : Type*) := List (Node α)

namespace Stailq

variable {α : Type*}

def addrs (q : Stailq α) : List Nat := q.map Node.addr

/-- The element a pointer points to, if it is in the queue. -/
def get (q : Stailq α) (a : Nat) : Option α :=
  (q.find? (·.addr = a)).map Node.val

/-- `STAILQ_FIRST`. -/
def first (q : Stailq α) : Option Nat := q.head?.map Node.addr

/-- `STAILQ_NEXT`. -/
def next (q : Stailq α) (a : Nat) : Option Nat :=
  first (q.dropWhile (·.addr ≠ a)).tail

/-- `STAILQ_INSERT_TAIL` of an element at address `a`. -/
def insertTail (q : Stailq α) (a : Nat) (x : α) : Stailq α := q ++ [⟨a, x⟩]

/-- `STAILQ_REMOVE`. -/
def remove (q : Stailq α) (a : Nat) : Stailq α := q.eraseP (·.addr = a)

variable {P R : Stailq α} {a : Nat} {x : α}

/-! ## A node between the nodes before it and the nodes after it -/

theorem get_middle (ha : a ∉ P.addrs) : get (P ++ ⟨a, x⟩ :: R) a = some x := by
  have hP : ∀ n ∈ P, ¬ decide (n.addr = a) = true := by
    simpa using fun n hn hna => ha (List.mem_map.2 ⟨n, hn, hna⟩)
  rw [get, List.find?_append, List.find?_eq_none.2 hP]
  simp

theorem next_middle (ha : a ∉ P.addrs) : next (P ++ ⟨a, x⟩ :: R) a = first R := by
  have hP : ∀ n ∈ P, decide (n.addr ≠ a) = true := by
    simpa using fun n hn hna => ha (List.mem_map.2 ⟨n, hn, hna⟩)
  rw [next, List.dropWhile_append_of_pos hP]
  simp

theorem remove_middle (ha : a ∉ P.addrs) : remove (P ++ ⟨a, x⟩ :: R) a = P ++ R := by
  have hP : ∀ n ∈ P, ¬ decide (n.addr = a) = true := by
    simpa using fun n hn hna => ha (List.mem_map.2 ⟨n, hn, hna⟩)
  rw [remove, List.eraseP_append_right _ hP, List.eraseP_cons_of_pos (by simp)]

end Stailq

/-! ## First in, first out

A queue that loses elements at its head only, and gains them at its tail only. -/

variable {α : Type*} {q out q' out' q'' rest : List α} {x : α}

/-- From `q` the elements `out` left, first to last, and `q'` stays. Others may
have joined meanwhile, also some of those that left. -/
def Fifo (q out q' : List α) : Prop := ∃ joined, q ++ joined = out ++ q'

namespace Fifo

theorem stay : Fifo q [] q := ⟨[], by simp⟩

theorem join (x : α) : Fifo q [] (q ++ [x]) := ⟨[x], rfl⟩

theorem leave : Fifo (x :: q) [x] q := ⟨[], by simp⟩

theorem trans (h : Fifo q out q') (h' : Fifo q' out' q'') : Fifo q (out ++ out') q'' := by
  obtain ⟨joined, h⟩ := h
  obtain ⟨joined', h'⟩ := h'
  refine ⟨joined ++ joined', ?_⟩
  rw [← List.append_assoc, h, List.append_assoc, h', List.append_assoc]

/-- When an element that joined last comes to the head for the first time, those
that were before it have left, and no others. -/
theorem ahead (h : Fifo (q ++ [x]) out (x :: rest)) (hq : x ∉ q) (hout : x ∉ out) : out = q := by
  obtain ⟨joined, h⟩ := h
  rw [List.append_assoc, List.singleton_append] at h
  induction q generalizing out with
  | nil =>
    cases out with
    | nil => rfl
    | cons y out =>
      obtain ⟨rfl, -⟩ := List.cons.inj h
      exact absurd List.mem_cons_self hout
  | cons y q ih =>
    cases out with
    | nil =>
      obtain ⟨rfl, -⟩ := List.cons.inj h
      exact absurd List.mem_cons_self hq
    | cons z out =>
      obtain ⟨rfl, htail⟩ := List.cons.inj h
      rw [ih (List.not_mem_of_not_mem_cons hq) (List.not_mem_of_not_mem_cons hout) htail]

end Fifo

end LinuxNet
