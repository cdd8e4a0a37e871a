import Mathlib.Data.List.Basic

/-!
`daw::fixed_array<T>`: a size, `m_size`, and a pointer, `m_data`, to storage from `new T[]`
that `clear()` and the destructor release with `delete[]`. The free store is a list of blocks,
each `some cells` while allocated and `none` once deleted; a pointer is `none` for `nullptr` or
`some b` for the first cell of block `b`, which is all `m_data` ever holds. Undefined behaviour
is an `Except` error: `delete[]` of a block that is not allocated, an access through `nullptr`,
to a deleted block or past the end of one, and a `copy_n` reading past the end of its input.

Each member function is translated statement by statement. Two of them do what their names do
not promise: `clear()` deletes the storage and zeroes `m_size` but leaves `m_data` pointing at
the deleted block, so a later `delete[]` of it is a second one; and the copy assignment
allocates `m_size` cells of `*this` before copying `rhs.m_size` cells into them.

`new T[n]{ }` (value-initialised) and `new T[n]` (default-initialised) both give `default` cells
here: the model does not tell an indeterminate scalar from a default one.
-/

namespace FunctionQueue.Storage

/-- Undefined behaviour of the member functions, and use of an object outside its lifetime:
`delete[]` of a block deleted already, a read or write of a deleted block or past the end of
one, a dereference of `nullptr`, `copy_n` reading more elements than its input range has, and
an object never constructed or already destroyed. -/
inductive Fault
  | doubleDelete (b : Nat)
  | useAfterFree (b : Nat)
  | outOfBounds (b : Nat)
  | nullDeref
  | shortInput
  | deadObject (i : Nat)
  deriving DecidableEq, Repr

/-- The free store: block `b` holds its cells while allocated and is `none` once deleted. -/
abbrev Heap (α : Type) := List (Option (List α))

/-- The members of `fixed_array`: `m_size`, and `m_data` as `nullptr` or the block it points to. -/
structure FixedArray where
  size : Nat
  data : Option Nat
  deriving DecidableEq, Repr

section Heap

variable {α : Type} (h : Heap α)

/-- `new value_type[n]`: a fresh block of `n` default cells, at the end of the store. -/
def newArray [Inhabited α] (n : Nat) : Nat × Heap α :=
  (h.length, h ++ [some (List.replicate n default)])

/-- `delete[] p`: nothing for `nullptr`. -/
def deleteArray : Option Nat → Except Fault (Heap α)
  | none => .ok h
  | some b =>
    match h[b]? with
    | some (some _) => .ok (h.set b none)
    | _ => .error (.doubleDelete b)

def block : Option Nat → Except Fault (Nat × List α)
  | none => .error .nullDeref
  | some b =>
    match h[b]? with
    | some (some xs) => .ok (b, xs)
    | _ => .error (.useAfterFree b)

/-- The reads of `std::copy_n(src, n, ...)`: the first `n` cells at `src`; none when `n = 0`. -/
def readN (src : Option Nat) (n : Nat) : Except Fault (List α) :=
  if n = 0 then .ok [] else do
    let (b, xs) ← block h src
    if n ≤ xs.length then pure (xs.take n) else throw (.outOfBounds b)

/-- The writes of `std::copy_n(..., dst)` or `std::fill_n(dst, ...)`: `vs` into the first cells
at `dst`; none when `vs` is empty. -/
def writeN (dst : Option Nat) (vs : List α) : Except Fault (Heap α) :=
  if vs.length = 0 then .ok h else do
    let (d, ys) ← block h dst
    if vs.length ≤ ys.length then pure (h.set d (some (vs ++ ys.drop vs.length)))
    else throw (.outOfBounds d)

/-- `std::copy_n(src, n, dst)` between two blocks of the store. -/
def copyN (src : Option Nat) (n : Nat) (dst : Option Nat) : Except Fault (Heap α) := do
  writeN h dst (← readN h src n)

end Heap

/-- `fixed_array()`: `m_size = 0`, `m_data = nullptr`. -/
def empty : FixedArray := ⟨0, none⟩

section Members

variable {α : Type} (h : Heap α)

/-- `fixed_array(Size)`: `m_size(Size)`, `m_data(new T[Size]{ })`. -/
def ofSize [Inhabited α] (n : Nat) : FixedArray × Heap α :=
  let (b, h) := newArray h n
  (⟨n, some b⟩, h)

/-- `fixed_array(construct_for_overwrite, Size)`: `m_size(Size)`, `m_data(new T[Size])`. -/
def forOverwrite [Inhabited α] (n : Nat) : FixedArray × Heap α :=
  let (b, h) := newArray h n
  (⟨n, some b⟩, h)

/-- `fixed_array(Size, def_value)`: `fixed_array(construct_for_overwrite, Size)`, then
`std::fill_n(m_data, m_size, def_value)`. -/
def ofSizeValue [Inhabited α] (n : Nat) (v : α) : Except Fault (FixedArray × Heap α) := do
  let (a, h) := forOverwrite h n
  let h ← writeN h a.data (List.replicate a.size v)
  pure (a, h)

/-- `fixed_array(pointer ptr, size_type sz)`: adopts `ptr` as it is. -/
def ofPointer (p : Option Nat) (sz : Nat) : FixedArray := ⟨sz, p⟩

/-- `fixed_array(fixed_array &&other)`: takes `other`'s members and leaves it `(0, nullptr)`;
the new array and the moved-from one. -/
def moveFrom (other : FixedArray) : FixedArray × FixedArray :=
  (⟨other.size, other.data⟩, empty)

/-- `fixed_array(fixed_array const &other)`:
`m_data(other.m_size == 0 ? nullptr : new value_type[other.m_size])`, `m_size(other.m_size)`,
then `std::copy_n(other.m_data, m_size, m_data)`. -/
def copyFrom [Inhabited α] (other : FixedArray) : Except Fault (FixedArray × Heap α) := do
  let (p, h) := if other.size = 0 then (none, h) else
    let (b, h) := newArray h other.size
    (some b, h)
  let h ← copyN h other.data other.size p
  pure (⟨other.size, p⟩, h)

/-- `fixed_array(Iterator first, size_type Size)` over the input `xs`:
`m_data(new value_type[m_size])`, then `std::copy_n(first, m_size, m_data)`. -/
def ofIter [Inhabited α] (xs : List α) (n : Nat) : Except Fault (FixedArray × Heap α) := do
  let (b, h) := newArray h n
  if xs.length < n then throw .shortInput else
  let h ← writeN h (some b) (xs.take n)
  pure (⟨n, some b⟩, h)

/-- `fixed_array(IteratorF first, IteratorL last)`: `m_size(last - first)`, and the same body. -/
def ofRange [Inhabited α] (xs : List α) : Except Fault (FixedArray × Heap α) :=
  ofIter h xs xs.length

/-- `clear()`: `delete[] m_data; m_size = 0;`. `m_data` keeps its value. -/
def clear (a : FixedArray) : Except Fault (FixedArray × Heap α) := do
  let h ← deleteArray h a.data
  pure ({ a with size := 0 }, h)

/-- `~fixed_array()`: `clear()`. -/
def destroy (a : FixedArray) : Except Fault (Heap α) := do
  let (_, h) ← clear h a
  pure h

/-- `operator=(fixed_array &&rhs)` when `this != &rhs`: `clear()`, then
`m_size = exchange(rhs.m_size, 0)` and `m_data = exchange(rhs.m_data, nullptr)`; the
assigned array and the moved-from `rhs`. -/
def moveAssign (a rhs : FixedArray) : Except Fault (FixedArray × FixedArray × Heap α) := do
  let (_, h) ← clear h a
  pure (⟨rhs.size, rhs.data⟩, empty, h)

/-- `operator=(fixed_array const &rhs)` when `this != &rhs`:
`value_type *tmp = new value_type[m_size]; std::copy_n(rhs.m_data, rhs.m_size, tmp); clear();`,
then `return` if `rhs.m_data == nullptr`, else `m_size = rhs.m_size; m_data = tmp;`. -/
def copyAssign [Inhabited α] (a rhs : FixedArray) : Except Fault (FixedArray × Heap α) := do
  let (tmp, h) := newArray h a.size
  let h ← copyN h rhs.data rhs.size (some tmp)
  let (a, h) ← clear h a
  if rhs.data = none then pure (a, h) else pure (⟨rhs.size, some tmp⟩, h)

/-- `release()`: `m_size = 0`, and a `unique_ptr` takes `exchange(m_data, nullptr)`. -/
def release (a : FixedArray) : FixedArray × Option Nat :=
  (empty, a.data)

/-- `operator[](pos)`, read: `*(m_data + pos)`. -/
def subscript (a : FixedArray) (pos : Nat) : Except Fault α := do
  let (b, xs) ← block h a.data
  match xs[pos]? with
  | some x => pure x
  | none => throw (.outOfBounds b)

/-- `operator[](pos) = v`: a write through the reference `*(m_data + pos)`. -/
def store (a : FixedArray) (pos : Nat) (v : α) : Except Fault (Heap α) := do
  let (b, xs) ← block h a.data
  if pos < xs.length then pure (h.set b (some (xs.set pos v))) else throw (.outOfBounds b)

/-- `front()`: `*m_data`. -/
def front (a : FixedArray) : Except Fault α :=
  subscript h a 0

/-- `back()`: `*(m_data + m_size - 1)`, before the block when `m_size` is zero. -/
def back (a : FixedArray) : Except Fault α :=
  if a.size = 0 then do
    let (b, _) ← block h a.data
    throw (.outOfBounds b)
  else subscript h a (a.size - 1)

end Members

/-! ### Arrays and the store -/

section State

variable {α : Type}

/-- The elements of `a`: the first `m_size` cells of its block, none for `nullptr`. -/
def contents (h : Heap α) (a : FixedArray) : List α :=
  match a.data with
  | none => []
  | some b => ((h[b]?).join.getD []).take a.size

/-- The members of `a` agree with the store: `nullptr` and size zero, or an allocated block of
at least `m_size` cells. -/
def Valid (h : Heap α) (a : FixedArray) : Prop :=
  match a.data with
  | none => a.size = 0
  | some b => ∃ xs, h[b]? = some (some xs) ∧ a.size ≤ xs.length

def deleted (h : Heap α) : Option Nat → Heap α
  | none => h
  | some b => h.set b none

@[simp] theorem ok_bind {β γ : Type} (x : β) (f : β → Except Fault γ) :
    (Except.ok x >>= f) = f x := rfl

@[simp] theorem error_bind {β γ : Type} (e : Fault) (f : β → Except Fault γ) :
    (Except.error e >>= f) = Except.error e := rfl

@[simp] theorem pure_eq_ok {β : Type} (x : β) : (pure x : Except Fault β) = Except.ok x := rfl

@[simp] theorem throw_eq_error {β : Type} (e : Fault) :
    (throw e : Except Fault β) = Except.error e := rfl

theorem bind_eq_ok {β γ : Type} {x : Except Fault β} {f : β → Except Fault γ} {r : γ}
    (h : x >>= f = .ok r) : ∃ a, x = .ok a ∧ f a = .ok r := by
  cases x with
  | error e => cases h
  | ok a => exact ⟨a, rfl, h⟩

@[simp] theorem contents_empty (h : Heap α) : contents h empty = [] := rfl

theorem block_of_valid {h : Heap α} {a : FixedArray} {b : Nat} (hv : Valid h a)
    (hb : a.data = some b) : ∃ xs, block h (some b) = .ok (b, xs) ∧ a.size ≤ xs.length ∧
      contents h a = xs.take a.size := by
  simp only [Valid, hb] at hv
  obtain ⟨xs, hxs, hle⟩ := hv
  exact ⟨xs, by simp [block, hxs], hle, by simp [contents, hb, hxs]⟩

theorem Valid.append {h : Heap α} {a : FixedArray} (hv : Valid h a) (ys : Heap α) :
    Valid (h ++ ys) a := by
  cases hb : a.data with
  | none => simpa only [Valid, hb] using hv
  | some b =>
    simp only [Valid, hb] at hv ⊢
    obtain ⟨xs, hxs, hle⟩ := hv
    exact ⟨xs, by rw [List.getElem?_append_left (List.getElem?_eq_some_iff.mp hxs).1, hxs], hle⟩

theorem contents_append {h : Heap α} {a : FixedArray} (hv : Valid h a) (ys : Heap α) :
    contents (h ++ ys) a = contents h a := by
  cases hb : a.data with
  | none => simp [contents, hb]
  | some b =>
    simp only [Valid, hb] at hv
    obtain ⟨xs, hxs, -⟩ := hv
    simp [contents, hb, hxs, List.getElem?_append_left (List.getElem?_eq_some_iff.mp hxs).1]

theorem length_contents {h : Heap α} {a : FixedArray} (hv : Valid h a) :
    (contents h a).length = a.size := by
  cases hb : a.data with
  | none => simp only [Valid, hb] at hv; simp [contents, hb, hv]
  | some b =>
    obtain ⟨xs, -, hle, hc⟩ := block_of_valid hv hb
    rw [hc, List.length_take, Nat.min_eq_left hle]

/-- Below `m_size`, `operator[]` of a valid array reads its element. -/
theorem subscript_of_valid {h : Heap α} {a : FixedArray} (hv : Valid h a) {pos : Nat}
    (hpos : pos < a.size) : (subscript h a pos).toOption = (contents h a)[pos]? := by
  cases hb : a.data with
  | none => simp only [Valid, hb] at hv; omega
  | some b =>
    obtain ⟨xs, hblk, hle, hc⟩ := block_of_valid hv hb
    rw [hc, List.getElem?_take_of_lt hpos, subscript, hb, hblk, ok_bind]
    simp [List.getElem?_eq_getElem (show pos < xs.length by omega), Except.toOption]

/-- `front()` and `back()` of a valid, non-empty array read its first and last elements. -/
theorem front_back_of_valid {h : Heap α} {a : FixedArray} (hv : Valid h a) (h0 : 0 < a.size) :
    (front h a).toOption = (contents h a).head? ∧
      (back h a).toOption = (contents h a).getLast? := by
  rw [List.head?_eq_getElem?, List.getLast?_eq_getElem?, length_contents hv, front, back,
    if_neg (Nat.pos_iff_ne_zero.mp h0)]
  exact ⟨subscript_of_valid hv h0, subscript_of_valid hv (by omega)⟩

theorem deleteArray_of_valid {h : Heap α} {a : FixedArray} (hv : Valid h a) :
    deleteArray h a.data = .ok (deleted h a.data) := by
  cases hb : a.data with
  | none => rfl
  | some b =>
    simp only [Valid, hb] at hv
    obtain ⟨xs, hxs, -⟩ := hv
    simp [deleteArray, deleted, hxs]

theorem readN_of_valid {h : Heap α} {a : FixedArray} (hv : Valid h a) :
    readN h a.data a.size = .ok (contents h a) := by
  cases hb : a.data with
  | none => simp only [Valid, hb] at hv; simp [readN, contents, hb, hv]
  | some b =>
    obtain ⟨xs, hblk, hle, hc⟩ := block_of_valid hv hb
    by_cases h0 : a.size = 0
    · simp [readN, h0, hc]
    · simp [readN, h0, hblk, hle, hc]

theorem writeN_fresh [Inhabited α] (h : Heap α) (vs : List α) {n : Nat} (hn : vs.length ≤ n) :
    writeN (h ++ [some (List.replicate n default)]) (some h.length) vs =
      .ok (h ++ [some (vs ++ (List.replicate n default).drop vs.length)]) := by
  by_cases h0 : vs.length = 0
  · simp [writeN, h0, List.length_eq_zero.mp h0]
  · simp [writeN, h0, block, hn]

/-! ### One lemma per member function -/

theorem ofSize_eq [Inhabited α] (h : Heap α) (n : Nat) :
    ofSize h n = (⟨n, some h.length⟩, h ++ [some (List.replicate n default)]) := rfl

theorem ofSizeValue_eq [Inhabited α] (h : Heap α) (n : Nat) (v : α) :
    ofSizeValue h n v = .ok (⟨n, some h.length⟩, h ++ [some (List.replicate n v)]) := by
  simp [ofSizeValue, forOverwrite, newArray, writeN_fresh h (List.replicate n v)
    (List.length_replicate n v).le]

/-- The range constructor copies the first `Size` inputs, and reads past the input when it is
shorter. -/
theorem ofIter_eq [Inhabited α] (h : Heap α) (xs : List α) (n : Nat) :
    ofIter h xs n = if xs.length < n then .error .shortInput
      else .ok (⟨n, some h.length⟩, h ++ [some (xs.take n)]) := by
  by_cases hn : xs.length < n
  · simp [ofIter, newArray, hn]
  · have hl : (xs.take n).length = n := by rw [List.length_take]; omega
    simp [ofIter, newArray, hn, writeN_fresh h (xs.take n) hl.le, hl]

/-- The copy constructor gives a valid array no storage when it is empty, else a fresh block
holding its elements. -/
theorem copyFrom_eq [Inhabited α] {h : Heap α} {a : FixedArray} (hv : Valid h a) :
    copyFrom h a = .ok (if a.size = 0 then (⟨0, none⟩, h)
      else (⟨a.size, some h.length⟩, h ++ [some (contents h a)])) := by
  have hl := length_contents hv
  by_cases h0 : a.size = 0
  · simp [copyFrom, copyN, readN, writeN, h0]
  · simp [copyFrom, copyN, newArray, h0, readN_of_valid (hv.append _), contents_append hv,
      writeN_fresh h _ hl.le, hl]

theorem clear_eq {h : Heap α} {a : FixedArray} (hv : Valid h a) :
    clear h a = .ok ({ a with size := 0 }, deleted h a.data) := by
  simp [clear, deleteArray_of_valid hv]

theorem moveAssign_eq {h : Heap α} {a : FixedArray} (hv : Valid h a) (rhs : FixedArray) :
    moveAssign h a rhs = .ok (⟨rhs.size, rhs.data⟩, empty, deleted h a.data) := by
  simp [moveAssign, clear_eq hv]

/-- The copy assignment between valid arrays: with `rhs` longer than `*this`, `copy_n` writes
past the end of the new buffer. Otherwise the buffer holds `rhs`'s elements and the old storage
is deleted; without storage in `rhs`, `*this` keeps its deleted pointer and the buffer is lost. -/
theorem copyAssign_eq [Inhabited α] {h : Heap α} {a rhs : FixedArray} (hv : Valid h a)
    (hr : Valid h rhs) :
    copyAssign h a rhs = if a.size < rhs.size then .error (.outOfBounds h.length) else
      .ok (if rhs.data = none then ⟨0, a.data⟩ else ⟨rhs.size, some h.length⟩,
        deleted (h ++ [some (contents h rhs ++ (List.replicate a.size default).drop rhs.size)])
          a.data) := by
  have hl := length_contents hr
  have hrd := readN_of_valid (hr.append [some (List.replicate a.size default)])
  rw [contents_append hr] at hrd
  by_cases hlt : a.size < rhs.size
  · have h0 : rhs.size ≠ 0 := by omega
    simp [copyAssign, copyN, newArray, hrd, writeN, block, hl, hlt, h0, Nat.not_le.mpr hlt]
  · have hwr := writeN_fresh h (contents h rhs) (n := a.size) (by omega)
    rw [hl] at hwr
    by_cases hn : rhs.data = none
    · rw [hn] at hrd
      simp [copyAssign, copyN, newArray, hrd, hwr, clear_eq (hv.append _), hlt, hn]
    · simp [copyAssign, copyN, newArray, hrd, hwr, clear_eq (hv.append _), hlt, hn]

end State

end FunctionQueue.Storage
