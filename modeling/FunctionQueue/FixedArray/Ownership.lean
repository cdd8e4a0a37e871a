import FunctionQueue.FixedArray.Members

/-!
A program's `fixed_array` objects over one free store. The program constructs arrays (each new
object goes at the end of `objs`), copies and moves them, assigns one to another, clears one,
writes an element, and destroys one; `World.step` runs one of these with the member functions
of `FunctionQueue.Storage`.

`Owns` is the ownership discipline the class is written for: every live object has no storage
and size zero, or a block of at least `m_size` allocated cells, and every allocated block has
exactly one owner. `absStep` says what the operations are for, value semantics: each object is
a list of elements, a copy is a new list, a move hands the list over and leaves the source
empty. `safe_runs_refine_values` shows that from an empty program every run of operations that
`safe` accepts at each step never faults, keeps `Owns`, and holds the values `absRun` predicts;
when every object is destroyed, no block is left allocated.

`safe` excludes exactly what the members get wrong: `clear()` of an array with storage, whose
`m_data` is then left pointing at the deleted block; the copy assignment from an array longer
than the target or without storage; and writes outside the block. `safe_iff_keeps_ownership`
shows that it excludes nothing else: from every state `Owns` allows, `safe` accepts an
operation exactly when it succeeds and keeps `Owns`.
-/

namespace FunctionQueue.Storage

/-- The free store and the program's `fixed_array` objects, `none` outside their lifetime. -/
structure World (α : Type) where
  heap : Heap α
  objs : List (Option FixedArray)

/-- What a program does with its arrays: construct an object with `fixed_array a(n)`,
`fixed_array a(n, v)`, `fixed_array a(first, last)` or `fixed_array a(first, n)` over the input
`xs`, `fixed_array a(objs[i])` or `fixed_array a(std::move(objs[i]))`; assign with
`objs[i] = objs[j]` or `objs[i] = std::move(objs[j])`; call `objs[i].clear()`; write
`objs[i][pos] = v`; or end `objs[i]`'s lifetime with `~fixed_array()`. -/
inductive Op (α : Type)
  | make (n : Nat)
  | fill (n : Nat) (v : α)
  | range (xs : List α)
  | iter (xs : List α) (n : Nat)
  | copy (i : Nat)
  | move (i : Nat)
  | copyAssign (i j : Nat)
  | moveAssign (i j : Nat)
  | clear (i : Nat)
  | store (i pos : Nat) (v : α)
  | destroy (i : Nat)

namespace World

variable {α : Type}

def init : World α := ⟨[], []⟩

/-- Object `i`, if it is alive. -/
def obj (w : World α) (i : Nat) : Except Fault FixedArray :=
  match w.objs[i]? with
  | some (some a) => .ok a
  | _ => .error (.deadObject i)

def push (objs : List (Option FixedArray)) (a : FixedArray) : List (Option FixedArray) :=
  objs ++ [some a]

/-- One operation, through the member functions. Self-assignments are no-ops, as the
`this != &rhs` tests make them. -/
def step [Inhabited α] (w : World α) : Op α → Except Fault (World α)
  | .make n =>
    let (a, h) := ofSize w.heap n
    .ok ⟨h, push w.objs a⟩
  | .fill n v => do
    let (a, h) ← ofSizeValue w.heap n v
    pure ⟨h, push w.objs a⟩
  | .range xs => do
    let (a, h) ← ofRange w.heap xs
    pure ⟨h, push w.objs a⟩
  | .iter xs n => do
    let (a, h) ← ofIter w.heap xs n
    pure ⟨h, push w.objs a⟩
  | .copy i => do
    let (a, h) ← copyFrom w.heap (← w.obj i)
    pure ⟨h, push w.objs a⟩
  | .move i => do
    let (a, o) := moveFrom (← w.obj i)
    pure ⟨w.heap, push (w.objs.set i (some o)) a⟩
  | .copyAssign i j => do
    let a ← w.obj i
    let c ← w.obj j
    if i = j then pure w else
    let (a, h) ← copyAssign w.heap a c
    pure ⟨h, w.objs.set i (some a)⟩
  | .moveAssign i j => do
    let a ← w.obj i
    let c ← w.obj j
    if i = j then pure w else
    let (a, c, h) ← moveAssign w.heap a c
    pure ⟨h, (w.objs.set i (some a)).set j (some c)⟩
  | .clear i => do
    let (a, h) ← clear w.heap (← w.obj i)
    pure ⟨h, w.objs.set i (some a)⟩
  | .store i pos v => do
    let h ← store w.heap (← w.obj i) pos v
    pure ⟨h, w.objs⟩
  | .destroy i => do
    let h ← destroy w.heap (← w.obj i)
    pure ⟨h, w.objs.set i none⟩

/-- Runs the operations in order, stopping at the first fault. -/
def run [Inhabited α] (w : World α) : List (Op α) → Except Fault (World α)
  | [] => .ok w
  | op :: ops => do run (← w.step op) ops

/-- The operations the ownership discipline allows: on live objects, no `clear()` of an array
with storage, a copy assignment only from a distinct array with storage and no longer than the
target, a write inside the block, and an input range as long as `copy_n` reads. -/
def safe (w : World α) : Op α → Bool
  | .make _ | .fill _ _ | .range _ => true
  | .iter xs n => n ≤ xs.length
  | .copy i | .move i | .destroy i => (w.objs[i]?.join).isSome
  | .copyAssign i j =>
    match w.objs[i]?.join, w.objs[j]?.join with
    | some a, some c => i = j || (c.data.isSome && c.size ≤ a.size)
    | _, _ => false
  | .moveAssign i j => (w.objs[i]?.join).isSome && (w.objs[j]?.join).isSome
  | .clear i =>
    match w.objs[i]?.join with
    | some a => a.data.isNone
    | none => false
  | .store i pos _ =>
    match w.objs[i]?.join with
    | some a =>
      match a.data with
      | some b =>
        match w.heap[b]? with
        | some (some xs) => pos < xs.length
        | _ => false
      | none => false
    | none => false

/-- Every operation of the run is `safe` in the world the run has reached. -/
def safeRun [Inhabited α] : World α → List (Op α) → Bool
  | _, [] => true
  | w, op :: ops =>
    w.safe op &&
      match w.step op with
      | .ok w' => safeRun w' ops
      | .error _ => true

/-- Each object's elements. -/
def view (w : World α) : List (Option (List α)) :=
  w.objs.map (Option.map (contents w.heap))

end World

/-! ### What the operations are for -/

section Abstract

variable {α : Type}

/-- Value semantics: each live object holds a list of elements. -/
def absStep [Inhabited α] (v : List (Option (List α))) : Op α → List (Option (List α))
  | .make n => v ++ [some (List.replicate n default)]
  | .fill n x => v ++ [some (List.replicate n x)]
  | .range xs => v ++ [some xs]
  | .iter xs n => v ++ [some (xs.take n)]
  | .copy i => v ++ [v[i]?.join]
  | .move i => v.set i (some []) ++ [v[i]?.join]
  | .copyAssign i j => v.set i (v[j]?.join)
  | .moveAssign i j => if i = j then v else (v.set i (v[j]?.join)).set j (some [])
  | .clear i => v.set i (some [])
  | .store i pos x => v.set i ((v[i]?.join).map (·.set pos x))
  | .destroy i => v.set i none

def absRun [Inhabited α] (v : List (Option (List α))) (ops : List (Op α)) :
    List (Option (List α)) :=
  ops.foldl absStep v

end Abstract

/-! ### Ownership -/

section Owns

variable {α : Type}

def ownsBlock (b : Nat) (o : Option FixedArray) : Bool :=
  o.bind FixedArray.data == some b

def liveBlock (h : Heap α) (b : Nat) : Bool :=
  match h[b]? with
  | some (some _) => true
  | _ => false

/-- The ownership discipline: every live object agrees with the store, and every allocated
block has exactly one owner. -/
structure Owns (w : World α) : Prop where
  valid : ∀ {i : Nat} {a : FixedArray}, w.objs[i]? = some (some a) → Valid w.heap a
  owners : ∀ b, w.objs.countP (ownsBlock b) = if liveBlock w.heap b then 1 else 0

@[simp] theorem ownsBlock_none (b : Nat) : ownsBlock b none = false := rfl

@[simp] theorem ownsBlock_some (b : Nat) (a : FixedArray) :
    ownsBlock b (some a) = (a.data == some b) := rfl

@[simp] theorem ownsBlock_empty (b : Nat) : ownsBlock b (some empty) = false := rfl

@[simp] theorem empty_data : empty.data = none := rfl

theorem liveBlock_append_fresh (h : Heap α) (xs : List α) (b : Nat) :
    liveBlock (h ++ [some xs]) b = (liveBlock h b || b == h.length) := by
  rcases Nat.lt_trichotomy b h.length with hb | rfl | hb
  · simp [liveBlock, List.getElem?_append_left hb, Nat.ne_of_lt hb]
  · simp [liveBlock]
  · simp [liveBlock, List.getElem?_eq_none (show h.length ≤ b by omega),
      List.getElem?_eq_none (show (h ++ [some xs]).length ≤ b by simp; omega), Nat.ne_of_gt hb]

theorem liveBlock_set_none (h : Heap α) (b b' : Nat) :
    liveBlock (h.set b' none) b = (b' != b && liveBlock h b) := by
  by_cases hb : b' = b
  · subst hb; simp [liveBlock, List.getElem?_set]
  · simp [liveBlock, List.getElem?_set_ne hb, hb]

theorem liveBlock_of_valid {h : Heap α} {a : FixedArray} {b : Nat} (hv : Valid h a)
    (hb : a.data = some b) : liveBlock h b = true := by
  simp only [Valid, hb] at hv
  obtain ⟨xs, hxs, -⟩ := hv
  simp [liveBlock, hxs]

theorem countP_set_add {β : Type} (p : β → Bool) {l : List β} {i : Nat} {x : β} (y : β)
    (h : l[i]? = some x) :
    (l.set i y).countP p + (if p x then 1 else 0) = l.countP p + (if p y then 1 else 0) := by
  obtain ⟨hlt, hx⟩ := List.getElem?_eq_some_iff.mp h
  have hle := List.boole_getElem_le_countP p l i hlt
  rw [List.countP_set p l i y hlt, hx]
  rw [hx] at hle
  omega

variable {w : World α}

namespace Owns

/-- A block has one owner. -/
theorem eq_of_owns (hw : Owns w) {i k : Nat} {a c : FixedArray} {b : Nat}
    (hi : w.objs[i]? = some (some a)) (hk : w.objs[k]? = some (some c)) (ha : a.data = some b)
    (hc : c.data = some b) : k = i := by
  by_contra hne
  have hset := countP_set_add (ownsBlock b) none hi
  have hpos : 0 < (w.objs.set i none).countP (ownsBlock b) :=
    List.countP_pos_iff.mpr ⟨some c, List.getElem?_mem (by rw [List.getElem?_set_ne (Ne.symm hne)]; exact hk),
      by simp [hc]⟩
  have := hw.owners b
  rw [liveBlock_of_valid (hw.valid hi) ha] at this
  simp only [ownsBlock_some, ha, beq_self_eq_true, ↓reduceIte, ownsBlock_none,
    Bool.false_eq_true] at hset this
  omega

/-- No object owns the block a fresh `new[]` is about to return. -/
theorem not_owns_length (hw : Owns w) :
    ∀ o ∈ w.objs, ownsBlock w.heap.length o = false := by
  have := hw.owners w.heap.length
  simp only [liveBlock, List.getElem?_eq_none (Nat.le_refl _), Bool.false_eq_true, ↓reduceIte,
    List.countP_eq_zero] at this
  exact fun o ho => by simpa using this o ho

end Owns

theorem owns_init : Owns (World.init : World α) :=
  ⟨fun h => by simp [World.init] at h, fun b => by simp [World.init, liveBlock]⟩

end Owns


/-! ### Frames -/

section Frames

variable {α : Type} {h : Heap α} {a c : FixedArray} {b : Nat}

theorem valid_set_of_ne (hv : Valid h a) (hb : a.data ≠ some b) (y : Option (List α)) :
    Valid (h.set b y) a := by
  cases hd : a.data with
  | none => simpa only [Valid, hd] using hv
  | some b' =>
    have hne : b ≠ b' := fun e => hb (by rw [hd, e])
    simpa only [Valid, hd, List.getElem?_set_ne hne] using hv

theorem contents_set_of_ne (hb : a.data ≠ some b) (y : Option (List α)) :
    contents (h.set b y) a = contents h a := by
  cases hd : a.data with
  | none => simp [contents, hd]
  | some b' =>
    have hne : b ≠ b' := fun e => hb (by rw [hd, e])
    simp [contents, hd, List.getElem?_set_ne hne]

/-- Deleting `a`'s storage leaves every array that does not share it as it was. -/
theorem valid_deleted (hv : Valid h c) (hne : ∀ b, a.data = some b → c.data ≠ some b) :
    Valid (deleted h a.data) c := by
  cases hd : a.data with
  | none => exact hv
  | some b => exact valid_set_of_ne hv (hne b hd) none

theorem contents_deleted (hne : ∀ b, a.data = some b → c.data ≠ some b) :
    contents (deleted h a.data) c = contents h c := by
  cases hd : a.data with
  | none => rfl
  | some b => exact contents_set_of_ne (hne b hd) none

end Frames

/-! ### One lemma per kind of operation -/

section Steps

variable {α : Type} {w : World α} {i j : Nat} {a c : FixedArray}

theorem getElem?_push_of_lt {objs : List (Option FixedArray)} {k : Nat} (x : FixedArray)
    (hk : k < objs.length) : (World.push objs x)[k]? = objs[k]? :=
  List.getElem?_append_left hk

theorem getElem?_push_eq_some {objs : List (Option FixedArray)} {k : Nat} {x : FixedArray}
    {o : Option FixedArray} (hk : (World.push objs x)[k]? = some o) :
    objs[k]? = some o ∨ (k = objs.length ∧ o = some x) := by
  rcases Nat.lt_or_ge k objs.length with hlt | hge
  · exact .inl (by rwa [getElem?_push_of_lt x hlt] at hk)
  · rw [World.push, List.getElem?_append_right hge] at hk
    rcases hk0 : k - objs.length with _ | m
    · simp only [hk0, List.getElem?_cons_zero, Option.some.injEq] at hk
      exact .inr ⟨by omega, hk.symm⟩
    · simp [hk0] at hk

theorem countP_push (p : Option FixedArray → Bool) (objs : List (Option FixedArray))
    (x : FixedArray) :
    (World.push objs x).countP p = objs.countP p + if p (some x) then 1 else 0 := by
  simp [World.push, List.countP_cons]

namespace Owns

/-- Object `k` does not own `i`'s block. -/
theorem data_ne (hw : Owns w) (hi : w.objs[i]? = some (some a)) {k : Nat}
    (hk : w.objs[k]? = some (some c)) (hki : k ≠ i) : ∀ b, a.data = some b → c.data ≠ some b :=
  fun _ ha hc => hki (hw.eq_of_owns hi hk ha hc)

/-- A constructor's new object owns the block `new[]` has just returned. -/
theorem pushFresh (hw : Owns w) (xs : List α) {n : Nat} (hn : n ≤ xs.length) :
    Owns ⟨w.heap ++ [some xs], World.push w.objs ⟨n, some w.heap.length⟩⟩ := by
  constructor
  · intro k o hk
    rcases getElem?_push_eq_some hk with hk | ⟨-, ho⟩
    · exact (hw.valid hk).append _
    · cases ho
      exact ⟨xs, by simp, hn⟩
  · intro b
    have h₀ := hw.owners b
    rw [countP_push, liveBlock_append_fresh]
    by_cases hb : b = w.heap.length
    · subst hb
      have hz : w.objs.countP (ownsBlock w.heap.length) = 0 :=
        List.countP_eq_zero.mpr fun o ho => by simp [hw.not_owns_length o ho]
      simp [hz]
    · simp [hb, Ne.symm hb, h₀]

/-- The copy of an empty array is a new object without storage. -/
theorem pushEmpty (hw : Owns w) : Owns ⟨w.heap, World.push w.objs empty⟩ := by
  constructor
  · intro k o hk
    rcases getElem?_push_eq_some hk with hk | ⟨-, ho⟩
    · exact hw.valid hk
    · cases ho; rfl
  · intro b
    rw [countP_push]
    simpa [empty] using hw.owners b

/-- The move constructor hands `i`'s storage to the new object and leaves `i` empty. -/
theorem move (hw : Owns w) (hi : w.objs[i]? = some (some a)) :
    Owns ⟨w.heap, World.push (w.objs.set i (some empty)) a⟩ := by
  constructor
  · intro k o hk
    rcases getElem?_push_eq_some hk with hk | ⟨-, ho⟩
    · rw [List.getElem?_set] at hk
      split at hk
      · split at hk <;> cases hk; rfl
      · exact hw.valid hk
    · cases ho; exact hw.valid hi
  · intro b
    have hset := countP_set_add (ownsBlock b) (some empty) hi
    rw [countP_push, ← hw.owners b]
    simp only [ownsBlock_some, empty_data, beq_iff_eq, reduceCtorEq, Bool.false_eq_true,
      ↓reduceIte, Nat.add_zero] at hset ⊢
    omega

/-- A write inside `i`'s block changes no length and no owner. -/
theorem store (hw : Owns w) {b : Nat} {xs ys : List α} (hxs : w.heap[b]? = some (some xs))
    (hl : ys.length = xs.length) :
    Owns ⟨w.heap.set b (some ys), w.objs⟩ := by
  constructor
  · intro k c hk
    by_cases hc : c.data = some b
    · have hv := hw.valid hk
      simp only [Valid, hc, List.getElem?_set_self (List.getElem?_eq_some_iff.mp hxs).1,
        Option.some.injEq, exists_eq_left', hl] at hv ⊢
      obtain ⟨xs', hxs', hle⟩ := hv
      rw [hxs, Option.some.injEq, Option.some.injEq] at hxs'
      exact hxs' ▸ hle
    · exact valid_set_of_ne (hw.valid hk) hc _
  · intro b'
    rw [hw.owners b']
    by_cases e : b = b'
    · subst e
      simp [liveBlock, hxs, List.getElem?_set_self (List.getElem?_eq_some_iff.mp hxs).1]
    · simp [liveBlock, List.getElem?_set_ne e]

/-- The destructor deletes `i`'s storage and ends `i`. -/
theorem destroy (hw : Owns w) (hi : w.objs[i]? = some (some a)) :
    Owns ⟨deleted w.heap a.data, w.objs.set i none⟩ := by
  constructor
  · intro k c hk
    rw [List.getElem?_set] at hk
    split at hk
    · split at hk <;> cases hk
    · exact valid_deleted (hw.valid hk) (hw.data_ne hi hk (Ne.symm ‹_›))
  · intro b'
    have hset := countP_set_add (ownsBlock b') none hi
    have h₀ := hw.owners b'
    cases hd : a.data with
    | none =>
      simp [hd] at hset
      simpa [deleted, hset] using h₀
    | some b =>
      have hlive := liveBlock_of_valid (hw.valid hi) hd
      by_cases e : b = b'
      · subst e
        simp [hd, hlive] at hset h₀
        simp only [deleted, liveBlock_set_none, bne_self_eq_false, Bool.false_and,
          Bool.false_eq_true, ↓reduceIte]
        omega
      · simp [hd, e] at hset
        simp [deleted, liveBlock_set_none, e, hset, h₀]


/-- Object `j`'s storage goes to the dead slot `i`, and `j` is left empty. -/
theorem transfer (hw : Owns w) (hi : w.objs[i]? = some none) (hj : w.objs[j]? = some (some c))
    (hij : i ≠ j) : Owns ⟨w.heap, (w.objs.set i (some c)).set j (some empty)⟩ := by
  have hj' : (w.objs.set i (some c))[j]? = some (some c) := by
    rw [List.getElem?_set_ne hij]; exact hj
  constructor
  · intro k o hk
    simp only [List.getElem?_set] at hk
    split at hk
    · split at hk <;> cases hk; rfl
    · split at hk
      · split at hk <;> cases hk; exact hw.valid hj
      · exact hw.valid hk
  · intro b
    have h₁ := countP_set_add (ownsBlock b) (some c) hi
    have h₂ := countP_set_add (ownsBlock b) (some empty) hj'
    have h₀ := hw.owners b
    simp only [ownsBlock_none, ownsBlock_some, empty_data, Bool.false_eq_true, ↓reduceIte,
      beq_iff_eq, reduceCtorEq, Nat.add_zero] at h₁ h₂
    simp only
    omega

/-- A fresh block goes to the dead slot `i`. -/
theorem placeFresh (hw : Owns w) (hi : w.objs[i]? = some none) (xs : List α) {n : Nat}
    (hn : n ≤ xs.length) :
    Owns ⟨w.heap ++ [some xs], w.objs.set i (some ⟨n, some w.heap.length⟩)⟩ := by
  constructor
  · intro k o hk
    rw [List.getElem?_set] at hk
    split at hk
    · split at hk <;> cases hk
      exact ⟨xs, by simp, hn⟩
    · exact (hw.valid hk).append _
  · intro b
    have h₁ := countP_set_add (ownsBlock b) (some ⟨n, some w.heap.length⟩) hi
    have h₀ := hw.owners b
    rw [liveBlock_append_fresh]
    by_cases hb : b = w.heap.length
    · subst hb
      have hz : w.objs.countP (ownsBlock w.heap.length) = 0 :=
        List.countP_eq_zero.mpr fun o ho => by simp [hw.not_owns_length o ho]
      simp only [ownsBlock_none, ownsBlock_some, Bool.false_eq_true, ↓reduceIte, beq_self_eq_true,
        hz] at h₁
      simp only [beq_self_eq_true, Bool.or_true, ↓reduceIte]
      omega
    · simp only [ownsBlock_none, ownsBlock_some, Bool.false_eq_true, ↓reduceIte, beq_iff_eq,
        Option.some.injEq, Ne.symm hb, Nat.add_zero] at h₁
      rw [h₁, h₀]
      simp [hb]

/-- The move assignment deletes `i`'s storage, hands `j`'s to `i`, and leaves `j` empty. -/
theorem moveAssign (hw : Owns w) (hi : w.objs[i]? = some (some a))
    (hj : w.objs[j]? = some (some c)) (hij : i ≠ j) :
    Owns ⟨deleted w.heap a.data, (w.objs.set i (some c)).set j (some empty)⟩ := by
  have hd := hw.destroy hi
  have hi' : (w.objs.set i none)[i]? = some none :=
    List.getElem?_set_self (List.getElem?_eq_some_iff.mp hi).1
  have hj' : (w.objs.set i none)[j]? = some (some c) := by
    rw [List.getElem?_set_ne hij]; exact hj
  simpa only [List.set_set] using hd.transfer hi' hj' hij

/-- The copy assignment from a distinct array with storage deletes `i`'s storage and gives `i`
the new buffer. -/
theorem copyAssign (hw : Owns w) (hi : w.objs[i]? = some (some a)) (xs : List α) {n : Nat}
    (hn : n ≤ xs.length) :
    Owns ⟨deleted (w.heap ++ [some xs]) a.data, w.objs.set i (some ⟨n, some w.heap.length⟩)⟩ := by
  have hd := hw.destroy hi
  have hi' : (w.objs.set i none)[i]? = some none :=
    List.getElem?_set_self (List.getElem?_eq_some_iff.mp hi).1
  have hf := hd.placeFresh hi' xs hn
  have hlen : (deleted w.heap a.data).length = w.heap.length := by
    cases a.data <;> simp [deleted]
  have hheap : deleted (w.heap ++ [some xs]) a.data = deleted w.heap a.data ++ [some xs] := by
    cases hb : a.data with
    | none => rfl
    | some b =>
      have hv := hw.valid hi
      simp only [Valid, hb] at hv
      obtain ⟨ys, hys, -⟩ := hv
      simp [deleted, List.set_append_left _ _ (List.getElem?_eq_some_iff.mp hys).1]
  rw [hheap]
  simpa only [hlen, List.set_set] using hf

end Owns

end Steps


/-! ### The elements each kind of operation leaves -/

section Views

variable {α : Type} {w : World α} {i j : Nat} {a c : FixedArray}

theorem Owns.valid_of_mem (hw : Owns w) (h : some a ∈ w.objs) : Valid w.heap a :=
  let ⟨_, hk⟩ := List.getElem?_of_mem h
  hw.valid hk

theorem Owns.map_contents_append (hw : Owns w) (ys : Heap α) :
    w.objs.map (Option.map (contents (w.heap ++ ys))) = w.view :=
  List.map_congr_left fun o ho => by
    cases o with
    | none => rfl
    | some a => simp [contents_append (hw.valid_of_mem ho)]

/-- Deleting `i`'s storage changes no other object's elements. -/
theorem Owns.getElem?_deleted (hw : Owns w) (hi : w.objs[i]? = some (some a)) {k : Nat}
    (hki : k ≠ i) :
    w.objs[k]?.map (Option.map (contents (deleted w.heap a.data))) =
      w.objs[k]?.map (Option.map (contents w.heap)) := by
  match hk : w.objs[k]? with
  | none => rfl
  | some none => rfl
  | some (some c) => simp [contents_deleted (hw.data_ne hi hk hki)]

theorem Owns.view_pushFresh (hw : Owns w) (xs : List α) (n : Nat) :
    World.view ⟨w.heap ++ [some xs], World.push w.objs ⟨n, some w.heap.length⟩⟩ =
      w.view ++ [some (xs.take n)] := by
  simp [World.view, World.push, hw.map_contents_append, contents]

theorem view_pushEmpty : World.view ⟨w.heap, World.push w.objs empty⟩ = w.view ++ [some []] := by
  simp [World.view, World.push]

theorem view_move :
    World.view ⟨w.heap, World.push (w.objs.set i (some empty)) a⟩ =
      w.view.set i (some []) ++ [some (contents w.heap a)] := by
  simp [World.view, World.push]

theorem Owns.view_store (hw : Owns w) (hi : w.objs[i]? = some (some a)) {b : Nat}
    (hb : a.data = some b) (y : Option (List α)) :
    World.view ⟨w.heap.set b y, w.objs⟩ = w.view.set i (some (contents (w.heap.set b y) a)) := by
  have hlt := (List.getElem?_eq_some_iff.mp hi).1
  refine List.ext_getElem? fun k => ?_
  simp only [World.view, List.getElem?_map, List.getElem?_set, List.length_map]
  split
  · subst i; simp [hi, hlt]
  · match hk : w.objs[k]? with
    | none => rfl
    | some none => rfl
    | some (some c) =>
      simp [contents_set_of_ne (fun hc => ‹¬i = k› (hw.eq_of_owns hi hk hb hc).symm)]

theorem Owns.view_destroy (hw : Owns w) (hi : w.objs[i]? = some (some a)) :
    World.view ⟨deleted w.heap a.data, w.objs.set i none⟩ = w.view.set i none := by
  have hlt := (List.getElem?_eq_some_iff.mp hi).1
  refine List.ext_getElem? fun k => ?_
  simp only [World.view, List.getElem?_map, List.getElem?_set, List.length_map]
  split
  · simp [hlt]
  · exact hw.getElem?_deleted hi (Ne.symm ‹_›)

theorem Owns.view_moveAssign (hw : Owns w) (hi : w.objs[i]? = some (some a))
    (hj : w.objs[j]? = some (some c)) (hij : i ≠ j) :
    World.view ⟨deleted w.heap a.data, (w.objs.set i (some c)).set j (some empty)⟩ =
      (w.view.set i (some (contents w.heap c))).set j (some []) := by
  have hlt := (List.getElem?_eq_some_iff.mp hi).1
  have hjlt := (List.getElem?_eq_some_iff.mp hj).1
  refine List.ext_getElem? fun k => ?_
  simp only [World.view, List.getElem?_map, List.getElem?_set, List.length_map, List.length_set]
  split
  · simp [hjlt]
  · split
    · simp [hlt, contents_deleted (hw.data_ne hi hj (Ne.symm hij))]
    · exact hw.getElem?_deleted hi (Ne.symm ‹_›)

theorem Owns.view_copyAssign (hw : Owns w) (hi : w.objs[i]? = some (some a)) (xs : List α)
    (n : Nat) :
    World.view ⟨deleted (w.heap ++ [some xs]) a.data, w.objs.set i (some ⟨n, some w.heap.length⟩)⟩ =
      w.view.set i (some (xs.take n)) := by
  have hlt := (List.getElem?_eq_some_iff.mp hi).1
  have hv := hw.valid hi
  have hne : ∀ b, a.data = some b → (⟨n, some w.heap.length⟩ : FixedArray).data ≠ some b := by
    intro b hb e
    simp only [Valid, hb] at hv
    obtain ⟨ys, hys, -⟩ := hv
    cases e
    simp [List.getElem?_eq_none] at hys
  refine List.ext_getElem? fun k => ?_
  simp only [World.view, List.getElem?_map, List.getElem?_set, List.length_map]
  split
  · simp only [hlt, ↓reduceIte, Option.map_some', contents_deleted hne]
    simp [contents]
  · match hk : w.objs[k]? with
    | none => rfl
    | some none => rfl
    | some (some c) =>
      simp only [Option.map_some']
      rw [contents_deleted (hw.data_ne hi hk (Ne.symm ‹_›)),
        contents_append (hw.valid hk)]

end Views


/-! ### Steps and runs -/

section Runs

variable {α : Type} {w : World α} {i : Nat} {a : FixedArray}

theorem set_eq_of_getElem? {β : Type} {l : List β} {k : Nat} {x : β} (h : l[k]? = some x) :
    l.set k x = l :=
  List.ext_getElem? fun j => by
    rw [List.getElem?_set]
    split
    · subst k; simp [h, (List.getElem?_eq_some_iff.mp h).1]
    · rfl

theorem World.obj_eq (hi : w.objs[i]? = some (some a)) : w.obj i = .ok a := by
  simp [World.obj, hi]

theorem World.getElem?_of_obj (h : w.obj i = .ok a) : w.objs[i]? = some (some a) := by
  unfold World.obj at h
  split at h
  · cases h; assumption
  · cases h

theorem World.getElem?_view (hi : w.objs[i]? = some (some a)) :
    w.view[i]? = some (some (contents w.heap a)) := by
  simp [World.view, hi]

theorem getElem?_of_join {o : Option (Option FixedArray)} (h : o.join.isSome = true) :
    ∃ a, o = some (some a) := by
  obtain ⟨a, ha⟩ := Option.isSome_iff_exists.mp h
  exact ⟨a, Option.join_eq_some.mp ha⟩

/-- With every object destroyed, no block is left allocated. -/
theorem Owns.no_leak (hw : Owns w) (hd : w.objs.all Option.isNone = true) (b : Nat) :
    liveBlock w.heap b = false := by
  have h₀ := hw.owners b
  have hz : w.objs.countP (ownsBlock b) = 0 :=
    List.countP_eq_zero.mpr fun o ho => by
      rw [List.all_eq_true.mp hd o ho |> Option.isNone_iff_eq_none.mp]
      simp
  rw [hz] at h₀
  split at h₀ <;> simp_all

variable [Inhabited α]

/-- One operation that `safe` accepts never faults, keeps `Owns`, and changes each object's
elements as `absStep` does. -/
theorem Owns.step (hw : Owns w) {op : Op α} (hs : w.safe op = true) :
    ∃ w', w.step op = .ok w' ∧ Owns w' ∧ w'.view = absStep w.view op := by
  cases op with
  | make n =>
    refine ⟨_, rfl, hw.pushFresh _ (List.length_replicate n default).ge, ?_⟩
    simpa using hw.view_pushFresh (List.replicate n default) n
  | fill n v =>
    refine ⟨_, by simp [World.step, ofSizeValue_eq], hw.pushFresh _
      (List.length_replicate n v).ge, ?_⟩
    simpa using hw.view_pushFresh (List.replicate n v) n
  | range xs =>
    refine ⟨_, ?_, hw.pushFresh xs le_rfl, ?_⟩
    · simp [World.step, ofRange, ofIter_eq]
    · simpa [absStep] using hw.view_pushFresh xs xs.length
  | iter xs n =>
    have hn : n ≤ xs.length := of_decide_eq_true hs
    have hl : (xs.take n).length = n := by rw [List.length_take]; omega
    refine ⟨_, by simp [World.step, ofIter_eq, Nat.not_lt.mpr hn], hw.pushFresh _ hl.ge, ?_⟩
    simpa [absStep, List.take_take] using hw.view_pushFresh (xs.take n) n
  | copy i =>
    obtain ⟨a, hi⟩ := getElem?_of_join hs
    have hv := hw.valid hi
    have hl := length_contents hv
    by_cases h0 : a.size = 0
    · refine ⟨_, ?_, hw.pushEmpty, ?_⟩
      · simp [World.step, World.obj_eq hi, copyFrom_eq hv, h0, empty]
      · rw [h0, List.length_eq_zero] at hl
        simp [World.view, World.push, absStep, hi, hl]
    · refine ⟨_, ?_, hw.pushFresh _ hl.ge, ?_⟩
      · simp [World.step, World.obj_eq hi, copyFrom_eq hv, h0]
      have := hw.view_pushFresh (contents w.heap a) a.size
      rw [← hl, List.take_length, hl] at this
      simpa [absStep, World.getElem?_view hi] using this
  | move i =>
    obtain ⟨a, hi⟩ := getElem?_of_join hs
    refine ⟨_, by simp [World.step, World.obj_eq hi, moveFrom], hw.move hi, ?_⟩
    simp [view_move, absStep, World.getElem?_view hi]
  | copyAssign i j =>
    simp only [World.safe] at hs
    split at hs
    next a c hi hj =>
      obtain hi := Option.join_eq_some.mp hi
      obtain hj := Option.join_eq_some.mp hj
      by_cases hij : i = j
      · subst j
        refine ⟨w, by simp [World.step, World.obj_eq hi], hw, ?_⟩
        simp [absStep, World.getElem?_view hi, set_eq_of_getElem? (World.getElem?_view hi)]
      · simp only [hij, decide_False, Bool.false_or, Bool.and_eq_true, Option.isSome_iff_ne_none,
          decide_eq_true_eq] at hs
        have hl := length_contents (hw.valid hj)
        have hys : c.size ≤ (contents w.heap c ++
            (List.replicate a.size default).drop c.size).length := by simp [hl]
        refine ⟨_, by simp [World.step, World.obj_eq hi, World.obj_eq hj, hij,
          copyAssign_eq (hw.valid hi) (hw.valid hj), Nat.not_lt.mpr hs.2, hs.1],
          hw.copyAssign hi _ hys, ?_⟩
        rw [hw.view_copyAssign hi, List.take_left' hl]
        simp [absStep, World.getElem?_view hj]
    next => simp at hs
  | moveAssign i j =>
    obtain ⟨hi, hj⟩ := Bool.and_eq_true_iff.mp hs
    obtain ⟨a, hi⟩ := getElem?_of_join hi
    obtain ⟨c, hj⟩ := getElem?_of_join hj
    by_cases hij : i = j
    · subst j
      exact ⟨w, by simp [World.step, World.obj_eq hi], hw, by simp [absStep]⟩
    · refine ⟨_, by simp [World.step, World.obj_eq hi, World.obj_eq hj, hij,
        moveAssign_eq (hw.valid hi)], hw.moveAssign hi hj hij, ?_⟩
      simp [hw.view_moveAssign hi hj hij, absStep, hij, World.getElem?_view hj]
  | clear i =>
    simp only [World.safe] at hs
    split at hs
    next a hi =>
      obtain hi := Option.join_eq_some.mp hi
      have hd : a.data = none := by simpa using hs
      have hv := hw.valid hi
      simp only [Valid, hd] at hv
      obtain rfl : a = empty := by cases a; simp_all [empty]
      refine ⟨w, ?_, hw, ?_⟩
      · simp only [World.step, World.obj_eq hi, clear_eq (hw.valid hi), ok_bind, pure_eq_ok,
          deleted, empty_data]
        rw [show (⟨0, none⟩ : FixedArray) = empty from rfl, set_eq_of_getElem? hi]
      · rw [absStep, ← contents_empty w.heap, set_eq_of_getElem? (World.getElem?_view hi)]
    next => simp at hs
  | store i pos v =>
    simp only [World.safe] at hs
    split at hs
    next a hi =>
      obtain hi := Option.join_eq_some.mp hi
      split at hs
      next b hb =>
        split at hs
        next xs hxs =>
          have hpos : pos < xs.length := by simpa using hs
          refine ⟨_, ?_, hw.store hxs (List.length_set xs pos v), ?_⟩
          · simp [World.step, World.obj_eq hi, FunctionQueue.Storage.store, hb, block, hxs, hpos]
          rw [hw.view_store hi hb]
          simp [absStep, World.getElem?_view hi, contents, hb, hxs, List.set_take,
            List.getElem?_set_self (List.getElem?_eq_some_iff.mp hxs).1]
        next => simp at hs
      next => simp at hs
    next => simp at hs
  | destroy i =>
    obtain ⟨a, hi⟩ := getElem?_of_join hs
    refine ⟨_, ?_, hw.destroy hi, ?_⟩
    · simp [World.step, World.obj_eq hi, FunctionQueue.Storage.destroy, clear_eq (hw.valid hi)]
    · simp [hw.view_destroy hi, absStep]



/-- Every run that `safe` accepts at each step never faults, keeps `Owns`, and changes each
object's elements as `absRun` does. -/
theorem Owns.run (hw : Owns w) {ops : List (Op α)} (hs : w.safeRun ops = true) :
    ∃ w', w.run ops = .ok w' ∧ Owns w' ∧ w'.view = absRun w.view ops := by
  induction ops generalizing w with
  | nil => exact ⟨w, rfl, hw, rfl⟩
  | cons op ops ih =>
    simp only [World.safeRun, Bool.and_eq_true] at hs
    obtain ⟨w₁, h₁, hw₁, hv₁⟩ := hw.step hs.1
    rw [h₁] at hs
    obtain ⟨w', h', hw', hv'⟩ := ih hw₁ hs.2
    refine ⟨w', by simp [World.run, h₁, h'], hw', ?_⟩
    rw [hv', hv₁]
    rfl

/-- From the empty program, every run whose operations `safe` accepts never faults, keeps each
allocated block with exactly one owner and each object within its block, and gives each object
the elements value semantics predicts: a copy is a new list, a move hands the list over. Once
every object is destroyed, no block is left allocated. -/
theorem safe_runs_refine_values (ops : List (Op α)) (hs : World.init.safeRun ops = true) :
    ∃ w, World.init.run ops = .ok w ∧ Owns w ∧ w.view = absRun [] ops ∧
      (w.objs.all Option.isNone = true → ∀ b, liveBlock w.heap b = false) := by
  obtain ⟨w, hr, hw, hv⟩ := owns_init.run hs
  exact ⟨w, hr, hw, hv, hw.no_leak⟩

/-- Construction, a copy, an element write, a copy assignment, a move, a move assignment, a
`clear()` of an array without storage, and the end of every object. -/
def sampleOps : List (Op Nat) :=
  [.make 2, .fill 1 5, .copy 0, .store 2 0 7, .copyAssign 0 1, .move 2, .moveAssign 1 3,
    .clear 2, .destroy 0, .destroy 1, .destroy 2, .destroy 3]

theorem safe_runs_refine_values_sample :
    World.init.safeRun sampleOps = true ∧
      ∃ w, World.init.run sampleOps = .ok w ∧ Owns w ∧ w.view = absRun [] sampleOps ∧
        (w.objs.all Option.isNone = true → ∀ b, liveBlock w.heap b = false) :=
  ⟨rfl, safe_runs_refine_values sampleOps rfl⟩

/-- Reads agree with value semantics as well: after every run that `safe` accepts, `operator[]`
below an array's `size()` never faults and reads the element `absRun` predicts, and `front()`
and `back()` of a non-empty array read its first and last elements. -/
theorem safe_runs_read_values (ops : List (Op α)) (hs : World.init.safeRun ops = true) :
    ∃ w, World.init.run ops = .ok w ∧ ∀ (i : Nat) (a : FixedArray), w.objs[i]? = some (some a) →
      ∃ xs : List α, (absRun [] ops)[i]? = some (some xs) ∧ xs.length = a.size ∧
        (∀ pos, pos < a.size → (subscript w.heap a pos).toOption = xs[pos]?) ∧
        (0 < a.size → (front w.heap a).toOption = xs.head? ∧
          (back w.heap a).toOption = xs.getLast?) := by
  obtain ⟨w, hr, hw, hv⟩ := owns_init.run hs
  refine ⟨w, hr, fun i a hi => ⟨contents w.heap a, ?_, length_contents (hw.valid hi),
    fun _ hpos => subscript_of_valid (hw.valid hi) hpos, front_back_of_valid (hw.valid hi)⟩⟩
  exact (congrArg (·[i]?) hv).symm.trans (World.getElem?_view hi)

/-- The reads hold midway through `sampleOps`, before any object is destroyed. -/
theorem safe_runs_read_values_sample :
    World.init.safeRun (sampleOps.take 8) = true ∧
      ∃ w, World.init.run (sampleOps.take 8) = .ok w ∧
        ∀ (i : Nat) (a : FixedArray), w.objs[i]? = some (some a) →
          ∃ xs : List Nat, (absRun [] (sampleOps.take 8))[i]? = some (some xs) ∧
            xs.length = a.size ∧
            (∀ pos, pos < a.size → (subscript w.heap a pos).toOption = xs[pos]?) ∧
            (0 < a.size → (front w.heap a).toOption = xs.head? ∧
              (back w.heap a).toOption = xs.getLast?) :=
  ⟨rfl, safe_runs_read_values (sampleOps.take 8) rfl⟩

end Runs

/-! ### What `safe` excludes -/

section CopyAssign

variable {α : Type} [Inhabited α] {w w' : World α} {i j : Nat} {a c : FixedArray}

/-- Copy-assigning a longer array to a distinct one writes past the end of the buffer the
assignment has just allocated, which has the target's `m_size` cells. -/
theorem copy_assign_longer_overflows (hw : Owns w) (hi : w.objs[i]? = some (some a))
    (hj : w.objs[j]? = some (some c)) (hij : i ≠ j) (hlt : a.size < c.size) :
    w.step (.copyAssign i j) = .error (.outOfBounds w.heap.length) := by
  simp [World.step, World.obj_eq hi, World.obj_eq hj, hij,
    copyAssign_eq (hw.valid hi) (hw.valid hj), hlt]

/-- Copy-assigning an array without storage to a distinct one succeeds, but the buffer it
allocated stays allocated with no owner. -/
theorem copy_assign_from_empty_leaks (hw : Owns w) (hi : w.objs[i]? = some (some a))
    (hj : w.objs[j]? = some (some c)) (hij : i ≠ j) (hc : c.data = none) :
    ∃ w', w.step (.copyAssign i j) = .ok w' ∧ liveBlock w'.heap w.heap.length = true ∧
      w'.objs.countP (ownsBlock w.heap.length) = 0 := by
  have hv := hw.valid hi
  have hcs : c.size = 0 := by simpa [Valid, hc] using hw.valid hj
  have hlow : ∀ b, a.data = some b → b < w.heap.length := fun b hb => by
    simp only [Valid, hb] at hv
    obtain ⟨xs, hxs, -⟩ := hv
    exact (List.getElem?_eq_some_iff.mp hxs).1
  refine ⟨⟨deleted (w.heap ++ [some (contents w.heap c ++ List.replicate a.size default)]) a.data,
    w.objs.set i (some ⟨0, a.data⟩)⟩, ?_, ?_, ?_⟩
  · simp [World.step, World.obj_eq hi, World.obj_eq hj, hij, copyAssign_eq hv (hw.valid hj), hcs,
      hc]
  · cases hb : a.data with
    | none => simp [deleted, liveBlock]
    | some b => simp [deleted, liveBlock_set_none, liveBlock_append_fresh, Nat.ne_of_lt (hlow b hb)]
  · have h₁ := countP_set_add (ownsBlock w.heap.length) (some ⟨0, a.data⟩) hi
    have h₀ : w.objs.countP (ownsBlock w.heap.length) = 0 :=
      List.countP_eq_zero.mpr fun o ho => by simp [hw.not_owns_length o ho]
    have hna : (a.data == some w.heap.length) = false := by
      cases hb : a.data with
      | none => rfl
      | some b => simpa using Nat.ne_of_lt (hlow b hb)
    simp only [ownsBlock_some, hna, Bool.false_eq_true, ↓reduceIte, h₀] at h₁
    simpa using h₁

/-- An operation that succeeds and keeps the ownership discipline is one that `safe` accepts:
the members' defects (`clear()` of an array with storage, the copy assignment from a longer
array or from one without storage, a write past the block) each fault or break `Owns`. -/
theorem Owns.safe_of_keeps (hw : Owns w) {op : Op α} (h : w.step op = .ok w') (hw' : Owns w') :
    w.safe op = true := by
  cases op with
  | make | fill | range => rfl
  | iter xs n =>
    refine decide_eq_true (Nat.not_lt.mp fun hlt => ?_)
    simp [World.step, ofIter_eq, hlt] at h
  | copy i | move i | destroy i =>
    obtain ⟨a, ha, -⟩ := bind_eq_ok h
    simp [World.safe, World.getElem?_of_obj ha]
  | moveAssign i j =>
    obtain ⟨a, ha, h₁⟩ := bind_eq_ok h
    obtain ⟨c, hc, -⟩ := bind_eq_ok h₁
    simp [World.safe, World.getElem?_of_obj ha, World.getElem?_of_obj hc]
  | copyAssign i j =>
    obtain ⟨a, ha, h₁⟩ := bind_eq_ok h
    obtain ⟨c, hc, -⟩ := bind_eq_ok h₁
    have hi := World.getElem?_of_obj ha
    have hj := World.getElem?_of_obj hc
    simp [World.safe, hi, hj]
    by_cases hij : i = j
    · exact .inl hij
    refine .inr ⟨?_, Nat.not_lt.mp fun hlt => ?_⟩
    · cases hn : c.data with
      | some => rfl
      | none =>
        obtain ⟨w₁, h₂, hlive, hcount⟩ := copy_assign_from_empty_leaks hw hi hj hij hn
        rw [h₂, Except.ok.injEq] at h
        subst h
        have := hw'.owners w.heap.length
        rw [hcount, hlive] at this
        cases this
    · rw [copy_assign_longer_overflows hw hi hj hij hlt] at h
      cases h
  | clear i =>
    obtain ⟨a, ha, h₁⟩ := bind_eq_ok h
    have hi := World.getElem?_of_obj ha
    have hv := hw.valid hi
    simp only [World.safe, Option.join_eq_some.mpr hi]
    cases hb : a.data with
    | none => rfl
    | some b =>
      rw [clear_eq hv, ok_bind] at h₁
      cases h₁
      have hlt : b < w.heap.length := by
        simp only [Valid, hb] at hv
        obtain ⟨xs, hxs, -⟩ := hv
        exact (List.getElem?_eq_some_iff.mp hxs).1
      have hv' := hw'.valid (i := i) (List.getElem?_set_self (List.getElem?_eq_some_iff.mp hi).1)
      simp [Valid, hb, deleted, List.getElem?_set_self hlt] at hv'
  | store i pos v =>
    obtain ⟨a, ha, h₁⟩ := bind_eq_ok h
    have hi := World.getElem?_of_obj ha
    obtain ⟨h₂, hst, -⟩ := bind_eq_ok h₁
    cases hb : a.data with
    | none => simp [FunctionQueue.Storage.store, block, hb] at hst
    | some b =>
      obtain ⟨xs, hxs, -⟩ := by simpa only [Valid, hb] using hw.valid hi
      simp only [World.safe, Option.join_eq_some.mpr hi, hb, hxs]
      refine decide_eq_true (Nat.not_le.mp fun hle => ?_)
      simp [FunctionQueue.Storage.store, block, hb, hxs, Nat.not_lt.mpr hle] at hst

/-- From every state the ownership discipline allows, `safe` accepts an operation exactly when
the member functions carry it out without a fault and leave every allocated block with one
owner and every object within its block. -/
theorem safe_iff_keeps_ownership (hw : Owns w) (op : Op α) :
    w.safe op = true ↔ ∃ w', w.step op = .ok w' ∧ Owns w' :=
  ⟨fun hs => let ⟨w', h, hw', _⟩ := hw.step hs; ⟨w', h, hw'⟩,
    fun ⟨_, h, hw'⟩ => hw.safe_of_keeps h hw'⟩

/-- An array of one element and one without storage. -/
def oneAndEmpty : World Nat :=
  ⟨[some [0]], [some ⟨1, some 0⟩, some empty]⟩

theorem safe_iff_keeps_ownership_one_and_empty :
    Owns oneAndEmpty ∧
      ¬∃ w', oneAndEmpty.step (.copyAssign 0 1) = .ok w' ∧ Owns w' :=
  have hw : Owns oneAndEmpty := (owns_init.pushFresh [0] (n := 1) (by decide)).pushEmpty
  ⟨hw, fun h => absurd ((safe_iff_keeps_ownership hw (.copyAssign 0 1)).mpr h) (by decide)⟩

end CopyAssign

end FunctionQueue.Storage
