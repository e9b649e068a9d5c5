/-
Module: Netlist.Proofs.Guarded.Access
Layer: Proofs
Purpose: Operations that can fail. The definitions of compilation and simulation are total: a position
  outside of a table reads as a default, a difference stops at zero. The guarded operations have no
  result in such a case. A definition in which every access is guarded and which still agrees with the
  total one never leaves a table, never wraps around and never shifts by the width of a word. Here are the
  operations, and the rules by which guarded definitions are compared with total ones.
Imports: Netlist.Proofs.Word
Main exports: Guarded.store, Guarded.update, Guarded.splitOff, Guarded.add, Guarded.sub,
  Guarded.shiftLeft, Guarded.shiftRight, Guarded.mask, Guarded.fits, Guarded.bits, Guarded.addressSpace,
  Guarded.safe, Guarded.safe_bind_eq, Guarded.foldlM_eq_some
-/
import Netlist.Proofs.Word

namespace Netlist

namespace Guarded

/-!
### Operations

`store` and `update` guard the net table, the drivers and producers of nets, and the counters, consumers and
marks of gates; `splitOff` guards the trail of the walk that finds a cycle; `add` and `sub` guard the widths
of joined and extracted buses, and `sub` the counters; the shifts guard masks, address spaces, and joined and
extracted words. Reading at a position needs no operation of its own: `table[i]?` has no result outside of
the table.
-/

/-- A table with one entry replaced. The position has to be in the table. -/
def store {α : Type} (table : Array α) (i : Nat) (a : α) : Option (Array α) :=
  if i < table.size then some (table.setIfInBounds i a) else none

/-- A table with one entry changed. The position has to be in the table. -/
def update {α : Type} (table : Array α) (i : Nat) (f : α → α) : Option (Array α) :=
  if i < table.size then some (table.modify i f) else none

/-- The entries of a list from a position on. The position has to be in the list, or at its end. -/
def splitOff {α : Type} (l : List α) (i : Nat) : Option (List α) :=
  if i ≤ l.length then some (l.drop i) else none

/-- A sum that has to stay below 2³². -/
def add (m n : Nat) : Option Nat :=
  if m + n < UInt32.size then some (m + n) else none

/-- A difference that must not go below zero. -/
def sub (m n : Nat) : Option Nat :=
  if n ≤ m then some (m - n) else none

/-- A shift by less than the width of a word. -/
def shiftLeft (v : Word) (n : Nat) : Option Word :=
  if n < Word.maxWidth then some (v <<< n.toUInt64) else none

/-- A shift by less than the width of a word. -/
def shiftRight (v : Word) (n : Nat) : Option Word :=
  if n < Word.maxWidth then some (v >>> n.toUInt64) else none

def mask (width : Nat) : Option Word :=
  if Word.maxWidth ≤ width then some 0xFFFFFFFFFFFFFFFF
  else do
    let bit ← shiftLeft 1 width
    if 1 ≤ bit then some (bit - 1) else none

def fits (value : Word) (width : Nat) : Option Bool := do
  let mask ← mask width
  some (value &&& ~~~mask == 0)

def bits (value : Word) (low count : Nat) : Option Word :=
  if Word.maxWidth ≤ low then some 0
  else do
    let high ← shiftRight value low
    let mask ← mask count
    some (high &&& mask)

/-- The number of addresses of an address bus. -/
def addressSpace (addrWidth : Nat) : Option Nat :=
  if Word.maxWidth ≤ addrWidth then some Word.countLimit
  else do
    let count ← shiftLeft 1 addrWidth
    some count.toNat

section Operations

variable {α : Type} {table : Array α} {i : Nat}

theorem store_eq_some (h : i < table.size) (a : α) :
    store table i a = some (table.setIfInBounds i a) :=
  if_pos h

theorem update_eq_some (h : i < table.size) (f : α → α) :
    update table i f = some (table.modify i f) :=
  if_pos h

theorem add_eq_some {m n : Nat} (h : m + n < UInt32.size) : add m n = some (m + n) :=
  if_pos h

theorem sub_eq_some {m n : Nat} (h : n ≤ m) : sub m n = some (m - n) :=
  if_pos h

/-- An access that succeeded goes on with its result. -/
theorem bind_eq {β : Type} {o : Option α} {a : α} (h : o = some a) (g : α → Option β) :
    (o >>= g) = g a := by
  rw [h]
  rfl

/-- An entry of a table is the one that reading with a default gives. -/
theorem getElem?_eq_some_getD (h : i < table.size) (a : α) : table[i]? = some (table.getD i a) := by
  simp [h]

theorem shiftLeft_eq_some (v : Word) {n : Nat} (h : n < Word.maxWidth) :
    shiftLeft v n = some (v <<< n.toUInt64) :=
  if_pos h

theorem mask_eq_some (width : Nat) : mask width = some (Word.mask width) := by
  rw [mask, Word.mask]
  split
  · rfl
  · next hle =>
      have hlt : width < Word.maxWidth := Nat.not_le.1 hle
      rw [bind_eq (shiftLeft_eq_some 1 hlt), if_pos (Word.one_le_one_shiftLeft hlt)]

theorem addressSpace_eq_some (addrWidth : Nat) :
    addressSpace addrWidth = some (Word.addressSpace addrWidth) := by
  rw [addressSpace, Word.addressSpace]
  split
  · rfl
  · next hle =>
      have hlt : addrWidth < Word.maxWidth := Nat.not_le.1 hle
      rw [bind_eq (shiftLeft_eq_some 1 hlt), Word.toNat_one_shiftLeft hlt]
      rfl

theorem fits_eq_some (value : Word) (width : Nat) :
    fits value width = some (Word.fits value width) := by
  rw [fits, mask_eq_some]
  rfl

theorem bits_eq_some (value : Word) (low count : Nat) :
    bits value low count = some (Word.bits value low count) := by
  rw [bits, Word.bits, mask_eq_some]
  split
  · rfl
  · next hlt =>
      rw [shiftRight, if_pos (Nat.not_le.1 hlt)]
      rfl

end Operations

/-!
### Computations that report errors

An error of the program is an ordinary outcome. A guarded computation that reports errors has an outcome,
or none when an access failed.
-/

/-- The guarded computation in which nothing failed. -/
def safe {ε α : Type} (x : Except ε α) : ExceptT ε Option α :=
  ExceptT.mk (some x)

section Safe

variable {ε α β : Type}

@[simp] theorem pure_eq_safe (a : α) : (pure a : ExceptT ε Option α) = safe (.ok a) :=
  rfl

theorem safe_ok_bind (a : α) (g : α → ExceptT ε Option β) : safe (.ok a) >>= g = g a :=
  rfl

theorem lift_bind {o : Option α} {a : α} (h : o = some a) (g : α → ExceptT ε Option β) :
    (liftM o >>= g) = g a := by
  rw [h]
  rfl

/-- If nothing fails in a step, and nothing after any result of it, then nothing fails in both. -/
theorem safe_bind_eq {x : Except ε α} {f : α → Except ε β} {g : α → ExceptT ε Option β}
    (h : ∀ a, x = .ok a → g a = safe (f a)) : safe x >>= g = safe (x >>= f) := by
  cases x with
  | error e => rfl
  | ok a =>
      rw [safe_ok_bind, h a rfl]
      rfl

/-- The same for a step that goes on with some function of its result. -/
theorem safe_map_bind_eq {γ : Type} {m : ExceptT ε Option γ} {x : Except ε α} {k : α → γ}
    {f : α → Except ε β} {g : γ → ExceptT ε Option β} (hm : m = safe (x >>= fun a => .ok (k a)))
    (h : ∀ a, x = .ok a → g (k a) = safe (f a)) : m >>= g = safe (x >>= f) := by
  rw [hm]
  cases x with
  | error e => rfl
  | ok a => exact h a rfl

@[simp] theorem safe_bind (x : Except ε α) (f : α → Except ε β) :
    (safe x >>= fun a => safe (f a)) = safe (x >>= f) :=
  safe_bind_eq (fun _ _ => rfl)

theorem mapM_eq_safe {f : α → ExceptT ε Option β} {g : α → Except ε β} (l : List α)
    (h : ∀ a ∈ l, f a = safe (g a)) : l.mapM f = safe (l.mapM g) := by
  induction l with
  | nil => rfl
  | cons a rest ih =>
      rw [List.mapM_cons, List.mapM_cons, h a List.mem_cons_self,
        ih (fun b hb => h b (List.mem_cons_of_mem a hb))]
      simp only [pure_eq_safe, safe_bind]
      rfl

/-- A loop over `tables` of a state agrees with the loop over the state, if the single steps do. -/
theorem foldlM_eq_safe {σ : Type} {f : σ → α → ExceptT ε Option σ} {g : β → α → Except ε β}
    (tables : β → σ) (step : ∀ b a, f (tables b) a = safe (g b a >>= fun b => .ok (tables b)))
    (l : List α) (b : β) :
    l.foldlM f (tables b) = safe (l.foldlM g b >>= fun b => .ok (tables b)) := by
  induction l generalizing b with
  | nil => rfl
  | cons a rest ih =>
      rw [List.foldlM_cons, List.foldlM_cons, step]
      cases g b a with
      | error e => rfl
      | ok next => exact ih next

end Safe

/-!
### Loops
-/

section Loops

variable {α β : Type}

/-- In a loop with an invariant about the entries to come and the state, a step that never fails where the
    invariant holds makes a loop that never fails. -/
theorem foldlM_eq_some {f : β → α → Option β} {g : β → α → β} (I : List α → β → Prop)
    (step : ∀ a rest b, I (a :: rest) b → f b a = some (g b a) ∧ I rest (g b a)) {l : List α} {b : β}
    (h : I l b) : l.foldlM f b = some (l.foldl g b) := by
  induction l generalizing b with
  | nil => rfl
  | cons a rest ih =>
      obtain ⟨heq, hrest⟩ := step a rest b h
      rw [List.foldlM_cons, heq]
      exact ih hrest

/-- In a loop that keeps the size of a table, steps that never fail on tables of this size. -/
theorem foldlM_eq_some_of_size {γ : Type} {f : Array γ → α → Option (Array γ)}
    {g : Array γ → α → Array γ} {l : List α} {table : Array γ}
    (hsize : ∀ t a, (g t a).size = t.size)
    (hstep : ∀ t, t.size = table.size → ∀ a ∈ l, f t a = some (g t a)) :
    l.foldlM f table = some (l.foldl g table) := by
  apply foldlM_eq_some (fun rest t => t.size = table.size ∧ rest ⊆ l)
  · rintro a rest t ⟨ht, hsubset⟩
    rw [List.cons_subset] at hsubset
    exact ⟨hstep t ht a hsubset.1, by rw [hsize, ht], hsubset.2⟩
  · exact ⟨rfl, List.Subset.refl l⟩

theorem mapM_eq_some {f : α → Option β} {g : α → β} {l : List α} (h : ∀ a ∈ l, f a = some (g a)) :
    l.mapM f = some (l.map g) := by
  induction l with
  | nil => rfl
  | cons a rest ih =>
      rw [List.mapM_cons, h a List.mem_cons_self, ih (fun b hb => h b (List.mem_cons_of_mem a hb))]
      rfl

theorem findM?_eq_some {p : α → Option Bool} {q : α → Bool} {l : List α}
    (h : ∀ a ∈ l, p a = some (q a)) : l.findM? p = some (l.find? q) := by
  induction l with
  | nil => rfl
  | cons a rest ih =>
      rw [List.findM?, h a List.mem_cons_self, List.find?_cons]
      cases q a with
      | true => rfl
      | false => exact ih (fun b hb => h b (List.mem_cons_of_mem a hb))

end Loops

end Guarded

end Netlist
