/-
Module: Netlist.Proofs.Sequence
Layer: Proofs
Purpose: Lists, checks and loops. Compilation is a sequence of checks, each of which passes or reports an
  error, and much of it is a loop over a list that changes a table. Here is what holds of such sequences
  whatever they check: when a sequence passes, when two of them come to the same, how two lists correspond
  entry by entry, and that a loop keeps what its steps keep.
Imports: Mathlib.Data.List.Forall2
Main exports: bind_eq_ok_iff, mapM_eq_ok_iff, mapM_eq_error_iff, foldlM_eq_error_iff,
  foldlM_concat_eq_mapM, mapError_bind_congr, mapError_mapM_congr, forall₂_mem_left,
  forall₂_mem_right, forall₂_modify_left, exists_forall₂, size_foldl
-/
import Mathlib.Data.List.Forall2

namespace Netlist

/-!
### Sequences of checks
-/

/-- A check followed by another passes when both pass. -/
theorem bind_eq_ok_iff {ε α β : Type} {x : Except ε α} {f : α → Except ε β} {b : β} :
    (x >>= f) = .ok b ↔ ∃ a, x = .ok a ∧ f a = .ok b := by
  cases x with
  | error e => simp [bind, Except.bind]
  | ok a => simp [bind, Except.bind]

/-- It reports the error of the first of the two that does not pass. -/
theorem bind_eq_error_iff {ε α β : Type} {x : Except ε α} {f : α → Except ε β} {e : ε} :
    (x >>= f) = .error e ↔ x = .error e ∨ ∃ a, x = .ok a ∧ f a = .error e := by
  cases x with
  | error e' => simp [bind, Except.bind]
  | ok a => simp [bind, Except.bind]

theorem exists_eq_ok_of_isOk {ε α : Type} {x : Except ε α} (h : x.isOk = true) : ∃ a, x = .ok a := by
  cases x with
  | error e => cases h
  | ok a => exact ⟨a, rfl⟩

/-- A check for each entry of a list passes when every single one passes. -/
theorem mapM_eq_ok_iff {ε α β : Type} {f : α → Except ε β} {as : List α} {bs : List β} :
    as.mapM f = .ok bs ↔ List.Forall₂ (fun a b => f a = .ok b) as bs := by
  induction as generalizing bs with
  | nil =>
      simp only [List.mapM_nil, List.forall₂_nil_left_iff]
      constructor
      · intro h
        injection h with h
        exact h.symm
      · rintro rfl
        rfl
  | cons a rest ih =>
      rw [List.mapM_cons, bind_eq_ok_iff]
      constructor
      · rintro ⟨b, hb, hrest⟩
        obtain ⟨bs', hbs', heq⟩ := bind_eq_ok_iff.1 hrest
        injection heq with heq
        exact heq ▸ List.Forall₂.cons hb (ih.1 hbs')
      · intro h
        cases h with
        | cons hb hrest => exact ⟨_, hb, bind_eq_ok_iff.2 ⟨_, ih.2 hrest, rfl⟩⟩

/-- It reports the error of the first entry that does not pass. -/
theorem mapM_eq_error_iff {ε α β : Type} {f : α → Except ε β} {as : List α} {e : ε} :
    as.mapM f = .error e ↔ ∃ k a, as[k]? = some a ∧ f a = .error e ∧
      ∃ bs, List.Forall₂ (fun a b => f a = .ok b) (as.take k) bs := by
  induction as with
  | nil =>
      constructor
      · intro h
        cases h
      · intro h
        rcases h with ⟨k, a, hk, -⟩
        cases hk
  | cons a rest ih =>
      rw [List.mapM_cons, bind_eq_error_iff]
      constructor
      · intro h
        rcases h with ha | ⟨b, ha, hrest⟩
        · exact ⟨0, a, rfl, ha, [], .nil⟩
        · rcases bind_eq_error_iff.1 hrest with hrest | ⟨bs, -, heq⟩
          · rcases ih.1 hrest with ⟨k, a', hk, ha', bs, hbs⟩
            exact ⟨k + 1, a', hk, ha', b :: bs, .cons ha hbs⟩
          · cases heq
      · intro h
        rcases h with ⟨k, a', hk, ha', bs, hbs⟩
        cases k with
        | zero =>
            cases hk
            exact .inl ha'
        | succ k =>
            cases hbs with
            | cons ha hbs =>
                exact .inr ⟨_, ha, bind_eq_error_iff.2 (.inl (ih.2 ⟨k, a', hk, ha', _, hbs⟩))⟩

/-- A loop of checks over a list reports the error of the first step that does not pass. -/
theorem foldlM_eq_error_iff {ε α σ : Type} {f : σ → α → Except ε σ} {as : List α} {s : σ} {e : ε} :
    as.foldlM f s = .error e ↔ ∃ before a after t, as = before ++ a :: after ∧
      before.foldlM f s = .ok t ∧ f t a = .error e := by
  induction as generalizing s with
  | nil =>
      constructor
      · intro h
        cases h
      · rintro ⟨before, a, after, t, has, -⟩
        simp at has
  | cons a rest ih =>
      rw [List.foldlM_cons, bind_eq_error_iff]
      constructor
      · rintro (ha | ⟨t, ha, hrest⟩)
        · exact ⟨[], a, rest, s, rfl, rfl, ha⟩
        · obtain ⟨before, a', after, u, rfl, hbefore, ha'⟩ := ih.1 hrest
          exact ⟨a :: before, a', after, u, rfl, bind_eq_ok_iff.2 ⟨t, ha, hbefore⟩, ha'⟩
      · rintro ⟨before, a', after, u, has, hbefore, ha'⟩
        cases before with
        | nil =>
            cases has
            cases hbefore
            exact .inl ha'
        | cons b before =>
            cases has
            rw [List.foldlM_cons, bind_eq_ok_iff] at hbefore
            obtain ⟨t, ha, hbefore⟩ := hbefore
            exact .inr ⟨t, ha, ih.2 ⟨before, a', after, u, rfl, hbefore, ha'⟩⟩

/-- Results that are collected one by one are those of a check for each entry. -/
theorem foldlM_concat_eq_mapM {ε α β : Type} (f : α → Except ε β) (as : List α) (bs : List β) :
    as.foldlM (fun bs a => f a >>= fun b => .ok (bs ++ [b])) bs =
      as.mapM f >>= fun more => .ok (bs ++ more) := by
  induction as generalizing bs with
  | nil => exact congrArg Except.ok (List.append_nil bs).symm
  | cons a rest ih =>
      rw [List.foldlM_cons, List.mapM_cons]
      cases f a with
      | error e => rfl
      | ok b =>
          refine (ih (bs ++ [b])).trans ?_
          cases rest.mapM f with
          | error e => rfl
          | ok more => exact congrArg Except.ok (List.append_assoc bs [b] more)

/-!
### Reports in other words

Two checks come to the same if they give the same value, or reports that are the same once `f` has put them
in other words.
-/

section Reworded

variable {ε ε' α β γ : Type} {f : ε → ε'}

theorem mapError_eq_mapError_iff {x y : Except ε α} : x.mapError f = y.mapError f ↔
    (∃ a, x = .ok a ∧ y = .ok a) ∨ ∃ e e', x = .error e ∧ y = .error e' ∧ f e = f e' := by
  cases x <;> cases y <;> simp [Except.mapError, eq_comm]

theorem mapError_bind_congr {x y : Except ε α} {g g' : α → Except ε β}
    (hxy : x.mapError f = y.mapError f)
    (hg : ∀ a, x = .ok a → (g a).mapError f = (g' a).mapError f) :
    (x >>= g).mapError f = (y >>= g').mapError f := by
  rcases mapError_eq_mapError_iff.1 hxy with ⟨a, rfl, rfl⟩ | ⟨e, e', rfl, rfl, heq⟩
  · exact hg a rfl
  · exact congrArg Except.error heq

theorem mapError_mapM_congr {g : α → Except ε γ} {g' : β → Except ε γ} {as : List α} {bs : List β}
    (h : List.Forall₂ (fun a b => (g a).mapError f = (g' b).mapError f) as bs) :
    (as.mapM g).mapError f = (bs.mapM g').mapError f := by
  induction h with
  | nil => rfl
  | cons hfirst _ ih =>
      rw [List.mapM_cons, List.mapM_cons]
      apply mapError_bind_congr hfirst
      intro c _
      apply mapError_bind_congr ih
      intro cs _
      rfl

end Reworded

/-!
### Lists that correspond
-/

section Corresponding

variable {α β : Type} {R : α → β → Prop} {as : List α} {bs : List β}

/-- Entries at one place of two corresponding lists correspond. -/
theorem forall₂_getElem?_left (h : List.Forall₂ R as bs) {k : Nat} {a : α} (ha : as[k]? = some a) :
    ∃ b, bs[k]? = some b ∧ R a b := by
  induction h generalizing k with
  | nil => simp at ha
  | @cons a' b' as' bs' hhead _ ih =>
      cases k with
      | zero =>
          cases ha
          exact ⟨b', rfl, hhead⟩
      | succ k => exact ih (by simpa using ha)

theorem forall₂_getElem?_right (h : List.Forall₂ R as bs) {k : Nat} {b : β} (hb : bs[k]? = some b) :
    ∃ a, as[k]? = some a ∧ R a b :=
  forall₂_getElem?_left (R := flip R) (List.Forall₂.flip h) hb

theorem forall₂_mem_left (h : List.Forall₂ R as bs) {a : α} (ha : a ∈ as) : ∃ b ∈ bs, R a b := by
  obtain ⟨k, hk⟩ := List.mem_iff_getElem?.1 ha
  obtain ⟨b, hb, hab⟩ := forall₂_getElem?_left h hk
  exact ⟨b, List.mem_of_getElem? hb, hab⟩

theorem forall₂_mem_right (h : List.Forall₂ R as bs) {b : β} (hb : b ∈ bs) : ∃ a ∈ as, R a b :=
  forall₂_mem_left (R := flip R) (List.Forall₂.flip h) hb

/-- Corresponding lists have equal images under functions that agree on what corresponds. -/
theorem map_eq_of_forall₂ {γ : Type} {f : α → γ} {g : β → γ} (h : List.Forall₂ R as bs)
    (hfg : ∀ a b, R a b → f a = g b) : as.map f = bs.map g := by
  induction h with
  | nil => rfl
  | cons hab _ ih => rw [List.map_cons, List.map_cons, ih, hfg _ _ hab]

theorem countP_eq_of_forall₂ {p : α → Bool} {q : β → Bool} (h : List.Forall₂ R as bs)
    (hpq : ∀ a b, R a b → p a = q b) : as.countP p = bs.countP q := by
  induction h with
  | nil => rfl
  | cons hab _ ih => rw [List.countP_cons, List.countP_cons, ih, hpq _ _ hab]

/-- Lists still correspond when an entry is replaced by one that corresponds to the same entry. -/
theorem forall₂_modify_left (h : List.Forall₂ R as bs) {k : Nat} {f : α → α}
    (hf : ∀ a b, as[k]? = some a → R a b → R (f a) b) : List.Forall₂ R (as.modify k f) bs := by
  induction h generalizing k with
  | nil => simp
  | cons hab hrest ih =>
      cases k with
      | zero => exact .cons (hf _ _ rfl hab) hrest
      | succ k => exact .cons hab (ih (fun a b ha => hf a b (by simpa using ha)))

/-- When every entry of a list has something that corresponds to it, so has the list. -/
theorem exists_forall₂ (h : ∀ a ∈ as, ∃ b, R a b) : ∃ bs, List.Forall₂ R as bs := by
  induction as with
  | nil => exact ⟨[], .nil⟩
  | cons a rest ih =>
      obtain ⟨b, hb⟩ := h a List.mem_cons_self
      obtain ⟨bs, hbs⟩ := ih (fun a' ha' => h a' (List.mem_cons_of_mem a ha'))
      exact ⟨b :: bs, .cons hb hbs⟩

end Corresponding

/-!
### Filtered lists
-/

theorem filterMap_concat {α β : Type} (f : α → Option β) (l : List α) (a : α) :
    (l ++ [a]).filterMap f = l.filterMap f ++ (f a).toList := by
  rw [List.filterMap_append]
  cases h : f a <;> simp [h]

/-- The entry that a list element adds to a filtered list stands behind those of the elements before. -/
theorem getElem?_filterMap_take {α β : Type} {f : α → Option β} {l : List α} {k : Nat} {a : α} {b : β}
    (ha : l[k]? = some a) (hb : f a = some b) :
    (l.filterMap f)[((l.take k).filterMap f).length]? = some b := by
  have hlt := (List.getElem?_eq_some_iff.1 ha).1
  have hget := (List.getElem?_eq_some_iff.1 ha).2
  have hsplit : l = l.take k ++ a :: l.drop (k + 1) := by
    rw [← hget, List.getElem_cons_drop, List.take_append_drop]
  have hfilter : l.filterMap f =
      (l.take k).filterMap f ++ b :: (l.drop (k + 1)).filterMap f := by
    conv => lhs; rw [hsplit]
    rw [List.filterMap_append, List.filterMap_cons_some hb]
  rw [hfilter, List.getElem?_append_right (Nat.le_refl _), Nat.sub_self]
  rfl

/-!
### Loops over tables
-/

/-- A loop whose steps keep the size of a table keeps it. -/
theorem size_foldl {α β : Type} {f : Array β → α → Array β}
    (hf : ∀ table a, (f table a).size = table.size) (l : List α) (table : Array β) :
    (l.foldl f table).size = table.size := by
  induction l generalizing table with
  | nil => rfl
  | cons a rest ih => rw [List.foldl_cons, ih, hf]

end Netlist
