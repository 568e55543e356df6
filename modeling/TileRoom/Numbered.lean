/-!
# Things known by a number

A finite collection with at most one entry for each one-byte number, kept in ascending order, so
that two collections with the same entries are equal.
-/

namespace TileRoom

/-- Entries under one-byte numbers, in ascending order. -/
structure Numbered (α : Type) where
  entries : List (UInt8 × α)
  ascending : entries.Pairwise (fun a b => a.1 < b.1)

namespace Numbered
variable {α : Type}

instance [DecidableEq α] : DecidableEq (Numbered α) := fun a b =>
  decidable_of_iff (a.entries = b.entries) (by cases a; cases b; simp)

instance : EmptyCollection (Numbered α) := ⟨⟨[], .nil⟩⟩

instance : Inhabited (Numbered α) := ⟨∅⟩

/-- How many entries there are. -/
def size (m : Numbered α) : Nat :=
  m.entries.length

def isEmpty (m : Numbered α) : Bool :=
  m.entries.isEmpty

/-- What is listed under a number first. -/
def find (n : UInt8) : List (UInt8 × α) → Option α
  | [] => none
  | e :: es => if n = e.1 then some e.2 else find n es

/-- What is known by a number. -/
def get? (m : Numbered α) (n : UInt8) : Option α :=
  find n m.entries

def contains (m : Numbered α) (n : UInt8) : Bool :=
  (m.get? n).isSome

/-- Puts an entry in its place among others, over any of the same number. -/
def place (n : UInt8) (a : α) : List (UInt8 × α) → List (UInt8 × α)
  | [] => [(n, a)]
  | e :: es => if n < e.1 then (n, a) :: e :: es else if n = e.1 then (n, a) :: es
    else e :: place n a es

theorem mem_place {n : UInt8} {a : α} {es : List (UInt8 × α)} {e : UInt8 × α}
    (h : e ∈ place n a es) : e = (n, a) ∨ e ∈ es := by
  induction es with
  | nil => simpa [place] using h
  | cons d es ih =>
    simp only [place] at h
    split at h
    · simpa using h
    · split at h
      · rcases List.mem_cons.1 h with h | h
        · exact .inl h
        · exact .inr (List.mem_cons_of_mem _ h)
      · rcases List.mem_cons.1 h with h | h
        · exact .inr (h ▸ List.mem_cons_self)
        · exact (ih h).imp id (List.mem_cons_of_mem _)

theorem pairwise_place (n : UInt8) (a : α) {es : List (UInt8 × α)}
    (h : es.Pairwise (fun a b => a.1 < b.1)) :
    (place n a es).Pairwise (fun a b => a.1 < b.1) := by
  induction es with
  | nil => simp [place]
  | cons d es ih =>
    have hd := (List.pairwise_cons.1 h).1
    have hes := (List.pairwise_cons.1 h).2
    simp only [place]
    split
    next hn =>
      refine List.pairwise_cons.2 ⟨fun e he => ?_, h⟩
      rcases List.mem_cons.1 he with rfl | he
      · exact hn
      · exact UInt8.lt_trans hn (hd e he)
    next hn =>
      split
      next heq => exact List.pairwise_cons.2 ⟨fun e he => heq ▸ hd e he, hes⟩
      next hne =>
        refine List.pairwise_cons.2 ⟨fun e he => ?_, ih hes⟩
        rcases mem_place he with rfl | he
        · exact UInt8.lt_of_le_of_ne (UInt8.not_lt.1 hn) (Ne.symm hne)
        · exact hd e he

/-- Sets what is known by a number. -/
def insert (m : Numbered α) (n : UInt8) (a : α) : Numbered α :=
  ⟨place n a m.entries, pairwise_place n a m.ascending⟩

/-! ### What is known by a number -/

@[simp] theorem get?_empty (n : UInt8) : (∅ : Numbered α).get? n = none := rfl

theorem isEmpty_iff (m : Numbered α) : m.isEmpty = true ↔ m = ∅ := by
  obtain ⟨entries, ascending⟩ := m
  cases entries <;> simp [isEmpty, EmptyCollection.emptyCollection]

theorem find_place (n : UInt8) (a : α) (es : List (UInt8 × α)) (k : UInt8) :
    find k (place n a es) = if k = n then some a else find k es := by
  induction es with
  | nil => rfl
  | cons e es ih =>
    simp only [place]
    split
    · rfl
    · split
      next h => subst h; by_cases hk : k = e.1 <;> simp [find, hk]
      next h =>
        simp only [find, ih]
        by_cases hk : k = e.1
        · simp [hk, Ne.symm h]
        · simp [hk]

/-- Setting what is known by a number changes that and nothing else. -/
@[simp] theorem get?_insert (m : Numbered α) (n : UInt8) (a : α) (k : UInt8) :
    (m.insert n a).get? k = if k = n then some a else m.get? k :=
  find_place n a m.entries k

theorem mem_of_find {es : List (UInt8 × α)} {n : UInt8} {a : α} (h : find n es = some a) :
    (n, a) ∈ es := by
  induction es with
  | nil => simp [find] at h
  | cons e es ih =>
    simp only [find] at h
    split at h
    next heq =>
      obtain rfl := Option.some.inj h
      exact heq ▸ List.mem_cons_self
    next => exact List.mem_cons_of_mem _ (ih h)

theorem find_of_mem {es : List (UInt8 × α)} (hs : es.Pairwise (fun a b => a.1 < b.1))
    {n : UInt8} {a : α} (h : (n, a) ∈ es) : find n es = some a := by
  induction es with
  | nil => simp at h
  | cons e es ih =>
    rcases List.mem_cons.1 h with rfl | h
    · simp [find]
    · have hlt := (List.pairwise_cons.1 hs).1 _ h
      have hne : n ≠ e.1 := fun heq => UInt8.lt_irrefl _ (heq ▸ hlt)
      simpa [find, hne] using ih (List.pairwise_cons.1 hs).2 h

/-- An entry is what is known by its number. -/
theorem mem_entries_iff (m : Numbered α) (n : UInt8) (a : α) :
    (n, a) ∈ m.entries ↔ m.get? n = some a :=
  ⟨find_of_mem m.ascending, mem_of_find⟩

/-- Two collections are equal if they know the same by every number. -/
theorem ext {a b : Numbered α} (h : ∀ n, a.get? n = b.get? n) : a = b := by
  have nodup (m : Numbered α) : m.entries.Nodup := by
    refine m.ascending.imp ?_
    rintro x _ hlt rfl
    exact UInt8.lt_irrefl _ hlt
  have hperm : a.entries.Perm b.entries :=
    (List.perm_ext_iff_of_nodup (nodup a) (nodup b)).2 fun ⟨n, x⟩ => by
      rw [mem_entries_iff, mem_entries_iff, h]
  have heq : a.entries = b.entries :=
    List.Perm.eq_of_pairwise (fun _ _ _ _ h₁ h₂ => absurd h₂ (UInt8.lt_asymm h₁))
      a.ascending b.ascending hperm
  cases a
  cases b
  simpa using heq

end Numbered

end TileRoom
