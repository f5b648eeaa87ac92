/-!
# Catalogs

A catalog holds one value for each of its ids, in ascending order of the ids by code point. The
order is part of the type, so a catalog is determined by what it holds and not by how it was made.
-/

namespace MessageFormat

/-- Puts a value where its id belongs; the value of an id that is there already is replaced. -/
def insertSorted {α : Type} (id : String) (value : α) : List (String × α) → List (String × α)
  | [] => [(id, value)]
  | e :: es =>
    if id < e.1 then (id, value) :: e :: es
    else if id = e.1 then (id, value) :: es
    else e :: insertSorted id value es

theorem mem_insertSorted {α : Type} {id : String} {value : α} {a : String × α}
    {es : List (String × α)} (h : a ∈ insertSorted id value es) : a = (id, value) ∨ a ∈ es := by
  induction es with
  | nil => simpa [insertSorted] using h
  | cons e es ih =>
    rw [insertSorted] at h
    split at h
    · simpa using h
    · split at h
      · rcases List.mem_cons.1 h with h | h
        · exact .inl h
        · exact .inr (List.mem_cons_of_mem _ h)
      · rcases List.mem_cons.1 h with h | h
        · exact .inr (h ▸ List.mem_cons_self)
        · exact (ih h).imp_right (List.mem_cons_of_mem _)

theorem pairwise_insertSorted {α : Type} (id : String) (value : α) {es : List (String × α)}
    (h : es.Pairwise fun a b => a.1 < b.1) :
    (insertSorted id value es).Pairwise fun a b => a.1 < b.1 := by
  induction es with
  | nil => simp [insertSorted]
  | cons e es ih =>
    have hes := List.pairwise_cons.1 h
    rw [insertSorted]
    split
    · next hlt =>
      refine List.pairwise_cons.2 ⟨fun a ha => ?_, h⟩
      rcases List.mem_cons.1 ha with rfl | ha
      · exact hlt
      · exact String.lt_trans hlt (hes.1 a ha)
    · next hlt =>
      split
      · next heq => exact List.pairwise_cons.2 ⟨fun a ha => heq ▸ hes.1 a ha, hes.2⟩
      · next hne =>
        refine List.pairwise_cons.2 ⟨fun a ha => ?_, ih hes.2⟩
        rcases mem_insertSorted ha with rfl | ha
        · exact Decidable.byContradiction fun hge =>
            hne (String.le_antisymm (String.not_lt.1 hge) (String.not_lt.1 hlt))
        · exact hes.1 a ha

structure Catalog (α : Type) where
  entries : List (String × α)
  sorted : entries.Pairwise fun a b => a.1 < b.1

namespace Catalog

variable {α : Type}

def empty : Catalog α :=
  ⟨[], List.Pairwise.nil⟩

def insert (c : Catalog α) (id : String) (value : α) : Catalog α :=
  ⟨insertSorted id value c.entries, pairwise_insertSorted id value c.sorted⟩

def ids (c : Catalog α) : List String :=
  c.entries.map Prod.fst

def get? (c : Catalog α) (id : String) : Option α :=
  (c.entries.find? fun e => e.1 = id).map Prod.snd

/-- The number of ids. -/
def size (c : Catalog α) : Nat :=
  c.entries.length

@[ext] theorem ext {c d : Catalog α} (h : c.entries = d.entries) : c = d := by
  cases c
  cases d
  cases h
  rfl

end Catalog

end MessageFormat
