/-!
# Keyed lists

Values under keys, in the order in which the keys were first set. Setting a key again replaces its
value and keeps its place.
-/

namespace MessageFormat

abbrev Keyed (κ α : Type) := List (κ × α)

namespace Keyed

variable {κ α : Type} [DecidableEq κ]

def set (key : κ) (value : α) : Keyed κ α → Keyed κ α
  | [] => [(key, value)]
  | e :: es => if e.1 = key then (key, value) :: es else e :: set key value es

def get? (key : κ) : Keyed κ α → Option α
  | [] => none
  | e :: es => if e.1 = key then some e.2 else get? key es

omit [DecidableEq κ] in
def keys (es : Keyed κ α) : List κ :=
  es.map Prod.fst

/-- The list that results from setting each pair in turn. -/
def ofList (pairs : List (κ × α)) : Keyed κ α :=
  pairs.foldl (fun es p => set p.1 p.2 es) []

theorem get?_set (es : Keyed κ α) (key k : κ) (value : α) :
    get? k (set key value es) = if key = k then some value else get? k es := by
  induction es with
  | nil => simp [set, get?]
  | cons e es ih =>
    by_cases he : e.1 = key
    · by_cases hk : key = k <;> simp [set, get?, he, hk]
    · by_cases hk : e.1 = k
      · subst hk
        simp [set, get?, he, Ne.symm he]
      · simp [set, get?, he, hk, ih]

theorem set_of_not_mem {es : Keyed κ α} {key : κ} (value : α) (h : key ∉ keys es) :
    set key value es = es ++ [(key, value)] := by
  induction es with
  | nil => rfl
  | cons e es ih =>
    simp only [keys, List.map_cons, List.mem_cons, not_or] at h
    simp [set, Ne.symm h.1, ih h.2]

/-- Setting a key to the value that it has changes nothing. -/
theorem set_get? {es : Keyed κ α} {key : κ} {value : α} (h : get? key es = some value) :
    set key value es = es := by
  induction es with
  | nil => simp [get?] at h
  | cons e es ih =>
    obtain ⟨k, v⟩ := e
    by_cases hk : k = key
    · subst hk
      simp only [get?, if_true, Option.some.injEq] at h
      simp [set, h]
    · simp only [get?, hk, if_false] at h
      simp [set, hk, ih h]

end Keyed

/-- Values under names. -/
abbrev Members (α : Type) := Keyed String α

end MessageFormat
