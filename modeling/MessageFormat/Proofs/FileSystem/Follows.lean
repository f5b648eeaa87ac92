import MessageFormat.FileSystem

/-!
# Where paths lead

Following a path that leads somewhere, as a relation with one rule for each kind of part. From it
come the facts that operations on files rest on: what is stored where a path leads, that a path to
a directory keeps leading there as long as directories stay, and that a path leads to what has
just been put at its end.
-/

namespace MessageFormat.FileSystem

variable {fs : FileSystem} {loc : Location} {parts : List String}

theorem isDirectory_iff : fs.isDirectory loc = true ↔ fs.entry? loc = some .directory := by
  rw [isDirectory]
  split
  · next h => simp [h]
  · next h => simpa using h

theorem entry?_root (fs : FileSystem) : fs.entry? [] = some .directory :=
  if_pos rfl

theorem entry?_put (h : loc ≠ []) (entry : Entry) (other : Location) :
    entry? (fs.put loc entry) other = if loc = other then some entry else fs.entry? other := by
  by_cases hother : other = []
  · subst hother
    rw [entry?_root, entry?_root, if_neg h]
  · unfold entry?
    rw [if_neg hother, if_neg hother, put]
    exact Keyed.get?_set fs.entries loc other entry

/-- A part that names something in a directory. -/
def IsName (part : String) : Prop :=
  part ≠ "" ∧ part ≠ "." ∧ part ≠ ".." ∧ part.utf8ByteSize ≤ maxName

/-- From a location the parts lead to the target. -/
inductive Follows (fs : FileSystem) : Location → List String → Target → Prop where
  | here {loc : Location} {entry : Entry} (hentry : fs.entry? loc = some entry) :
    Follows fs loc [] (.found loc entry)
  | stay {loc : Location} {part : String} {parts : List String} {t : Target}
    (hdir : fs.entry? loc = some .directory) (hpart : part = "" ∨ part = ".")
    (h : Follows fs loc parts t) : Follows fs loc (part :: parts) t
  | up {loc : Location} {parts : List String} {t : Target}
    (hdir : fs.entry? loc = some .directory) (h : Follows fs loc.dropLast parts t) :
    Follows fs loc (".." :: parts) t
  | down {loc : Location} {part : String} {parts : List String} {t : Target}
    (hdir : fs.entry? loc = some .directory) (hname : IsName part)
    (hnext : fs.entry? (loc ++ [part]) ≠ none) (h : Follows fs (loc ++ [part]) parts t) :
    Follows fs loc (part :: parts) t
  | free {loc : Location} {part : String} {parts : List String}
    (hdir : fs.entry? loc = some .directory) (hname : IsName part)
    (hnext : fs.entry? (loc ++ [part]) = none) (hparts : ∀ p ∈ parts, p = "") :
    Follows fs loc (part :: parts) (.free (loc ++ [part]))

theorem follows_of_follow {t : Target} (h : fs.follow loc parts = .ok t) :
    Follows fs loc parts t := by
  induction parts generalizing loc with
  | nil =>
    rw [follow] at h
    split at h
    · next hentry =>
      cases h
      exact .here hentry
    · cases h
  | cons part parts ih =>
    rw [follow] at h
    split at h
    · cases h
    · next hdir =>
      replace hdir : fs.entry? loc = some .directory := isDirectory_iff.1 (by simpa using hdir)
      split at h
      · next hpart => exact .stay hdir hpart (ih h)
      · next hpart =>
        split at h
        · next hup =>
          subst hup
          exact .up hdir (ih h)
        · next hup =>
          split at h
          · cases h
          · next hlong =>
            have hname : IsName part := by
              rw [not_or] at hpart
              exact ⟨hpart.1, hpart.2, hup, by omega⟩
            dsimp only at h
            split at h
            · next entry hnext =>
              exact .down hdir hname (by rw [hnext]; exact Option.some_ne_none _) (ih h)
            · next hnext =>
              split at h
              · next hparts =>
                cases h
                exact .free hdir hname hnext (by simpa using hparts)
              · cases h

theorem Follows.follow_eq {t : Target} (h : Follows fs loc parts t) :
    fs.follow loc parts = .ok t := by
  induction h with
  | here hentry => rw [follow, hentry]
  | stay hdir hpart h ih =>
    rw [follow, isDirectory_iff.2 hdir, if_neg (by decide), if_pos hpart, ih]
  | up hdir h ih =>
    rw [follow, isDirectory_iff.2 hdir, if_neg (by decide), if_neg (by decide), if_pos rfl, ih]
  | @down loc part parts t hdir hname hnext h ih =>
    obtain ⟨entry, hentry⟩ := Option.ne_none_iff_exists'.1 hnext
    rw [follow, isDirectory_iff.2 hdir, if_neg (by decide), if_neg (by simp [hname.1, hname.2.1]),
      if_neg hname.2.2.1, if_neg (by have := hname.2.2.2; omega)]
    dsimp only
    rw [hentry]
    exact ih
  | @free loc part parts hdir hname hnext hparts =>
    rw [follow, isDirectory_iff.2 hdir, if_neg (by decide), if_neg (by simp [hname.1, hname.2.1]),
      if_neg hname.2.2.1, if_neg (by have := hname.2.2.2; omega)]
    dsimp only
    rw [hnext]
    exact if_pos (by simpa using hparts)

/-- What a target says of the file system. -/
def Target.Holds (fs : FileSystem) : Target → Prop
  | .found loc entry => fs.entry? loc = some entry
  | .free loc => loc ≠ [] ∧ fs.entry? loc = none

theorem Follows.holds {t : Target} (h : Follows fs loc parts t) : t.Holds fs := by
  induction h with
  | here hentry => exact hentry
  | stay hdir hpart h ih | up hdir h ih | down hdir hname hnext h ih => exact ih
  | free hdir hname hnext hparts => exact ⟨by simp, hnext⟩

/-- Who ends in a directory has started from one. -/
theorem Follows.directory_start {last : Location}
    (h : Follows fs loc parts (.found last .directory)) : fs.entry? loc = some .directory := by
  cases h with
  | here hentry => exact hentry
  | stay hdir hpart h => exact hdir
  | up hdir h => exact hdir
  | down hdir hname hnext h => exact hdir

theorem Follows.of_directories {fs' : FileSystem} {last : Location}
    (h : Follows fs loc parts (.found last .directory))
    (hdirs : ∀ loc, fs.entry? loc = some .directory → fs'.entry? loc = some .directory) :
    Follows fs' loc parts (.found last .directory) := by
  induction parts generalizing loc with
  | nil =>
    cases h with
    | here hentry => exact .here (hdirs _ hentry)
  | cons part parts ih =>
    cases h with
    | stay hdir hpart h => exact .stay (hdirs _ hdir) hpart (ih h)
    | up hdir h => exact .up (hdirs _ hdir) (ih h)
    | down hdir hname hnext h =>
      have hstart := hdirs _ h.directory_start
      exact .down (hdirs _ hdir) hname (by rw [hstart]; exact Option.some_ne_none _) (ih h)

/-- A place that a path ends at without a directory being there. -/
def Target.EndsAt (last : Location) : Target → Prop
  | .found loc (.file _) | .free loc => loc = last
  | .found _ .directory => False

theorem follows_blank {entry : Entry} (hentry : fs.entry? loc = some entry)
    (hparts : ∀ p ∈ parts, p = "") (hlast : entry = .directory ∨ parts.getLast? ≠ some "") :
    Follows fs loc parts (.found loc entry) := by
  induction parts with
  | nil => exact .here hentry
  | cons part parts ih =>
    have hpart : part = "" := hparts part List.mem_cons_self
    have hrest : ∀ p ∈ parts, p = "" := fun p hp => hparts p (List.mem_cons_of_mem _ hp)
    rcases hlast with rfl | hlast
    · exact .stay hentry (.inl hpart) (ih hrest (.inl rfl))
    · subst hpart
      have hne : "" :: parts ≠ [] := List.cons_ne_nil _ _
      rw [List.getLast?_eq_some_getLast hne, hparts _ (List.getLast_mem hne)] at hlast
      exact absurd rfl hlast

theorem Target.EndsAt.not_directory {t : Target} {last : Location} (h : t.EndsAt last)
    (hholds : t.Holds fs) : last ≠ [] ∧ fs.entry? last ≠ some .directory := by
  cases t with
  | free loc =>
    obtain rfl : loc = last := h
    exact ⟨hholds.1, by rw [hholds.2]; exact nofun⟩
  | found loc entry =>
    cases entry with
    | directory => cases h
    | file content =>
      obtain rfl : loc = last := h
      have hentry : fs.entry? loc = some (.file content) := hholds
      refine ⟨?_, by rw [hentry]; exact nofun⟩
      rintro rfl
      rw [entry?_root] at hentry
      cases hentry

/-- Directories stay when something is put where there is none. -/
theorem entry?_put_of_directory {last : Location}
    (hlast : last ≠ [] ∧ fs.entry? last ≠ some .directory) (entry : Entry)
    (h : fs.entry? loc = some .directory) : entry? (fs.put last entry) loc = some .directory := by
  have hne : last ≠ loc := by
    rintro rfl
    exact hlast.2 h
  rw [entry?_put hlast.1, if_neg hne, h]

theorem getLast?_ne_of_cons {part : String} (h : (part :: parts).getLast? ≠ some "") :
    parts.getLast? ≠ some "" := by
  cases parts with
  | nil => exact nofun
  | cons p parts => rwa [List.getLast?_cons_cons] at h

/-- A path leads to what is put where it ends. Only a directory can have a slash after it. -/
theorem Follows.put {t : Target} (h : Follows fs loc parts t) {last : Location}
    (ht : t.EndsAt last) {entry : Entry} (hslash : entry = .directory ∨ parts.getLast? ≠ some "") :
    Follows (fs.put last entry) loc parts (.found last entry) := by
  have hlast := ht.not_directory h.holds
  have hnew : entry? (fs.put last entry) last = some entry := by
    rw [entry?_put hlast.1, if_pos rfl]
  induction h with
  | @here loc old hentry =>
    cases old with
    | directory => cases ht
    | file content =>
      obtain rfl : loc = last := ht
      exact .here hnew
  | stay hdir hpart h ih =>
    exact .stay (entry?_put_of_directory hlast entry hdir) hpart
      (ih ht (hslash.imp_right getLast?_ne_of_cons))
  | up hdir h ih =>
    exact .up (entry?_put_of_directory hlast entry hdir)
      (ih ht (hslash.imp_right getLast?_ne_of_cons))
  | @down loc part parts t hdir hname hnext h ih =>
    refine .down (entry?_put_of_directory hlast entry hdir) hname ?_
      (ih ht (hslash.imp_right getLast?_ne_of_cons))
    rw [entry?_put hlast.1]
    split
    · exact nofun
    · exact hnext
  | @free loc part parts hdir hname hnext hparts =>
    obtain rfl : loc ++ [part] = last := ht
    refine .down (entry?_put_of_directory hlast entry hdir) hname (by rw [hnew]; exact nofun) ?_
    exact follows_blank hnew hparts (hslash.imp_right getLast?_ne_of_cons)

/-- A path with a point at its end leads to a directory. -/
theorem Follows.directory_of_point {point : String} (hpoint : point = ".") {t : Target}
    (h : Follows fs loc (parts ++ [point]) t) : ∃ last, t = .found last .directory := by
  induction parts generalizing loc with
  | nil =>
    cases h with
    | stay hdir hpart h =>
      cases h with
      | here hentry =>
        rw [hdir] at hentry
        cases hentry
        exact ⟨_, rfl⟩
    | up hdir h => exact absurd hpoint (by decide)
    | down hdir hname hnext h => exact absurd hpoint hname.2.1
    | free hdir hname hnext hparts => exact absurd hpoint hname.2.1
  | cons part parts ih =>
    cases h with
    | stay hdir hpart h => exact ih h
    | up hdir h => exact ih h
    | down hdir hname hnext h => exact ih h
    | free hdir hname hnext hparts =>
      have hblank := hparts point (by simp)
      rw [hpoint] at hblank
      exact absurd hblank (by decide)

end MessageFormat.FileSystem
