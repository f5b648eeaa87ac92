import Mathlib.Logic.Relation
import MessageFormat.Proofs.FileSystem.Follows

/-!
# What writing a file leaves alone

Making directories adds directories where the path or one before it leads, and changes nothing
else. Writing a file after that puts the content where its path leads. If it fails, only the
directories remain.
-/

namespace MessageFormat

def Path.HasParent (path parent : String) : Prop :=
  Path.parent? path = some parent

/-- The parent of a path, the parent of that, and so on. -/
def Path.IsAncestor (ancestor path : String) : Prop :=
  Relation.TransGen Path.HasParent path ancestor

namespace FileSystem

/-- A location holds what it held, or it was free and one of the paths now leads to a directory
there. -/
def SameOrMade (paths : String → Prop) (fs fs' : FileSystem) (loc : Location) : Prop :=
  fs'.entry? loc = fs.entry? loc ∨ fs.entry? loc = none ∧ fs'.entry? loc = some .directory ∧
    ∃ path, paths path ∧ fs'.target path = .ok (.found loc .directory)

/-- Nothing has happened but that directories were made where some of the paths lead. -/
structure Grows (paths : String → Prop) (fs fs' : FileSystem) : Prop where
  current : fs'.current = fs.current
  entries : ∀ loc, SameOrMade paths fs fs' loc

variable {paths : String → Prop} {fs fs' fs'' : FileSystem} {path : String} {loc : Location}

theorem target_eq_ok_iff {t : Target} :
    fs.target path = .ok t ↔ ∃ ps, parts path = .ok ps ∧ Follows fs (fs.start path) ps t := by
  rw [target]
  cases parts path with
  | error e => simp [Except.bind]
  | ok ps =>
    constructor
    · intro h
      exact ⟨ps, rfl, follows_of_follow h⟩
    · rintro ⟨ps', hps, h⟩
      cases hps
      exact h.follow_eq

theorem start_eq (h : fs'.current = fs.current) (path : String) :
    fs'.start path = fs.start path := by
  rw [start, start, h]

theorem target_of_directories {last : Location} (hcurrent : fs'.current = fs.current)
    (hdirs : ∀ loc, fs.entry? loc = some .directory → fs'.entry? loc = some .directory)
    (h : fs.target path = .ok (.found last .directory)) :
    fs'.target path = .ok (.found last .directory) := by
  obtain ⟨ps, hps, hfollows⟩ := target_eq_ok_iff.1 h
  rw [target_eq_ok_iff, start_eq hcurrent]
  exact ⟨ps, hps, hfollows.of_directories hdirs⟩

namespace Grows

theorem refl (paths : String → Prop) (fs : FileSystem) : Grows paths fs fs :=
  ⟨rfl, fun _ => .inl rfl⟩

theorem mono {paths' : String → Prop} (h : Grows paths fs fs') (hpaths : ∀ p, paths p → paths' p) :
    Grows paths' fs fs' := by
  refine ⟨h.current, fun loc => ?_⟩
  rcases h.entries loc with hsame | ⟨hnone, hdir, p, hp, htarget⟩
  · exact .inl hsame
  · exact .inr ⟨hnone, hdir, p, hpaths p hp, htarget⟩

theorem directory (h : Grows paths fs fs') (hdir : fs.entry? loc = some .directory) :
    fs'.entry? loc = some .directory := by
  rcases h.entries loc with hsame | ⟨hnone, -⟩
  · rw [hsame, hdir]
  · rw [hdir] at hnone
    cases hnone

theorem trans (h : Grows paths fs fs') (h' : Grows paths fs' fs'') : Grows paths fs fs'' := by
  refine ⟨h'.current.trans h.current, fun loc => ?_⟩
  rcases h.entries loc with hsame | ⟨hnone, hdir, p, hp, htarget⟩
  · rcases h'.entries loc with hsame' | ⟨hnone', hdir', p, hp, htarget⟩
    · exact .inl (hsame'.trans hsame)
    · exact .inr ⟨hsame ▸ hnone', hdir', p, hp, htarget⟩
  · exact .inr ⟨hnone, h'.directory hdir, p, hp,
      target_of_directories h'.current (fun loc => h'.directory) htarget⟩

end Grows

/-! ### Making directories -/

theorem grows_makeDirectory (h : fs.makeDirectory path = .ok fs') : Grows (· = path) fs fs' := by
  rw [makeDirectory] at h
  split at h
  · cases h
  · next loc htarget =>
    cases h
    obtain ⟨ps, hps, hfollows⟩ := target_eq_ok_iff.1 htarget
    obtain ⟨hroot, hfree⟩ := hfollows.holds
    have hnew : (fs.put loc .directory).target path = .ok (.found loc .directory) :=
      target_eq_ok_iff.2 ⟨ps, hps, hfollows.put rfl (.inl rfl)⟩
    refine ⟨rfl, fun other => ?_⟩
    rw [SameOrMade, entry?_put hroot]
    by_cases hother : loc = other
    · subst hother
      exact .inr ⟨hfree, if_pos rfl, path, rfl, hnew⟩
    · exact .inl (if_neg hother)
  · cases h

/-- Directories are made at most where the path or one before it leads. -/
theorem grows_makeChain (fuel : Nat) (fs : FileSystem) (path : String) :
    Grows (Relation.ReflTransGen Path.HasParent path) fs
      (makeChain fuel fs path).2 := by
  induction fuel generalizing fs path with
  | zero => exact .refl _ fs
  | succ fuel ih =>
    have hmake : ∀ {fs fs'}, makeDirectory fs path = .ok fs' →
        Grows (Relation.ReflTransGen Path.HasParent path) fs fs' := by
      intro fs fs' h
      apply (grows_makeDirectory h).mono
      rintro p rfl
      exact .refl
    rw [makeChain]
    split
    · exact .refl _ fs
    · split
      · next hmade => exact hmake hmade
      · split
        · exact .refl _ fs
        · next parent hparent =>
          have hup : Path.HasParent path parent := hparent
          have hchain := (ih fs parent).mono fun p hp => hp.head hup
          split
          · next e fs' hfailed =>
            rw [hfailed] at hchain
            exact hchain
          · next fs' hdone =>
            rw [hdone] at hchain
            split
            · next hmade => exact hchain.trans (hmake hmade)
            · split
              · exact hchain
              · exact hchain
      · split
        · exact .refl _ fs
        · exact .refl _ fs

/-! ### Writing a file -/

/-- A file is written where its path leads afterwards, and never in the place of a directory. -/
theorem writeFile_ok {content : ByteArray} (h : fs.writeFile path content = .ok fs') :
    ∃ loc, loc ≠ [] ∧ fs.entry? loc ≠ some .directory ∧ fs' = fs.put loc (.file content) ∧
      fs'.target path = .ok (.found loc (.file content)) := by
  rw [writeFile] at h
  cases hps : parts path with
  | error e =>
    rw [hps] at h
    cases h
  | ok ps =>
    rw [hps] at h
    cases hfollow : fs.follow (fs.start path) (writtenParts ps) with
    | error e =>
      simp only [Except.bind, hfollow] at h
      cases h
    | ok t =>
      have hfollows := follows_of_follow hfollow
      simp only [Except.bind, hfollow] at h
      obtain ⟨loc, ht, rfl⟩ : ∃ loc, t.EndsAt loc ∧ fs' = fs.put loc (.file content) := by
        split at h
        · cases h
        · next heq =>
          cases heq
          cases h
          exact ⟨_, rfl, rfl⟩
        · next heq =>
          cases heq
          cases h
          exact ⟨_, rfl, rfl⟩
        · cases h
      have hslash : ps.getLast? ≠ some "" := by
        intro hslash
        rw [writtenParts, if_pos hslash] at hfollows
        obtain ⟨last, rfl⟩ := hfollows.directory_of_point rfl
        cases ht
      rw [writtenParts, if_neg hslash] at hfollows
      obtain ⟨hroot, hdir⟩ := ht.not_directory hfollows.holds
      exact ⟨loc, hroot, hdir, rfl, target_eq_ok_iff.2 ⟨ps, hps, hfollows.put ht (.inr hslash)⟩⟩

/-- A path leads to a file that has been written, and nothing else has happened but that
directories were made on the way to it. -/
structure Writes (path : String) (loc : Location) (content : ByteArray) (fs fs' : FileSystem) :
    Prop where
  current : fs'.current = fs.current
  place : fs.entry? loc ≠ some .directory
  target : fs'.target path = .ok (.found loc (.file content))
  others : ∀ other, other ≠ loc → SameOrMade (Path.IsAncestor · path) fs fs' other

theorem Writes.of_grows {content : ByteArray} (hgrows : Grows (Path.IsAncestor · path) fs fs')
    (h : fs'.writeFile path content = .ok fs'') : ∃ loc, Writes path loc content fs fs'' := by
  obtain ⟨loc, hroot, hplace, rfl, htarget⟩ := writeFile_ok h
  have hstay : ∀ other, fs'.entry? other = some .directory →
      entry? (fs'.put loc (.file content)) other = some .directory :=
    fun other => entry?_put_of_directory ⟨hroot, hplace⟩ _
  refine ⟨loc, hgrows.current, fun hdir => hplace (hgrows.directory hdir), htarget, ?_⟩
  intro other hother
  have hsame : entry? (fs'.put loc (.file content)) other = fs'.entry? other := by
    rw [entry?_put hroot, if_neg (Ne.symm hother)]
  rcases hgrows.entries other with hkept | ⟨hfree, hmade, p, hp, hleads⟩
  · exact .inl (hsame.trans hkept)
  · have hcurrent : (fs'.put loc (.file content)).current = fs'.current := rfl
    exact .inr ⟨hfree, hstay other hmade, p, hp, target_of_directories hcurrent hstay hleads⟩

/-- A file is written after the directories before it have been made. -/
theorem writeNested_eq (fs : FileSystem) (path : String) (content : ByteArray) :
    ∃ (made : Except IoError Unit) (mid : FileSystem), Grows (Path.IsAncestor · path) fs mid ∧
      fs.writeNested path content = match made with
      | .error e => (.error e, mid)
      | .ok () =>
        match mid.writeFile path content with
        | .ok fs => (.ok (), fs)
        | .error e => (.error e, mid) := by
  rw [writeNested]
  cases hparent : Path.parent? path with
  | none => exact ⟨.ok (), fs, .refl _ fs, rfl⟩
  | some parent =>
    have hup : Path.HasParent path parent := hparent
    have hgrows := grows_makeChain (parent.toList.length + 1) fs parent
    exact ⟨_, _, hgrows.mono fun p hp => Relation.TransGen.head' hup hp, rfl⟩

/-- Writing a file and the directories it needs ends in one of two ways. -/
theorem writeNested_effect (fs : FileSystem) (path : String) (content : ByteArray) :
    match fs.writeNested path content with
    | (.ok (), fs') => ∃ loc, Writes path loc content fs fs'
    | (.error _, fs') => Grows (Path.IsAncestor · path) fs fs' := by
  obtain ⟨made, mid, hgrows, heq⟩ := writeNested_eq fs path content
  rw [heq]
  cases made with
  | error e => exact hgrows
  | ok done =>
    cases hwrite : mid.writeFile path content with
    | error e => exact hgrows
    | ok fs' => exact Writes.of_grows hgrows hwrite

end FileSystem

end MessageFormat
