import MessageFormat.Proofs.FileSystem.Growth
import MessageFormat.Proofs.Path.Components

/-!
# Writing a file again

After a file has been written with the directories it needs, its path leads to it and the path
before leads to a directory. So writing the same content to the same path once more succeeds and
changes nothing. Every other file is still where it was and holds what it held.
-/

namespace MessageFormat

namespace Path

/-! ### A parent is shorter -/

theorem length_dropPart_lt {t : List Char} (h : t ≠ []) : (dropPart t).length < t.length := by
  have hpos := List.length_pos_iff.2 h
  have hle := (List.dropWhile_sublist (· ≠ '/') (l := t)).length_le
  rw [dropPart, List.length_drop]
  omega

theorem HasParent.length_lt {path parent : String} (h : HasParent path parent) :
    parent.toList.length < path.toList.length := by
  have hanchor := congrArg List.length (anchor_append path.toList)
  rw [List.length_append] at hanchor
  rw [HasParent, parent?] at h
  dsimp only at h
  generalize anchor path.toList = a at h hanchor
  have hrest := (dropIdle_suffix a.2.reverse).length_le
  rw [List.length_reverse] at hrest
  split at h
  · split at h
    · next hpoint =>
      cases h
      rw [hpoint] at hanchor
      simp only [String.toList_empty, List.length_nil, List.length_singleton] at hanchor ⊢
      omega
    · cases h
  · next hne =>
    cases h
    have hpart := length_dropPart_lt fun hnil => hne hnil
    have hidle := (dropIdle_suffix (dropPart (dropIdle a.2.reverse))).length_le
    rw [String.toList_ofList, List.length_append, List.length_reverse]
    omega

end Path

namespace FileSystem

variable {fs fs' : FileSystem} {path : String} {loc : Location} {content : ByteArray}

/-! ### Directories that are there -/

theorem leadsToDirectory_iff :
    fs.leadsToDirectory path = true ↔ ∃ last, fs.target path = .ok (.found last .directory) := by
  rw [leadsToDirectory]
  split
  · next last h => exact iff_of_true rfl ⟨last, h⟩
  · next h => exact iff_of_false Bool.false_ne_true fun ⟨last, htarget⟩ => h last htarget

theorem makeDirectory_leads (h : fs.makeDirectory path = .ok fs') :
    fs'.leadsToDirectory path = true := by
  rw [makeDirectory] at h
  split at h
  · cases h
  · next last htarget =>
    cases h
    obtain ⟨ps, hps, hfollows⟩ := target_eq_ok_iff.1 htarget
    exact leadsToDirectory_iff.2 ⟨last, target_eq_ok_iff.2 ⟨ps, hps, hfollows.put rfl (.inl rfl)⟩⟩
  · cases h

/-- Makes a directory, given how those before it are made. -/
def makeStep (makeParents : String → Except IoError Unit × FileSystem) (fs : FileSystem)
    (path : String) : Except IoError Unit × FileSystem :=
  if path = "" then (.ok (), fs)
  else match fs.makeDirectory path with
    | .ok fs => (.ok (), fs)
    | .error .notFound =>
      match Path.parent? path with
      | none => (.error .notFound, fs)
      | some parent =>
        match makeParents parent with
        | (.error e, fs) => (.error e, fs)
        | (.ok (), fs) =>
          match fs.makeDirectory path with
          | .ok fs => (.ok (), fs)
          | .error e => if fs.leadsToDirectory path then (.ok (), fs) else (.error e, fs)
    | .error e => if fs.leadsToDirectory path then (.ok (), fs) else (.error e, fs)

theorem makeStep_congr {f g : String → Except IoError Unit × FileSystem}
    (h : ∀ parent, Path.HasParent path parent → f parent = g parent) :
    makeStep f fs path = makeStep g fs path := by
  rw [makeStep, makeStep]
  cases hparent : Path.parent? path with
  | none => rfl
  | some parent =>
    dsimp only
    rw [h parent hparent]

theorem makeChain_succ (fuel : Nat) (fs : FileSystem) (path : String) :
    makeChain (fuel + 1) fs path = makeStep (makeChain fuel fs) fs path := rfl

/-- More fuel than a path has characters is never used up: a parent is shorter than its path. -/
theorem makeChain_congr {fuel more : Nat} (hfuel : path.toList.length < fuel)
    (hmore : path.toList.length < more) : makeChain fuel fs path = makeChain more fs path := by
  induction fuel generalizing path more with
  | zero => exact absurd hfuel (Nat.not_lt_zero _)
  | succ fuel ih =>
    cases more with
    | zero => exact absurd hmore (Nat.not_lt_zero _)
    | succ more =>
      rw [makeChain_succ, makeChain_succ]
      apply makeStep_congr
      intro parent hparent
      have hlt := hparent.length_lt
      exact ih (by omega) (by omega)

/-- What making directories comes down to, without fuel. -/
theorem makeDirectories_eq (fs : FileSystem) (path : String) :
    fs.makeDirectories path = makeStep fs.makeDirectories fs path := by
  rw [makeDirectories, makeChain_succ]
  apply makeStep_congr
  intro parent hparent
  exact makeChain_congr hparent.length_lt (Nat.lt_succ_self _)

/-- A failure is passed over only if the directory is there. -/
theorem leadsToDirectory_of_passed {e : IoError}
    (h : (if fs.leadsToDirectory path then (.ok (), fs) else (.error e, fs)) =
      ((.ok (), fs') : Except IoError Unit × FileSystem)) : fs'.leadsToDirectory path = true := by
  split at h
  · next hleads =>
    cases h
    exact hleads
  · cases h

/-- The directories that a path needs have been made, or it needs none. -/
theorem makeDirectories_leads (h : fs.makeDirectories path = (.ok (), fs')) :
    path = "" ∨ fs'.leadsToDirectory path = true := by
  rw [makeDirectories_eq, makeStep] at h
  split at h
  · next hempty => exact .inl hempty
  · refine .inr ?_
    split at h
    · next hmade =>
      cases h
      exact makeDirectory_leads hmade
    · split at h
      · cases h
      · split at h
        · cases h
        · split at h
          · next hmade =>
            cases h
            exact makeDirectory_leads hmade
          · exact leadsToDirectory_of_passed h
    · exact leadsToDirectory_of_passed h

theorem makeDirectories_of_leads (h : path = "" ∨ fs.leadsToDirectory path = true) :
    fs.makeDirectories path = (.ok (), fs) := by
  rw [makeDirectories_eq, makeStep]
  by_cases hempty : path = ""
  · rw [if_pos hempty]
  · have hleads := h.resolve_left hempty
    obtain ⟨last, htarget⟩ := leadsToDirectory_iff.1 hleads
    have hexists : fs.makeDirectory path = .error .alreadyExists := by
      rw [makeDirectory, htarget]
    rw [if_neg hempty, hexists]
    exact if_pos hleads

/-! ### The file that is there -/

theorem put_of_entry {entry : Entry} (hroot : loc ≠ []) (h : fs.entry? loc = some entry) :
    fs.put loc entry = fs := by
  unfold entry? at h
  rw [if_neg hroot] at h
  rw [put, Keyed.set_get? h]

/-- A path with a slash at its end leads to a directory or to nothing. -/
theorem Follows.directory_of_slash {parts : List String} {slash : String} (hslash : slash = "")
    {last : Location} {entry : Entry} (h : Follows fs loc (parts ++ [slash]) (.found last entry)) :
    entry = .directory := by
  induction parts generalizing loc with
  | nil =>
    cases h with
    | stay hdir hpart h =>
      cases h with
      | here hentry =>
        rw [hdir] at hentry
        cases hentry
        rfl
    | up hdir h => exact absurd hslash (by decide)
    | down hdir hname hnext h => exact absurd hslash hname.1
  | cons part parts ih =>
    cases h with
    | stay hdir hpart h => exact ih h
    | up hdir h => exact ih h
    | down hdir hname hnext h => exact ih h

/-- Writing what a file has already changes nothing. -/
theorem writeFile_of_target (h : fs.target path = .ok (.found loc (.file content))) :
    fs.writeFile path content = .ok fs := by
  obtain ⟨ps, hps, hfollows⟩ := target_eq_ok_iff.1 h
  have hslash : ps.getLast? ≠ some "" := by
    intro hlast
    obtain ⟨init, rfl⟩ := List.getLast?_eq_some_iff.1 hlast
    cases hfollows.directory_of_slash rfl
  have hentry : fs.entry? loc = some (.file content) := hfollows.holds
  have hroot : loc ≠ [] := by
    rintro rfl
    rw [entry?_root] at hentry
    cases hentry
  rw [writeFile, hps]
  dsimp only [Except.bind]
  rw [writtenParts, if_neg hslash, hfollows.follow_eq]
  exact congrArg Except.ok (put_of_entry hroot hentry)

/-- What writing a file with its directories has come from. -/
theorem writeNested_ok (h : fs.writeNested path content = (.ok (), fs')) :
    ∃ mid : FileSystem, mid.writeFile path content = .ok fs' ∧
      ∀ parent, Path.HasParent path parent → parent = "" ∨ mid.leadsToDirectory parent = true := by
  rw [writeNested] at h
  cases hparent : Path.parent? path with
  | none =>
    rw [hparent] at h
    dsimp only at h
    split at h
    · next hwrite =>
      cases h
      refine ⟨fs, hwrite, fun parent hup => ?_⟩
      rw [Path.HasParent, hparent] at hup
      cases hup
    · cases h
  | some parent =>
    rw [hparent] at h
    dsimp only at h
    split at h
    · cases h
    · next hmade =>
      split at h
      · next hwrite =>
        cases h
        refine ⟨_, hwrite, fun other hup => ?_⟩
        rw [Path.HasParent, hparent] at hup
        cases hup
        exact makeDirectories_leads (Prod.ext hmade rfl)
      · cases h

theorem writeNested_again (h : fs.writeNested path content = (.ok (), fs')) :
    fs'.writeNested path content = (.ok (), fs') := by
  obtain ⟨mid, hwrite, hparents⟩ := writeNested_ok h
  obtain ⟨loc, hroot, hplace, hput, htarget⟩ := writeFile_ok hwrite
  have hcurrent : fs'.current = mid.current := by
    rw [hput]
    rfl
  have hdirs : ∀ other, mid.entry? other = some .directory →
      fs'.entry? other = some .directory := by
    intro other hdir
    rw [hput]
    exact entry?_put_of_directory ⟨hroot, hplace⟩ _ hdir
  have hsame : fs'.writeFile path content = .ok fs' := writeFile_of_target htarget
  rw [writeNested]
  cases hparent : Path.parent? path with
  | none =>
    dsimp only
    rw [hsame]
  | some parent =>
    have hleads : parent = "" ∨ fs'.leadsToDirectory parent = true := by
      refine (hparents parent hparent).imp_right fun hleads => ?_
      obtain ⟨last, hlast⟩ := leadsToDirectory_iff.1 hleads
      exact leadsToDirectory_iff.2 ⟨last, target_of_directories hcurrent hdirs hlast⟩
    dsimp only
    rw [makeDirectories_of_leads hleads]
    dsimp only
    rw [hsame]

/-! ### The files beside it -/

/-- The location of the file that a path leads to. -/
def filePlace? (fs : FileSystem) (path : String) : Option Location :=
  match fs.target path with
  | .ok (.found loc (.file _)) => some loc
  | _ => none

theorem readFile_eq_ok : fs.readFile path = .ok content ↔
    ∃ loc, fs.target path = .ok (.found loc (.file content)) := by
  rw [readFile]
  split
  · next last old h => simp [h]
  · next h => simp [h]
  · next h => simp [h]
  · next h => simp [h]

theorem filePlace?_eq_some : fs.filePlace? path = some loc ↔
    ∃ content, fs.target path = .ok (.found loc (.file content)) := by
  rw [filePlace?]
  split
  · next last old h => simp [h]
  · next h => exact iff_of_false nofun fun ⟨content, htarget⟩ => h loc content htarget

/-- A path leads where it led as long as nothing on the way is taken away. -/
theorem Follows.of_entries {parts : List String} {last : Location} {entry : Entry}
    (h : Follows fs loc parts (.found last entry))
    (hdirs : ∀ loc, fs.entry? loc = some .directory → fs'.entry? loc = some .directory)
    (hsome : ∀ loc, fs.entry? loc ≠ none → fs'.entry? loc ≠ none)
    (hlast : fs'.entry? last = some entry) : Follows fs' loc parts (.found last entry) := by
  induction parts generalizing loc with
  | nil =>
    cases h with
    | here hentry => exact .here hlast
  | cons part parts ih =>
    cases h with
    | stay hdir hpart h => exact .stay (hdirs _ hdir) hpart (ih h)
    | up hdir h => exact .up (hdirs _ hdir) (ih h)
    | down hdir hname hnext h => exact .down (hdirs _ hdir) hname (hsome _ hnext) (ih h)

namespace Writes

theorem entry (h : Writes path loc content fs fs') : fs'.entry? loc = some (.file content) := by
  obtain ⟨ps, hps, hfollows⟩ := target_eq_ok_iff.1 h.target
  exact hfollows.holds

theorem entry_of_ne (h : Writes path loc content fs fs') {other : Location} {entry : Entry}
    (hne : other ≠ loc) (hentry : fs.entry? other = some entry) :
    fs'.entry? other = some entry := by
  rcases h.others other hne with hsame | ⟨hnone, -⟩
  · rw [hsame, hentry]
  · rw [hentry] at hnone
    cases hnone

theorem filePlace? (h : Writes path loc content fs fs') : fs'.filePlace? path = some loc :=
  filePlace?_eq_some.2 ⟨content, h.target⟩

/-- A file at another location is read as before. -/
theorem readFile_of_ne (h : Writes path loc content fs fs') {other : String}
    {read : ByteArray} (hread : fs.readFile other = .ok read)
    (hne : fs.filePlace? other ≠ some loc) : fs'.readFile other = .ok read := by
  obtain ⟨last, htarget⟩ := readFile_eq_ok.1 hread
  have hlast : last ≠ loc := by
    rintro rfl
    exact hne (filePlace?_eq_some.2 ⟨read, htarget⟩)
  obtain ⟨ps, hps, hfollows⟩ := target_eq_ok_iff.1 htarget
  refine readFile_eq_ok.2 ⟨last, target_eq_ok_iff.2 ⟨ps, hps, ?_⟩⟩
  rw [start_eq h.current]
  refine hfollows.of_entries ?_ ?_ (h.entry_of_ne hlast hfollows.holds)
  · intro loc' hdir
    refine h.entry_of_ne ?_ hdir
    rintro rfl
    exact h.place hdir
  · intro loc' hsome
    obtain ⟨old, hold⟩ := Option.ne_none_iff_exists'.1 hsome
    by_cases hloc : loc' = loc
    · rw [hloc, h.entry]
      exact Option.some_ne_none _
    · rw [h.entry_of_ne hloc hold]
      exact Option.some_ne_none _

end Writes

end FileSystem

end MessageFormat
