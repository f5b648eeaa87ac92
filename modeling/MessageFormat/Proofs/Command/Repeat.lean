import MessageFormat.Proofs.Agree
import MessageFormat.Proofs.Command.Effects
import MessageFormat.Proofs.FileSystem.Repeat

/-!
# Running a command again

A run is determined by what its configuration and its input hold. A run that has succeeded leaves
both of them alone, unless it has written over one of them, and so the same run makes the same file
and finds it there already.
-/

namespace MessageFormat

variable {fs fs' : FileSystem} {args : List String} {invocation : Invocation}

theorem prepare_congr (hargs : Invocation.ofArguments args = .ok invocation)
    (hconfig : fs'.readFile invocation.options.config = fs.readFile invocation.options.config)
    (hinput : fs'.readFile invocation.options.input = fs.readFile invocation.options.input) :
    Id.run (prepare (fun path => pure (fs'.readFile path)) args) =
      Id.run (prepare (fun path => pure (fs.readFile path)) args) := by
  rw [prepare, prepare, hargs]
  dsimp only
  simp only [pure_bind, hconfig, hinput]

/-- What a run is to write has been made of an input that was read. -/
theorem exists_input_of_prepare {made : Job} (hargs : Invocation.ofArguments args = .ok invocation)
    (h : Id.run (prepare (fun path => pure (fs.readFile path)) args) = .ok made) :
    ∃ content, fs.readFile invocation.options.input = .ok content := by
  rw [prepare, hargs] at h
  simp only [pure_bind] at h
  split at h
  · cases h
  · next config hconfig =>
    simp only [Id.run_pure] at h
    cases hread : fs.readFile invocation.options.input with
    | ok content => exact ⟨content, rfl⟩
    | error error =>
      rw [hread] at h
      cases h

theorem IsOutputPath.eq {path other : String} (h : IsOutputPath fs args path)
    (h' : IsOutputPath fs args other) : other = path := by
  obtain ⟨invocation, config, hargs, hconfig, rfl⟩ := h
  obtain ⟨invocation', config', hargs', hconfig', rfl⟩ := h'
  rw [hargs] at hargs'
  cases hargs'
  rw [hconfig] at hconfig'
  cases hconfig'
  rfl

namespace FileSystem

theorem run_eq_ok (h : fs.run args = (.ok (), fs')) :
    ∃ made, Id.run (prepare (fun path => pure (fs.readFile path)) args) = .ok made ∧
      fs.writeJson made.path made.layout made.output = (.ok (), fs') := by
  rw [run] at h
  split at h
  · cases h
  · next made hmade =>
    split at h
    · next hwritten =>
      cases h
      exact ⟨made, hmade, hwritten⟩
    · cases h

theorem writeJson_again {path : String} {layout : Json.Layout} {j : Json}
    (h : fs.writeJson path layout j = (.ok (), fs')) :
    fs'.writeJson path layout j = (.ok (), fs') :=
  writeNested_again h

/-- A run that has succeeded can be repeated and changes nothing any more, if its configuration was
there from the start and it has written neither over that nor over its input. -/
theorem run_again {out : String} (hrun : fs.run args = (.ok (), fs'))
    (hargs : Invocation.ofArguments args = .ok invocation) (hout : IsOutputPath fs args out)
    (hconfig : fs.filePlace? invocation.options.config ≠ none)
    (hnotConfig : fs.filePlace? invocation.options.config ≠ fs'.filePlace? out)
    (hnotInput : fs.filePlace? invocation.options.input ≠ fs'.filePlace? out) :
    fs'.run args = (.ok (), fs') := by
  obtain ⟨made, hprepare, hwritten⟩ := run_eq_ok hrun
  have hpath : made.path = out := by
    have hcases := prepare_cases fs args
    rw [hprepare] at hcases
    exact hout.eq hcases
  have heffect := fs.writeJson_effect made.path made.layout made.output
  rw [hwritten] at heffect
  obtain ⟨loc, hwrites⟩ := heffect
  rw [← hpath, hwrites.filePlace?] at hnotConfig hnotInput
  obtain ⟨place, hplace⟩ := Option.ne_none_iff_exists'.1 hconfig
  obtain ⟨settings, hsettings⟩ := filePlace?_eq_some.1 hplace
  have hreadConfig : fs.readFile invocation.options.config = .ok settings :=
    readFile_eq_ok.2 ⟨place, hsettings⟩
  obtain ⟨input, hreadInput⟩ := exists_input_of_prepare hargs hprepare
  have hsame := prepare_congr hargs
    ((hwrites.readFile_of_ne hreadConfig hnotConfig).trans hreadConfig.symm)
    ((hwrites.readFile_of_ne hreadInput hnotInput).trans hreadInput.symm)
  rw [run, hsame, hprepare]
  dsimp only
  rw [writeJson_again hwritten]

/-- A directory with an input and with a configuration whose output path goes through a directory
that is not there yet and back. -/
def home : FileSystem :=
  ⟨["home"], [(["home"], .directory),
    (["home", "in.json"], .file "\x7b\"hi\":[\x7b\"type\":0,\"value\":\"Hi\"\x7d]\x7d".toUTF8),
    (["home", "c.toml"], .file "out_file = \"new/../a/b.json\"".toUTF8)]⟩

def homeArgs : List String :=
  ["print", "--input", "in.json", "--config", "c.toml"]

/-- The second run finds all directories that the first one has made on its way. -/
theorem run_again_home :
    let written := (home.run homeArgs).2
    home.run homeArgs = (.ok (), written) ∧ IsOutputPath home homeArgs "new/../a/b.json" ∧
      home.filePlace? "c.toml" = some ["home", "c.toml"] ∧
      home.filePlace? "in.json" = some ["home", "in.json"] ∧
      written.filePlace? "new/../a/b.json" = some ["home", "a", "b.json"] ∧
      written.run homeArgs = (.ok (), written) := by
  -- for any pair, so that nothing is evaluated but by the kernel
  have hpair : ∀ r : Except RunError Unit × FileSystem,
      r.1.toOption = some () → r = (.ok (), r.2) := by
    rintro ⟨result, fs⟩ h
    obtain rfl : result = .ok () := toOption_eq_some.1 h
    rfl
  have hrun := hpair (home.run homeArgs) (by decide +kernel)
  have hsettings : (Config.ofFileOrDefault (home.readFile "c.toml")).toOption =
      some ⟨"new/../a/b.json", true, "warn"⟩ := by decide +kernel
  have hargs : Invocation.ofArguments homeArgs = .ok ⟨.print, "in.json", none, "c.toml"⟩ := rfl
  have hout : IsOutputPath home homeArgs "new/../a/b.json" :=
    ⟨_, _, hargs, toOption_eq_some.1 hsettings, by decide +kernel⟩
  have hconfig : home.filePlace? "c.toml" = some ["home", "c.toml"] := by decide +kernel
  have hinput : home.filePlace? "in.json" = some ["home", "in.json"] := by decide +kernel
  have hplace : filePlace? (home.run homeArgs).2 "new/../a/b.json" =
      some ["home", "a", "b.json"] := by decide +kernel
  refine ⟨hrun, hout, hconfig, hinput, hplace, run_again hrun hargs hout ?_ ?_ ?_⟩
  · rw [hconfig]
    exact Option.some_ne_none _
  · rw [hconfig, hplace]
    decide
  · rw [hinput, hplace]
    decide

end FileSystem

end MessageFormat
