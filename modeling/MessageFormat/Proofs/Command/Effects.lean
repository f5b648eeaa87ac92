import MessageFormat.Command.Run
import MessageFormat.Proofs.FileSystem.Growth

/-!
# What a run leaves behind

A run that succeeds has written one file, where its output path leads. A run that fails has written
none. Directories are made only on the way to the output path, and only by a run that has come to
writing: every failure before that leaves the file system as it was.
-/

namespace MessageFormat

/-- The path that the output of a run goes to, by its arguments and its configuration. -/
def IsOutputPath (fs : FileSystem) (args : List String) (path : String) : Prop :=
  ∃ invocation config, Invocation.ofArguments args = .ok invocation ∧
    Config.ofFileOrDefault (fs.readFile invocation.options.config) = .ok config ∧
    path = invocation.options.outPath config

variable {fs : FileSystem} {args : List String}

/-- An error from before anything is written. -/
def RunError.IsEarly (error : RunError) : Prop :=
  ∀ command reason, error ≠ .failed command (.output reason)

theorem Invocation.job_cases (invocation : Invocation) (config : Config)
    (input : Except IoError ByteArray) :
    match invocation.job config input with
    | .ok made => made.path = invocation.options.outPath config
    | .error error => error.IsEarly := by
  rw [Invocation.job]
  cases input.bind decodeText with
  | error reason => exact fun _ _ => nofun
  | ok text =>
    dsimp only
    cases invocation.command.output text with
    | error reason => exact fun _ _ => nofun
    | ok j => rfl

theorem prepare_cases (fs : FileSystem) (args : List String) :
    match Id.run (prepare (fun path => pure (fs.readFile path)) args) with
    | .ok made => IsOutputPath fs args made.path
    | .error error => error.IsEarly := by
  rw [prepare]
  cases hinvocation : Invocation.ofArguments args with
  | error error => exact fun _ _ => nofun
  | ok invocation =>
    simp only [pure_bind]
    cases hconfig : Config.ofFileOrDefault (fs.readFile invocation.options.config) with
    | error error => exact fun _ _ => nofun
    | ok config =>
      have hjob := invocation.job_cases config (fs.readFile invocation.options.input)
      simp only [Id.run_pure]
      split
      · next made hmade =>
        rw [hmade] at hjob
        exact ⟨invocation, config, hinvocation, hconfig, hjob⟩
      · next error herror =>
        rw [herror] at hjob
        exact hjob

theorem FileSystem.writeJson_effect (fs : FileSystem) (path : String) (layout : Json.Layout)
    (j : Json) :
    match fs.writeJson path layout j with
    | (.ok (), fs') => ∃ loc, Writes path loc (fileText layout j).toUTF8 fs fs'
    | (.error _, fs') => Grows (Path.IsAncestor · path) fs fs' :=
  fs.writeNested_effect path _

/-- What a run may do to the file system, by how it ends. -/
theorem FileSystem.run_effect (fs : FileSystem) (args : List String) :
    match fs.run args with
    | (.ok (), fs') => ∃ path loc content,
        IsOutputPath fs args path ∧ Writes path loc content fs fs'
    | (.error (.failed _ (.output _)), fs') => ∃ path,
        IsOutputPath fs args path ∧ Grows (Path.IsAncestor · path) fs fs'
    | (.error (.usage _), fs') | (.error (.config _), fs')
    | (.error (.failed _ (.input _)), fs')
    | (.error (.failed _ (.catalog _)), fs') => fs' = fs := by
  have hprepare := prepare_cases fs args
  rw [run]
  generalize Id.run (prepare (fun path => pure (fs.readFile path)) args) = prepared at hprepare ⊢
  cases prepared with
  | error error =>
    have hearly : error.IsEarly := hprepare
    cases error with
    | usage error => rfl
    | config error => rfl
    | failed command error =>
      cases error with
      | input error => rfl
      | catalog error => rfl
      | output error => exact absurd rfl (hearly command error)
  | ok made =>
    have heffect := fs.writeJson_effect made.path made.layout made.output
    dsimp only
    generalize fs.writeJson made.path made.layout made.output = written at heffect ⊢
    obtain ⟨result, fs'⟩ := written
    cases result with
    | error error => exact ⟨made.path, hprepare, heffect⟩
    | ok done =>
      obtain ⟨loc, hwrites⟩ := heffect
      exact ⟨made.path, loc, _, hprepare, hwrites⟩

example :
    let home : FileSystem :=
      ⟨["home"], [(["home"], .directory), (["home", "in.json"], .file "\x7b\x7d".toUTF8)]⟩
    (home.run ["print", "--input", "in.json", "--out", "d/out.json"]).1.toOption = some () := by
  decide +kernel

end MessageFormat
