import Mathlib.Algebra.Ring.Parity
import Mathlib.Data.List.Basic
import MessageFormat.Command.Arguments
import MessageFormat.Proofs.Agree
import MessageFormat.Proofs.Path.Components

/-!
# Which arguments are taken

Arguments are read two at a time, so what counts is what stands at the even places, counted from 0.
Flags must stand there and nothing else, each has a value behind it, and the last one of a kind
counts. The message about a value that is missing is given exactly if nothing but that is wrong.
Where the output goes is a matter of the options and of the configuration.
-/

namespace MessageFormat

/-- Every even place holds a flag. -/
def FlagsInPlace (args : List String) : Prop :=
  ∀ i arg, args[2 * i]? = some arg → ∃ flag : Flag, flag.name = arg

namespace Flag

/-- The flag stands at an even place. -/
def StandsIn (flag : Flag) (args : List String) : Prop :=
  ∃ i, args[2 * i]? = some flag.name

/-- The value stands right behind the last even place that holds the flag. -/
def FollowsLast (flag : Flag) (value : String) (args : List String) : Prop :=
  ∃ i, args[2 * i]? = some flag.name ∧ args[2 * i + 1]? = some value ∧
    ∀ j > i, args[2 * j]? ≠ some flag.name

variable {flag other : Flag} {arg value last : String} {args : List String}

theorem name_injective (h : flag.name = other.name) : flag = other := by
  cases flag <;> cases other <;> simp [name] at h ⊢

theorem ofName?_eq_some_iff : ofName? arg = some flag ↔ flag.name = arg := by
  constructor
  · intro h
    unfold ofName? at h
    split_ifs at h with hinput hout hconfig
    · cases h
      exact hinput.symm
    · cases h
      exact hout.symm
    · cases h
      exact hconfig.symm
  · rintro rfl
    cases flag <;> rfl

theorem ofName?_eq_none_iff : ofName? arg = none ↔ ¬ ∃ flag : Flag, flag.name = arg := by
  simp only [← ofName?_eq_some_iff, Option.eq_none_iff_forall_ne_some, not_exists, ne_eq]

/-! ### Two arguments more -/

theorem not_standsIn_nil : ¬ flag.StandsIn [] := by
  rintro ⟨i, hi⟩
  cases hi

theorem standsIn_cons_cons :
    flag.StandsIn (arg :: value :: args) ↔ flag.name = arg ∨ flag.StandsIn args := by
  constructor
  · rintro ⟨i, hi⟩
    cases i with
    | zero => exact .inl (Option.some.inj hi).symm
    | succ i => exact .inr ⟨i, hi⟩
  · rintro (rfl | ⟨i, hi⟩)
    · exact ⟨0, rfl⟩
    · exact ⟨i + 1, hi⟩

theorem FollowsLast.standsIn (h : flag.FollowsLast value args) : flag.StandsIn args := by
  obtain ⟨i, hflag, -⟩ := h
  exact ⟨i, hflag⟩

theorem FollowsLast.cons_cons (h : flag.FollowsLast last args) (arg value : String) :
    flag.FollowsLast last (arg :: value :: args) := by
  obtain ⟨i, hflag, hlast, hafter⟩ := h
  refine ⟨i + 1, hflag, hlast, fun j hj => ?_⟩
  cases j with
  | zero => cases hj
  | succ j => exact hafter j (Nat.lt_of_succ_lt_succ hj)

theorem followsLast_head (h : ¬ flag.StandsIn args) (value : String) :
    flag.FollowsLast value (flag.name :: value :: args) := by
  refine ⟨0, rfl, rfl, fun j hj => ?_⟩
  cases j with
  | zero => cases hj
  | succ j => exact fun hflag => h ⟨j, hflag⟩

end Flag

theorem flagsInPlace_nil : FlagsInPlace [] := nofun

theorem flagsInPlace_singleton {arg : String} :
    FlagsInPlace [arg] ↔ ∃ flag : Flag, flag.name = arg := by
  constructor
  · exact fun h => h 0 arg rfl
  · intro h i a ha
    cases i with
    | zero =>
      cases ha
      exact h
    | succ i => cases ha

theorem flagsInPlace_cons_cons {arg value : String} {args : List String} :
    FlagsInPlace (arg :: value :: args) ↔ (∃ flag : Flag, flag.name = arg) ∧ FlagsInPlace args := by
  constructor
  · exact fun h => ⟨h 0 arg rfl, fun i => h (i + 1)⟩
  · rintro ⟨h, hargs⟩ i a ha
    cases i with
    | zero =>
      cases ha
      exact h
    | succ i => exact hargs i a ha

/-! ### The message about a missing value -/

namespace UsageError

variable {c : Char} {s t : String}

theorem not_mem_toList_ofList {l : List Char} (h : c ∉ l) : c ∉ (String.ofList l).toList := by
  rwa [String.toList_ofList]

theorem not_mem_toList_append (hs : c ∉ s.toList) (ht : c ∉ t.toList) : c ∉ (s ++ t).toList := by
  simp [hs, ht]

/-- The letter q stands in a message about a missing value once, behind the name of the flag. -/
theorem not_mem_usage : 'q' ∉ usage.toList :=
  not_mem_toList_append (not_mem_toList_ofList (by decide)) (not_mem_toList_ofList (by decide))

/-- A message asks for the value of what it starts with only if that is a flag without one. -/
theorem startsWith_message_iff {error : UsageError} {name : String} :
    error.message.startsWith (name ++ " requires a value") = true ↔
      ∃ flag : Flag, error = .missingValue flag ∧ flag.name = name := by
  rw [String.startsWith_string_iff]
  constructor
  · rintro ⟨rest, h⟩
    cases error with
    | malformed =>
      have hq : 'q' ∈ (name ++ " requires a value").toList ++ rest := by simp
      rw [h] at hq
      exact absurd hq not_mem_usage
    | missingValue flag =>
      have hcut : (flag.name ++ " re").toList ++ 'q' :: ("uires a value\n\n" ++ usage).toList =
          (name ++ " re").toList ++ 'q' :: ("uires a value".toList ++ rest) := by
        rw [message] at h
        simp only [String.toList_append] at h ⊢
        simpa using h.symm
      have hbefore : 'q' ∉ (flag.name ++ " re").toList := by
        cases flag <;>
          exact not_mem_toList_append (not_mem_toList_ofList (by decide))
            (not_mem_toList_ofList (by decide))
      have hafter : 'q' ∉ ("uires a value\n\n" ++ usage).toList :=
        not_mem_toList_append (not_mem_toList_ofList (by decide)) not_mem_usage
      obtain ⟨hname, -, -⟩ := (List.append_cons_inj_of_notMem hbefore hafter).1 hcut
      rw [String.toList_append, String.toList_append] at hname
      exact ⟨flag, rfl, String.toList_inj.1 (List.append_cancel_right hname)⟩
  · rintro ⟨flag, rfl, rfl⟩
    refine ⟨("\n\n" ++ usage).toList, ?_⟩
    simp [message]

end UsageError

namespace Options

/-- What a flag is set to. -/
def Given.get? (given : Given) : Flag → Option String
  | .input => given.input
  | .out => given.out
  | .config => some given.config

theorem Given.get?_set (given : Given) (value : String) (flag other : Flag) :
    (given.set value flag).get? other = if flag = other then some value else given.get? other := by
  cases flag <;> cases other <;> rfl

/-- A flag is set to the value behind its last place, and stays what it was if it has none. -/
def Given.Becomes (given given' : Given) (args : List String) (flag : Flag) : Prop :=
  (∃ value, flag.FollowsLast value args ∧ given'.get? flag = some value) ∨
    ¬ flag.StandsIn args ∧ given'.get? flag = given.get? flag

/-- A flag that has no value yet and ends up with one has got it last. -/
theorem Given.Becomes.followsLast {given given' : Given} {args : List String} {flag : Flag}
    {value : String} (h : given.Becomes given' args flag) (hbefore : given.get? flag = none)
    (hafter : given'.get? flag = some value) : flag.FollowsLast value args := by
  rcases h with ⟨last, hlast, hget⟩ | ⟨-, hget⟩
  · rw [hafter] at hget
    cases hget
    exact hlast
  · rw [hafter, hbefore] at hget
    cases hget

theorem Given.Becomes.cons_cons {given given' : Given} {args : List String} {flag other : Flag}
    {value : String} (h : (given.set value flag).Becomes given' args other) :
    given.Becomes given' (flag.name :: value :: args) other := by
  rcases h with ⟨last, hlast, hget⟩ | ⟨hargs, hget⟩
  · exact .inl ⟨last, hlast.cons_cons _ _, hget⟩
  · rw [get?_set] at hget
    by_cases hflag : flag = other
    · subst hflag
      rw [if_pos rfl] at hget
      exact .inl ⟨value, Flag.followsLast_head hargs value, hget⟩
    · rw [if_neg hflag] at hget
      refine .inr ⟨fun hstands => ?_, hget⟩
      rcases Flag.standsIn_cons_cons.1 hstands with hname | hstands
      · exact hflag (Flag.name_injective hname).symm
      · exact hargs hstands

/-- What reading makes of the settings so far, and what is wrong where it fails. -/
theorem readPairs_cases (given : Given) (args : List String) :
    match readPairs given args with
    | .ok given' => Even args.length ∧ FlagsInPlace args ∧ ∀ flag, given.Becomes given' args flag
    | .error (.missingValue flag) =>
        Odd args.length ∧ FlagsInPlace args ∧ args.getLast? = some flag.name
    | .error .malformed => ¬ FlagsInPlace args := by
  fun_induction readPairs given args with
  | case1 given => exact ⟨Even.zero, flagsInPlace_nil, fun _ => .inr ⟨Flag.not_standsIn_nil, rfl⟩⟩
  | case2 given arg flag hflag =>
    obtain rfl := Flag.ofName?_eq_some_iff.1 hflag
    exact ⟨odd_one, flagsInPlace_singleton.2 ⟨flag, rfl⟩, rfl⟩
  | case3 given arg hnone =>
    exact fun hplaces => Flag.ofName?_eq_none_iff.1 hnone (flagsInPlace_singleton.1 hplaces)
  | case4 given arg value args flag hflag ih =>
    -- the rest is read with the first value set already, so it tells only of places behind that
    obtain rfl := Flag.ofName?_eq_some_iff.1 hflag
    have hplaces : FlagsInPlace args → FlagsInPlace (flag.name :: value :: args) := fun h =>
      flagsInPlace_cons_cons.2 ⟨⟨flag, rfl⟩, h⟩
    generalize readPairs (given.set value flag) args = result at ih ⊢
    rw [List.length_cons, List.length_cons]
    cases result with
    | ok given' =>
      obtain ⟨heven, hargs, hset⟩ := ih
      exact ⟨heven.add even_two, hplaces hargs, fun other => (hset other).cons_cons⟩
    | error error =>
      cases error with
      | malformed => exact fun h => ih (flagsInPlace_cons_cons.1 h).2
      | missingValue last =>
        obtain ⟨hodd, hargs, hlast⟩ := ih
        refine ⟨hodd.add_even even_two, hplaces hargs, ?_⟩
        rw [List.getLast?_cons, List.getLast?_cons, hlast]
        rfl
  | case5 given arg value args hnone =>
    exact fun hplaces => Flag.ofName?_eq_none_iff.1 hnone (flagsInPlace_cons_cons.1 hplaces).1

/-- Each option is the last value of its flag, or what it is when the flag is missing. -/
structure SetBy (options : Options) (args : List String) : Prop where
  input : Flag.input.FollowsLast options.input args
  out : (∃ out, Flag.out.FollowsLast out args ∧ options.out = some out) ∨
    ¬ Flag.out.StandsIn args ∧ options.out = none
  config : Flag.config.FollowsLast options.config args ∨
    ¬ Flag.config.StandsIn args ∧ options.config = "icu-print.toml"

variable {args : List String} {options : Options} {error : UsageError}

theorem ofArguments_ok (h : ofArguments args = .ok options) :
    (Even args.length ∧ FlagsInPlace args ∧ Flag.input.StandsIn args) ∧ options.SetBy args := by
  obtain ⟨given, hread, hinput⟩ := bind_eq_ok.1 h
  have hcases := readPairs_cases ⟨none, none, "icu-print.toml"⟩ args
  rw [hread] at hcases
  obtain ⟨heven, hplaces, hset⟩ := hcases
  split at hinput
  · next input hgiven =>
    cases hinput
    have hlast : Flag.input.FollowsLast input args := (hset .input).followsLast rfl hgiven
    refine ⟨⟨heven, hplaces, hlast.standsIn⟩, hlast, hset .out, ?_⟩
    rcases hset .config with ⟨value, hlast, hvalue⟩ | ⟨hstands, hvalue⟩
    · cases hvalue
      exact .inl hlast
    · exact .inr ⟨hstands, Option.some.inj hvalue⟩
  · cases hinput

theorem ofArguments_error (h : ofArguments args = .error error) :
    ¬ (Even args.length ∧ FlagsInPlace args ∧ Flag.input.StandsIn args) ∧
      ∀ name : String, error.message.startsWith (name ++ " requires a value") = true ↔
        Odd args.length ∧ FlagsInPlace args ∧ args.getLast? = some name := by
  have hcases := readPairs_cases ⟨none, none, "icu-print.toml"⟩ args
  simp only [UsageError.startsWith_message_iff]
  rcases bind_eq_error.1 h with hread | ⟨given, hread, hinput⟩
  · rw [hread] at hcases
    cases error with
    | malformed => exact ⟨fun hgiven => hcases hgiven.2.1, fun name =>
        iff_of_false (by simp) fun hgiven => hcases hgiven.2.1⟩
    | missingValue flag =>
      obtain ⟨hodd, hplaces, hlast⟩ := hcases
      refine ⟨fun hgiven => Nat.not_even_iff_odd.2 hodd hgiven.1, fun name => ?_⟩
      simp [hodd, hplaces, hlast]
  · rw [hread] at hcases
    obtain ⟨heven, hplaces, hset⟩ := hcases
    split at hinput
    · cases hinput
    · next hgiven =>
      cases hinput
      refine ⟨fun hall => ?_, fun name => iff_of_false (by simp) fun hall =>
        Nat.not_odd_iff_even.2 heven hall.1⟩
      rcases hset .input with ⟨value, -, hvalue⟩ | ⟨hstands, -⟩
      · rw [Given.get?, hgiven] at hvalue
        cases hvalue
      · exact hstands hall.2.2

/-- Arguments are taken exactly if they are flags with a value each and an input is among them. -/
theorem ofArguments_cases (args : List String) :
    ((∃ options, ofArguments args = .ok options) ↔
      Even args.length ∧ FlagsInPlace args ∧ Flag.input.StandsIn args) ∧
    match ofArguments args with
    | .ok options => options.SetBy args
    | .error error => ∀ name : String,
        error.message.startsWith (name ++ " requires a value") = true ↔
          Odd args.length ∧ FlagsInPlace args ∧ args.getLast? = some name := by
  cases hargs : ofArguments args with
  | ok options =>
    obtain ⟨hgiven, hset⟩ := ofArguments_ok hargs
    exact ⟨iff_of_true ⟨options, rfl⟩ hgiven, hset⟩
  | error error =>
    obtain ⟨hgiven, hmessage⟩ := ofArguments_error hargs
    exact ⟨iff_of_false nofun hgiven, hmessage⟩

example : ofArguments ["--input", "--out", "--input", "b", "--config", "--help"] =
    .ok ⟨"b", none, "--help"⟩ := rfl

/-! ### Where the output goes -/

/-- A path that is named is taken as it is, and so is an absolute one that is configured. Otherwise
the output is put next to the configuration file, however both paths are spelled. -/
theorem components_outPath (options : Options) (config : Config) :
    match options.out with
    | some out => options.outPath config = out
    | none =>
      if Path.isAbsolute config.outFile then options.outPath config = config.outFile
      else Path.components (options.outPath config) =
        (Path.components options.config).dropLast ++ Path.components config.outFile := by
  rw [outPath]
  cases options.out with
  | some out => rfl
  | none =>
    dsimp only
    split
    · next habsolute => rw [Path.join, if_pos habsolute]
    · next hrelative =>
      rw [Path.components_join _ (eq_false_of_ne_true hrelative), Path.components_parent?]

end Options

end MessageFormat
