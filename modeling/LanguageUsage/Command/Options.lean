/-!
# Options on a command line

Arguments that start with a dash are options. A long option has its value after an equals sign or in
the next argument; short options may be run together, and what follows one that takes a value is its
value. After `--` there are no options. A lone dash is an argument like any other.

* `OptionSpec`: an option by its names, and whether it takes a value;
* `readOption`: what one argument says;
* `splitArguments`: the options and the other arguments of a command line.
-/

namespace LanguageUsage

/-- An option. -/
structure OptionSpec where
  long : String
  short : Option Char := none
  takesValue : Bool := false
  deriving DecidableEq, Repr

/-- An option that was given, with its value. One that takes no value has the empty one. -/
structure GivenOption where
  long : String
  value : String
  deriving DecidableEq, Repr

/-- What one argument says: the options that are complete, and one that waits for its value. -/
structure OptionReading where
  complete : List GivenOption := []
  waiting : Option String := none
  deriving DecidableEq, Repr

/-- The argument is an option, or several. -/
def isOption (argument : String) : Bool :=
  match argument.toList with
  | '-' :: _ :: _ => true
  | _ => false

/-- The options of a run of letters after a dash. -/
def readShort (specs : List OptionSpec) : List Char → Option OptionReading
  | [] => some {}
  | c :: cs =>
    match specs.find? fun s => s.short = some c with
    | none => none
    | some s =>
      if s.takesValue then
        if cs = [] then some { waiting := some s.long }
        else some { complete := [⟨s.long, String.ofList cs⟩] }
      else (readShort specs cs).map fun r => { r with complete := ⟨s.long, ""⟩ :: r.complete }

/-- What an argument that starts with a dash says. Without an option of that name it says nothing
that can be understood. -/
def readOption (specs : List OptionSpec) (argument : String) : Option OptionReading :=
  let cs := argument.toList
  let name := cs.takeWhile (· != '=')
  let value := (cs.dropWhile (· != '=')).drop 1
  match specs.find? fun s => "--" ++ s.long = String.ofList name with
  | some s =>
    if s.takesValue then
      if cs.contains '=' then some { complete := [⟨s.long, String.ofList value⟩] }
      else some { waiting := some s.long }
    else if cs.contains '=' then none
    else some { complete := [⟨s.long, ""⟩] }
  | none => if cs.take 2 = ['-', '-'] then none else readShort specs (cs.drop 1)

/-- The options and the other arguments. If `mixed`, options may stand between the arguments,
otherwise the first argument ends them. -/
def splitArguments (specs : List OptionSpec) (mixed : Bool) :
    List String → Option (List GivenOption × List String)
  | [] => some ([], [])
  | a :: rest =>
    if a = "--" then some ([], rest)
    else if isOption a then
      match readOption specs a with
      | none => none
      | some ⟨complete, none⟩ =>
        (splitArguments specs mixed rest).map fun r => (complete ++ r.1, r.2)
      | some ⟨complete, some name⟩ =>
        match rest with
        | [] => none
        | value :: rest =>
          (splitArguments specs mixed rest).map fun r => (complete ++ ⟨name, value⟩ :: r.1, r.2)
    else if mixed then (splitArguments specs mixed rest).map fun r => (r.1, a :: r.2)
    else some ([], a :: rest)

/-- An option is among those that were given. -/
def isGiven (options : List GivenOption) (long : String) : Bool := options.any (·.long == long)

/-- The value of an option; if it is given several times, the last one. -/
def valueGiven (options : List GivenOption) (long : String) : Option String :=
  (options.reverse.find? (·.long == long)).map (·.value)

end LanguageUsage
