import LanguageUsage.Command.Options
import LanguageUsage.Signal.Kind

/-!
# Commands

What can be asked for on the command line. A command line is read in two steps, because the settings
are loaded in between: first the options in front and the name of the command, then the arguments of
that command.

* `CommandName`, `Invocation`, `Invocation.read`;
* `Command`, `Command.read`.
-/

namespace LanguageUsage

/-- The commands by name. -/
inductive CommandName
  | classify
  | converse
  | detect
  | counters
  | status
  deriving DecidableEq, Repr, Inhabited

namespace CommandName

def all : List CommandName := [.classify, .converse, .detect, .counters, .status]

/-- The word for a command. -/
def word : CommandName → String
  | .classify => "classify"
  | .converse => "converse"
  | .detect => "detect"
  | .counters => "show"
  | .status => "status"

/-- The command for a word. -/
def ofWord? (w : String) : Option CommandName := all.find? fun c => c.word == w

/-- The options of a command. -/
def options : CommandName → List OptionSpec
  | .converse => [⟨"notification-key", some 'k', true⟩, ⟨"help", none, false⟩]
  | .counters => [⟨"kind", none, true⟩, ⟨"help", none, false⟩]
  | _ => [⟨"help", none, false⟩]

end CommandName

/-- What a command line asks for, as far as its front goes. -/
inductive Invocation
  /-- it cannot be understood -/
  | misuse
  | help
  | version
  /-- a command with its arguments, and the settings file that is asked for -/
  | command (settings : Option String) (name : CommandName) (arguments : List String)
  /-- no command that is known, and the settings file that is asked for -/
  | unknown (settings : Option String)
  deriving DecidableEq, Repr

namespace Invocation

/-- The options in front of a command. -/
def options : List OptionSpec :=
  [⟨"config", none, true⟩, ⟨"verbose", some 'v', false⟩, ⟨"version", none, false⟩,
    ⟨"help", none, false⟩]

/-- The first of the given options that is answered by itself. -/
def immediate (given : List GivenOption) : Option Invocation :=
  given.findSome? fun o =>
    if o.long = "version" then some .version
    else if o.long = "help" then some .help
    else none

/-- Read the front of a command line. -/
def read (arguments : List String) : Invocation :=
  match splitArguments options false arguments with
  | none => .misuse
  | some (given, rest) =>
    match immediate given with
    | some i => i
    | none =>
      let settings := valueGiven given "config"
      match rest with
      | [] => .unknown settings
      | w :: rest =>
        match CommandName.ofWord? w with
        | some c => .command settings c rest
        | none => .unknown settings

end Invocation

/-- A command with its arguments. -/
inductive Command
  | classify (tags : List String)
  | converse (texts : List String) (notification : Option String)
  | detect (text : String)
  /-- the counters of one kind, or of all -/
  | counters (kind : Option SignalKind)
  | status
  | help
  deriving DecidableEq, Repr

namespace Command

/-- The word for a kind of signal. -/
def kindOfWord? : String → Option SignalKind
  | "conversation" => some .conversationActions
  | "classify" => some .classifyText
  | _ => none

/-- Read the arguments of a command, which may be misused. -/
def read (name : CommandName) (arguments : List String) : Option Command :=
  match splitArguments name.options true arguments with
  | none => none
  | some (given, rest) =>
    if isGiven given "help" then some .help
    else
      match name, rest with
      | .classify, t :: ts => some (.classify (t :: ts))
      | .converse, t :: ts => some (.converse (t :: ts) (valueGiven given "notification-key"))
      | .detect, [t] => some (.detect t)
      | .counters, [] =>
        match valueGiven given "kind" with
        | none => some (.counters none)
        | some w => (kindOfWord? w).map fun k => .counters (some k)
      | .status, [] => some .status
      | _, _ => none

end Command

end LanguageUsage
