import ShaderAssets.Text.Split

/-!
# Command line arguments

A level of a command line has options, which take one value each, flags, a number
of positional arguments and perhaps the names of commands that open a further
level.  An option's value follows it or is attached to it behind an equals sign.
After `--` every argument is positional.

The value of an option is looked at only when the next argument or the end has been
reached, so a later argument that is not known at all is reported first.
-/

namespace ShaderAssets
namespace Cli

/-- Why a command line is not run as a command. -/
inductive UsageError where
  | missingArgument
  | unknownArgument
  | invalidValue
  /-- An option or flag was given twice. -/
  | conflict
  /-- A flag was given a value. -/
  | tooManyValues
  | unknownCommand
  | helpWanted
  | versionWanted
deriving DecidableEq, Repr, Inhabited

/-- An option that takes a value. -/
structure OptionSpec where
  name : String
  accepts : String → Bool

/-- What a level of a command line may hold. -/
structure Level where
  options : List OptionSpec
  flags : List String
  positionals : Nat
  commands : List String
  hasVersion : Bool

/-- What a level of a command line held. -/
structure Given where
  values : List (String × String)
  flags : List String
  positionals : List String
  /-- The last option, with its value if that has been found. -/
  pending : Option (OptionSpec × Option String)

namespace Given

/-- Nothing yet. -/
def empty : Given := ⟨[], [], [], none⟩

/-- The value of an option. -/
def value? (g : Given) (name : String) : Option String :=
  g.values.lookup name

/-- Takes the value of an option in. -/
def addValue (g : Given) (spec : OptionSpec) (value : String) : Except UsageError Given :=
  if (g.value? spec.name).isSome then .error .conflict
  else if !spec.accepts value then .error .invalidValue
  else .ok { g with values := g.values ++ [(spec.name, value)] }

/-- Takes the pending option in; it must have a value. -/
def settle (g : Given) : Except UsageError Given :=
  match g.pending with
  | none => .ok g
  | some (_, none) => .error .invalidValue
  | some (spec, some value) => { g with pending := none }.addValue spec value

/-- Whether the next argument is the value of an option. -/
def awaitsValue (g : Given) : Bool :=
  match g.pending with
  | some (_, none) => true
  | _ => false

/-- Takes a flag in. -/
def addFlag (g : Given) (name : String) : Except UsageError Given :=
  if g.flags.contains name then .error .conflict
  else .ok { g with flags := g.flags ++ [name] }

end Given

namespace Level

/-- Takes an argument with two leading dashes in, given what follows them. -/
def takeLong (level : Level) (g : Given) (body : List Char) : Except UsageError Given :=
  let (name, attached) := match Text.splitOnce '=' body with
    | some (name, value) => (String.ofList name, some (String.ofList value))
    | none => (String.ofList body, none)
  match level.options.find? fun o => o.name == name with
  | some spec => do
      let g ← g.settle
      match attached with
      | some value => g.addValue spec value
      | none => return { g with pending := some (spec, none) }
  | none =>
      let isHelp := name == "help"
      let isVersion := level.hasVersion && name == "version"
      if isHelp || isVersion || level.flags.contains name then
        if attached.isSome then .error .tooManyValues
        else do
          let g ← g.settle
          if isHelp then throw .helpWanted
          if isVersion then throw .versionWanted
          g.addFlag name
      else .error .unknownArgument

/-- Takes an argument with one leading dash in, given what follows it.  The only
letters are those for help and for the version. -/
def takeShort (level : Level) (g : Given) (body : List Char) : Except UsageError Given :=
  match body.head? with
  | some 'h' => do
      let _ ← g.settle
      throw .helpWanted
  | some 'V' =>
      if level.hasVersion then do
        let _ ← g.settle
        throw .versionWanted
      else .error .unknownArgument
  | _ => .error .unknownArgument

/-- Takes a positional argument in. -/
def takePositional (level : Level) (g : Given) (literal : Bool) (a : String) :
    Except UsageError Given :=
  if g.positionals.length < level.positionals then do
    let g ← g.settle
    return { g with positionals := g.positionals ++ [a] }
  else if level.commands.isEmpty || (literal && level.commands.contains a) then
    .error .unknownArgument
  else .error .unknownCommand

/-- Reads arguments up to the name of a command, which is given with the arguments
behind it. -/
def readFrom (level : Level) (g : Given) (literal : Bool) :
    List String → Except UsageError (Given × Option (String × List String))
  | [] => .ok (g, none)
  | a :: rest =>
      if literal then do
        level.readFrom (← level.takePositional g true a) true rest
      else if !g.awaitsValue && level.commands.contains a then .ok (g, some (a, rest))
      else
        match a.toList with
        | ['-', '-'] => level.readFrom g true rest
        | '-' :: '-' :: body => do level.readFrom (← level.takeLong g body) false rest
        | '-' :: c :: body => do level.readFrom (← level.takeShort g (c :: body)) false rest
        | _ =>
            match g.pending with
            | some (spec, none) =>
                level.readFrom { g with pending := some (spec, some a) } false rest
            | _ => do level.readFrom (← level.takePositional g false a) false rest

/-- Reads the arguments of a level. -/
def read (level : Level) (args : List String) :
    Except UsageError (Given × Option (String × List String)) :=
  level.readFrom .empty false args

end Level

end Cli
end ShaderAssets
