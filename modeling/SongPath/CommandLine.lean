import SongPath.Invocation

/-!
# The command line

A reader of arguments, for programs that run without any other.  Reading the
arguments gives either one invocation or a usage error without further detail.
Options and positional arguments may be mixed; behind `--` everything is
positional.  The option for the settings file may stand before or after the
command word, and the one behind it counts.  There is no help: who asks for it
makes a usage error.
-/

namespace SongPath

namespace CommandLine

/-- The command words. -/
inductive Verb where
  | check
  | regex
  | parse
  deriving DecidableEq, Repr

namespace Verb

/-- Every command word. -/
def all : List Verb :=
  [.check, .regex, .parse]

/-- How a command is written. -/
def word : Verb -> Text
  | .check => "check".toList
  | .regex => "regex".toList
  | .parse => "parse".toList

/-- The command of an argument. -/
def ofWord? (argument : Text) : Option Verb :=
  all.find? fun verb => verb.word == argument

end Verb

/-- The options that take a value. -/
inductive Valued where
  | config
  | format
  deriving DecidableEq, Repr

/-- An argument by its form: a positional one, an option with the value that is
attached to it, the switch, or an unknown option. -/
inductive Argument where
  | positional (text : Text)
  | valued (option : Valued) (attached : Option Text)
  | json
  | unknown
  deriving DecidableEq, Repr

namespace Argument

/-- The value behind a long option, which is attached by an equals sign. -/
def longValue? (option : Valued) : Text -> Argument
  | [] => .valued option none
  | '=' :: value => .valued option (some value)
  | _ => .unknown

/-- The value behind a short option, attached with or without an equals sign. -/
def shortValue? : Text -> Option Text
  | [] => none
  | '=' :: value => some value
  | value => some value

/-- The argument behind two dashes. -/
def ofLong (name : Text) : Argument :=
  if name = "json".toList then .json
  else if "config".toList.isPrefixOf name then longValue? .config (name.drop 6)
  else if "format".toList.isPrefixOf name then longValue? .format (name.drop 6)
  else .unknown

/-- The form of an argument.  A lone dash is positional. -/
def ofText : Text -> Argument
  | '-' :: '-' :: name => ofLong name
  | ['-'] => .positional ['-']
  | '-' :: 'c' :: rest => .valued .config (shortValue? rest)
  | '-' :: 'f' :: rest => .valued .format (shortValue? rest)
  | '-' :: _ => .unknown
  | text => .positional text

/-- What may be the value of an option that stands alone: no option, but
possibly a lone dash. -/
def isValue (text : Text) : Bool :=
  match ofText text with
  | .positional _ => true
  | _ => false

end Argument

/-- What the arguments have given so far. -/
structure Gathered where
  config : Option Text
  formats : List Text
  json : Bool
  positionals : List Text
  deriving DecidableEq, Repr

namespace Gathered

/-- Nothing yet. -/
def nothing : Gathered :=
  ⟨none, [], false, []⟩

/-- Add an option with its value.  The settings file may be named once and not
by an empty text; only `parse` has formats. -/
def withOption? (gathered : Gathered) (verb : Option Verb) (option : Valued) (value : Text) :
    Option Gathered :=
  match option with
  | .config =>
      if gathered.config.isSome || value.isEmpty then none
      else some { gathered with config := some value }
  | .format =>
      if verb = some .parse then some { gathered with formats := gathered.formats ++ [value] }
      else none

/-- Add the switch, which only `parse` has and which may be given once. -/
def withJson? (gathered : Gathered) (verb : Option Verb) : Option Gathered :=
  if verb = some .parse && !gathered.json then some { gathered with json := true }
  else none

/-- Add positional arguments. -/
def withPositionals (gathered : Gathered) (texts : List Text) : Gathered :=
  { gathered with positionals := gathered.positionals ++ texts }

end Gathered

/-- Gather the arguments behind a command word. -/
def gather? (verb : Verb) (gathered : Gathered) : List Text -> Option Gathered
  | [] => some gathered
  | ['-', '-'] :: rest => some (gathered.withPositionals rest)
  | argument :: rest =>
      match Argument.ofText argument with
      | .positional text => gather? verb (gathered.withPositionals [text]) rest
      | .json => (gathered.withJson? verb).bind fun gathered => gather? verb gathered rest
      | .valued option (some value) =>
          (gathered.withOption? verb option value).bind fun gathered => gather? verb gathered rest
      | .valued option none =>
          match rest with
          | value :: rest =>
              if Argument.isValue value then
                (gathered.withOption? verb option value).bind fun gathered =>
                  gather? verb gathered rest
              else none
          | [] => none
      | .unknown => none

/-- Gather the arguments in front of the command word; the word and what stands
behind it are returned with them. -/
def gatherFront? (gathered : Gathered) : List Text -> Option (Gathered × Verb × List Text)
  | [] => none
  | argument :: rest =>
      match Argument.ofText argument with
      | .positional text => (Verb.ofWord? text).map fun verb => (gathered, verb, rest)
      | .valued option (some value) =>
          (gathered.withOption? none option value).bind fun gathered => gatherFront? gathered rest
      | .valued option none =>
          match rest with
          | value :: rest =>
              if Argument.isValue value then
                (gathered.withOption? none option value).bind fun gathered =>
                  gatherFront? gathered rest
              else none
          | [] => none
      | .json => none
      | .unknown => none

/-- The command of a word with the arguments gathered behind it. -/
def command? (verb : Verb) (gathered : Gathered) : Option Command :=
  match verb, gathered.positionals with
  | .check, [] => none
  | .check, specs => some (.check specs)
  | .regex, [spec] => some (.regex spec)
  | .regex, _ => none
  | .parse, paths => some (.parse gathered.formats gathered.json paths)

/-- Read the arguments.  `fallback` stands in for the settings file on each
side of the command word where the option is absent, so an empty one is an
error unless the option is given on both sides. -/
def read? (fallback : Option Text) (arguments : List Text) : Option Invocation := do
  let (front, verb, rest) <- gatherFront? Gathered.nothing arguments
  let gathered <- gather? verb Gathered.nothing rest
  let command <- command? verb gathered
  if (front.config.isNone || gathered.config.isNone) && fallback == some [] then none
  else some ⟨(gathered.config.or front.config).or fallback, command⟩

end CommandLine
end SongPath
