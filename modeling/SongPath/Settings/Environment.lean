import SongPath.Settings.Value

/-!
# Settings from environment variables

A variable whose name starts with `KARA_` gives the setting named by the rest.
Names are compared without regard to case.  A double underscore in the rest
stands for a dot, which separates a key from a key inside it.
-/

namespace SongPath
namespace Settings

/-- The names of variables with their values. -/
abbrev Environment := List (Text × Text)

namespace Environment

/-- The value of a variable.  Its name is compared exactly. -/
def value? (environment : Environment) (name : Text) : Option Text :=
  (environment.find? fun assigned => assigned.1 == name).map (·.2)

/-- The start of the names of settings variables, in lower case. -/
def leader : Text :=
  "kara_".toList

/-- The key whose variable holds several values. -/
def listKey : Text :=
  "formats".toList

/-- What separates the values of a list. -/
def listSeparator : Char :=
  ';'

/-- Write double underscores as dots, from left to right. -/
def dotted : Text -> Text
  | [] => []
  | '_' :: '_' :: rest => '.' :: dotted rest
  | char :: rest => char :: dotted rest

/-- Words for numbers that are not finite, in any case, behind an optional
sign. -/
def specialReal? (text : Text) : Option Binary64 :=
  let (sign, rest) := Numeral.scanSign text
  if rest.lower == "nan".toList then some .nan
  else if rest.lower == "inf".toList || rest.lower == "infinity".toList then
    some (.infinite (sign == some '-'))
  else none

/-- A number in decimal notation.  Leading zeros are allowed, and so is a point
with digits on one side only. -/
def decimal? (text : Text) : Option Value :=
  let (numeral, rest) := Numeral.scan text
  if !rest.isEmpty || !numeral.hasPower then none
  else if (numeral.whole ++ numeral.fraction.getD []).isEmpty then none
  else if numeral.isWhole && Value.fits numeral.integer then some (.integer numeral.integer)
  else some (.real (Binary64.nearest numeral.value))

/-- A truth value in any case, or a number. -/
def scalar? (text : Text) : Option Value :=
  if text.lower == "true".toList then some (.bool true)
  else if text.lower == "false".toList then some (.bool false)
  else (decimal? text).or ((specialReal? text).map .real)

/-- The texts between separators, empty ones included. -/
def texts (text : Text) : List Value :=
  (text.splitOnP (· == listSeparator)).map Value.text

/-- The value of a variable: a truth value, a number, or else a text.  Only a
text is cut into several, and only for the key that holds several. -/
def reading (key text : Text) : Value :=
  match scalar? text with
  | some value => value
  | none => if key == listKey then .list (texts text) else .text text

/-- The setting that a variable gives. -/
def entry? (assigned : Text × Text) : Option (Text × Value) :=
  let name := assigned.1.lower
  if !leader.isPrefixOf name then none
  else
    let key := dotted (name.drop leader.length)
    some (key, reading key assigned.2)

/-- The settings that the variables give, in order. -/
def entries (environment : Environment) : List (Text × Value) :=
  environment.filterMap entry?

end Environment
end Settings
end SongPath
