import SongPath.Text

/-!
# Defects

The ways in which a format specification can be wrong.  A defect is a property
of the specification alone; it never depends on a path.  Defects of one part
carry that part, defects across folders carry a folder index.
-/

namespace SongPath

/-- Why a specification was refused. -/
inductive Defect where
  | emptySpecification
  | longStarRun (segment : Text) (run : Nat)
  | mixedDoubleStar (segment : Text)
  | secondDoubleStar (index : Nat)
  | doubleStarBesideStar (index : Nat)
  | starTouchesToken (segment token : Text)
  | unknownToken (segment name : Text)
  | unclosedToken (segment : Text)
  | oversizedSegment (segment : Text)
  deriving DecidableEq, Repr

namespace Defect

/-- A fragment between single quotes. -/
def quoted (fragment : Text) : Text :=
  '\'' :: fragment ++ ['\'']

/-- A raw name between braces. -/
def braced (name : Text) : Text :=
  '{' :: name ++ ['}']

/-- The wording shown to the user. -/
def message : Defect -> Text
  | .emptySpecification => "Format specification is empty".toList
  | .longStarRun segment run =>
      "Wildcard run of ".toList ++ Text.ofNat run ++
        " asterisks is not allowed in segment ".toList ++ quoted segment
  | .mixedDoubleStar segment =>
      "'**' may only stand alone as a folder segment, found in ".toList ++ quoted segment
  | .secondDoubleStar index =>
      "Only one '**' folder segment is allowed, found a second one at folder ".toList ++
        Text.ofNat index
  | .doubleStarBesideStar index =>
      "'**' at folder ".toList ++ Text.ofNat index ++ " is adjacent to a '*' folder segment".toList
  | .starTouchesToken segment token =>
      "'*' directly touches token ".toList ++ quoted (braced token) ++
        " in segment ".toList ++ quoted segment
  | .unknownToken segment name =>
      "Unknown token ".toList ++ quoted (braced name) ++ " in segment ".toList ++ quoted segment
  | .unclosedToken segment => "Unterminated token in segment ".toList ++ quoted segment
  | .oversizedSegment segment =>
      "Segment ".toList ++ quoted segment ++ " is too large to compile".toList

end Defect
end SongPath
