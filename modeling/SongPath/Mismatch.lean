import SongPath.Defect
import SongPath.Token

/-!
# Mismatches

The ways in which a sound pattern can fail to describe a path.  This is the
ordinary outcome of matching and says nothing against the pattern.
-/

namespace SongPath

/-- Why a path was not matched. -/
inductive Mismatch where
  | tooFewFolders (required actual : Nat)
  | folder (index : Nat) (expected actual : Text)
  | file (expected actual : Text)
  | blankCapture (token : Token)
  deriving DecidableEq, Repr

namespace Mismatch

/-- The wording shown to the user. -/
def message : Mismatch -> Text
  | .tooFewFolders required actual =>
      "Pattern needs at least ".toList ++ Text.ofNat required ++ " folders, path has ".toList ++
        Text.ofNat actual
  | .folder index expected actual =>
      "Folder ".toList ++ Text.ofNat index ++ " ".toList ++ Defect.quoted actual ++
        " does not match ".toList ++ Defect.quoted expected
  | .file expected actual =>
      "File name ".toList ++ Defect.quoted actual ++ " does not match ".toList ++
        Defect.quoted expected
  | .blankCapture token =>
      "Token ".toList ++ Defect.quoted token.name ++ " captured only whitespace".toList

end Mismatch
end SongPath
