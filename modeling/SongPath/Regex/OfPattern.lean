import SongPath.Pattern
import SongPath.Regex

/-!
# The regular expression of a pattern

A pattern as a regular expression over whole paths written with `/`, extension
included.  It serves as an explanation; matching does not go through it.  Only
the first occurrence of a token is a named group.
-/

namespace SongPath
namespace Regex

/-- Characters within one name, as many as the repetition admits. -/
def nameChars (repetition : Repetition) : Regex :=
  .one (.noneOf ['/']) repetition .done

/-- Any folders, each with its slash.  The repetition says whether the name of
such a folder may be empty. -/
def folderRun (repetition : Repetition) : Regex :=
  .group none (nameChars repetition ++ ofText ['/']) .many .done

/-- An optional extension. -/
def extension : Regex :=
  .group none (ofText ['.'] ++ .one (.noneOf ['/', '.']) .many .done) .optional .done

/-- A token.  `seen` lists the tokens that have their named group already. -/
def ofToken (seen : List Token) (token : Token) : Regex :=
  .group (if seen.contains token then none else some token.name) (nameChars .lazySome) .once .done

/-- The pieces of a composite segment from left to right. -/
def ofPieces (seen : List Token) : List Piece -> Regex
  | [] => .done
  | .literal text :: pieces => ofText text ++ ofPieces seen pieces
  | .wildcard :: pieces => nameChars .lazyMany ++ ofPieces seen pieces
  | .slot token :: pieces => ofToken seen token ++ ofPieces (token :: seen) pieces

/-- One segment without a slash of its own, except that `**` brings those of
the folders it takes. -/
def ofSegment (seen : List Token) : Segment -> Regex
  | .literal text => ofText text
  | .slot token => ofToken seen token
  | .anyFolder => nameChars .some
  | .anyFolders => folderRun .some
  | .composite pieces => ofPieces seen pieces

/-- The folder segments, each followed by its slash. -/
def ofFolders (seen : List Token) : List Segment -> Regex
  | [] => .done
  | .anyFolders :: folders => folderRun .some ++ ofFolders seen folders
  | folder :: folders =>
      ofSegment seen folder ++ ofText ['/'] ++ ofFolders (folder.tokens ++ seen) folders

/-- What may stand in front of the first folder segment: one slash if a `**`
fixes the first folder, and any folders otherwise. -/
def front (pattern : Pattern) : Regex :=
  if pattern.doubleStar?.isSome then .one (.only '/') .optional .done else folderRun .many

/-- The regular expression of a pattern. -/
def ofPattern (pattern : Pattern) : Regex :=
  .start (front pattern ++ ofFolders [] pattern.folders ++
    ofSegment (pattern.folders.flatMap Segment.tokens) pattern.file ++ extension ++
    .finish .done)

end Regex

namespace Pattern

/-- The text of the regular expression of a pattern. -/
def regexText (pattern : Pattern) : Text :=
  (Regex.ofPattern pattern).render

end Pattern
end SongPath
