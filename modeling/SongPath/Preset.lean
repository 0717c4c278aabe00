import SongPath.Pattern

/-!
# Presets

Specifications for common ways of naming karaoke files.
-/

namespace SongPath

/-- A named common specification. -/
inductive Preset where
  | identifierArtistTitle
  | artistTitle
  | creatorFolder
  | creatorNested
  deriving DecidableEq, Repr

namespace Preset

/-- Every preset, the default one first. -/
def all : List Preset :=
  [.identifierArtistTitle, .artistTitle, .creatorFolder, .creatorNested]

/-- The preset used when none is chosen. -/
def default : Preset :=
  .identifierArtistTitle

/-- The specification of a preset.  The last two have the brand as folder: right
above the files, or on top of any number of disc folders. -/
def spec : Preset -> Text
  | .identifierArtistTitle => "\x7bidentifier\x7d - \x7bartist\x7d - \x7btitle\x7d".toList
  | .artistTitle => "\x7bartist\x7d - \x7btitle\x7d".toList
  | .creatorFolder => "\x7bcreator\x7d/\x7bidentifier\x7d - \x7bartist\x7d - \x7btitle\x7d".toList
  | .creatorNested =>
      "\x7bcreator\x7d/**/\x7bidentifier\x7d - \x7bartist\x7d - \x7btitle\x7d".toList

end Preset
end SongPath
