import SongPath.Text.Blank
import SongPath.Token

/-!
# Metadata

What a matched path says about a song.  A token that occurs more than once
keeps its first value, and later values are still required to be visible.
-/

namespace SongPath

/-- One optional value per token. -/
structure Metadata where
  creator : Option Text
  identifier : Option Text
  artist : Option Text
  title : Option Text
  deriving DecidableEq, Repr

namespace Metadata

/-- No token has a value. -/
def empty : Metadata :=
  ⟨none, none, none, none⟩

/-- The value of a token. -/
def get (metadata : Metadata) : Token -> Option Text
  | .creator => metadata.creator
  | .identifier => metadata.identifier
  | .artist => metadata.artist
  | .title => metadata.title

/-- Replace the value of a token. -/
def set (metadata : Metadata) (token : Token) (value : Text) : Metadata :=
  match token with
  | .creator => { metadata with creator := some value }
  | .identifier => { metadata with identifier := some value }
  | .artist => { metadata with artist := some value }
  | .title => { metadata with title := some value }

/-- Give a token a value unless it has one. -/
def put (metadata : Metadata) (token : Token) (value : Text) : Metadata :=
  match metadata.get token with
  | some _ => metadata
  | none => metadata.set token value

/-- No field was captured. -/
def isEmpty (metadata : Metadata) : Bool :=
  Token.all.all fun token => (metadata.get token).isNone

theorem get_set_same (metadata : Metadata) (token : Token) (value : Text) :
    (metadata.set token value).get token = some value := by
  cases token <;> rfl

theorem get_set_of_ne (metadata : Metadata) {token other : Token} (value : Text)
    (different : other ≠ token) : (metadata.set token value).get other = metadata.get other := by
  cases token <;> cases other <;> first | rfl | exact absurd rfl different

/-- The first value of a token is kept. -/
theorem get_put_same (metadata : Metadata) (token : Token) (value : Text) :
    (metadata.put token value).get token = some ((metadata.get token).getD value) := by
  unfold put
  cases present : metadata.get token with
  | some found => simp [present]
  | none => simp [get_set_same]

theorem get_put_of_ne (metadata : Metadata) {token other : Token} (value : Text)
    (different : other ≠ token) : (metadata.put token value).get other = metadata.get other := by
  unfold put
  cases metadata.get token with
  | some _ => rfl
  | none => exact metadata.get_set_of_ne value different

end Metadata
end SongPath
