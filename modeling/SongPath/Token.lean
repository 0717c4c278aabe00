import SongPath.Text

/-!
# Tokens

The four placeholders that a format specification may use.  The constructor
order is also the order in which reports list them.
-/

namespace SongPath

/-- What a placeholder stands for in the name of a song file. -/
inductive Token where
  | creator
  | identifier
  | artist
  | title
  deriving DecidableEq, Repr

namespace Token

/-- Every token, in report order. -/
def all : List Token :=
  [.creator, .identifier, .artist, .title]

/-- The name written between braces. -/
def name : Token -> Text
  | .creator => "creator".toList
  | .identifier => "identifier".toList
  | .artist => "artist".toList
  | .title => "title".toList

/-- The token with the given name.  Names are compared exactly, so `Artist`
names no token. -/
def ofName? (name : Text) : Option Token :=
  all.find? fun token => token.name == name

/-- A placeholder as it stands in a specification. -/
def placeholder (token : Token) : Text :=
  '{' :: token.name ++ ['}']

theorem ofName?_name (token : Token) : ofName? token.name = some token := by
  cases token <;> decide

theorem mem_all (token : Token) : token ∈ all := by
  cases token <;> decide

end Token
end SongPath
