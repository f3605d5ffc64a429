import DatalogFragments.Disjunction
import DatalogFragments.Query

/-!
# Fragments for a music catalogue

The fragments of a request like "tracks of an artist that were released in these years": a
datasource, a look-up of the artist, a filter on releases, and a projection of tracks; and a
disjunction that finds an artist by name or by sort name.

## Main definitions

* `Catalogue.trackSlices`: the four fragments, not in the order in which they are compiled;
* `Catalogue.artistByEitherName`: the disjunction.
-/

namespace DatalogFragments.Catalogue

/-- A clause that matches an attribute of an entity. -/
def pattern (entity attributeName value : String) : Value :=
  .list [.ofName (Symbol.plain entity), .keyword attributeName, .ofName (Symbol.plain value)]

/-- The artist of the request unless another one is asked for. -/
def someArtist : Value := .text "John Lennon"

/-- The years of the request unless others are asked for. -/
def someYears : Value := .tuple [.int 1970, .int 1971]

/-- Provides the datasource. -/
def database (db : Value) : Config where
  name := .text "db"
  provide := [.text "$"]
  lets := [(.text "$", db)]

/-- Finds the artist with a name. -/
def artist (artistName : Value) : Config where
  clauses := [pattern "?a" ":artist/name" "?artist-name"]
  name := .text "artist"
  provide := [.text "?a"]
  mustLet := [.text "?artist-name"]
  lets := [(.text "?artist-name", artistName)]
  selectivity := .int (-10)

/-- Releases of the artist in one of the years. -/
def release (years : List Value) : Config where
  clauses := [pattern "?r" ":release/artists" "?a", pattern "?r" ":release/year" "?year"]
  name := .text "release"
  provide := [.text "?r"]
  require := [.text "?a"]
  lets := [(.collForm (.ofName (Symbol.plain "?year")), .list years)]

/-- Titles of the tracks of a release. -/
def track : Config where
  clauses :=
    [pattern "?r" ":release/media" "?m", pattern "?m" ":medium/tracks" "?t",
      pattern "?t" ":track/name" "?title"]
  name := .text "track"
  provide := [.text "?title"]
  require := [.text "?r"]
  selectivity := .int 10

/-- The fragments of the request; the years may be any collection. -/
def trackSlices (artistName years db : Value) : Except Fault (List Fragment) := do
  let source ← Fragment.ofConfig (database db)
  let artist ← Fragment.ofConfig (artist artistName)
  let years ← years.asElements
  let release ← Fragment.ofConfig (release years)
  let track ← Fragment.ofConfig track
  return [source, track, release, artist]

/-- Finds the artist by one attribute. -/
def artistBy (name attributeName : String) (artistName : Value) : Config where
  clauses := [pattern "?a" attributeName "?n"]
  name := .text name
  provide := [.text "?a"]
  lets := [(.text "?n", artistName)]

/-- The two ways to find the artist. -/
def artistBranches (artistName : Value) : Except Fault (List Fragment) := do
  let byName ← Fragment.ofConfig (artistBy "by-name" ":artist/name" artistName)
  let bySortName ← Fragment.ofConfig (artistBy "by-sort-name" ":artist/sortName" artistName)
  return [byName, bySortName]

/-- Finds the artist by name or by sort name. -/
def artistByEitherName (artistName : Value) : Except Fault Fragment := do
  let branches ← artistBranches artistName
  disjunction (branches.map .fragment)

end DatalogFragments.Catalogue
