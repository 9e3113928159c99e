-- SUMMARY: When the searches of the two repositories select the same torrents.
import LazyDhtc.Db.Query

/-!
# The two searches

The search form and the search tool offer the same keys and match types for both
repositories. Clover decides every combination by `Matches`. GORM ignores the input for
all fields at once and the match type for info hashes and files, searches the file list as
JSON text, and leaves the rest to the `LIKE` of its engine.
-/

namespace Db

open DhtClient Unicode

/-! ## What can be searched for -/

inductive SearchKey where
  | all
  | name
  | infoHash
  | files
deriving DecidableEq

def SearchKey.text : SearchKey → Bytes
  | .all => ascii "All"
  | .name => ascii "Name"
  | .infoHash => ascii "InfoHash"
  | .files => ascii "Files"

inductive MatchType where
  | contains
  | equals
  | startsWith
  | endsWith
deriving DecidableEq

def MatchType.text : MatchType → Bytes
  | .contains => ascii "contains"
  | .equals => ascii "equals"
  | .startsWith => ascii "startswith"
  | .endsWith => ascii "endswith"

/-- The test of a string in memory. -/
def MatchType.test : MatchType → Bytes → Bytes → Bool
  | .contains, x, y => Unicode.contains (toLower x) (toLower y)
  | .equals, x, y => toLower x = toLower y
  | .startsWith, x, y => hasPrefix (toLower x) (toLower y)
  | .endsWith, x, y => hasSuffix (toLower x) (toLower y)

/-- The test of a name by a SQL engine. -/
def MatchType.sqlTest (e : SqlEngine) : MatchType → Bytes → Bytes → Bool
  | .contains, x, y => e.like x (percent ++ y ++ percent)
  | .equals, x, y => e.eq x y
  | .startsWith, x, y => e.like x (y ++ percent)
  | .endsWith, x, y => e.like x (percent ++ y)

theorem matchString_text (ty : MatchType) (x y : Bytes) : matchString ty.text x y = ty.test x y := by
  cases ty with
  | contains | equals | startsWith | endsWith => rfl

theorem nameCondition_text (e : SqlEngine) (ty : MatchType) (input : Bytes) (t : Torrent) :
    nameCondition e.withoutFTS ty.text input t = ty.sqlTest e t.name input := by
  cases ty with
  | contains | equals | startsWith | endsWith => rfl

/-! ## The selected torrents -/

/-- What Clover selects by. -/
def SearchKey.test (ty : MatchType) (input : Bytes) (t : Torrent) : SearchKey → Bool
  | .all => ty.test t.name input || t.files.any fun f => ty.test f.path input
  | .name => ty.test t.name input
  | .infoHash => ty.test t.infoHash input
  | .files => t.files.any fun f => ty.test f.path input

/-- What GORM selects by. -/
def SearchKey.sqlTest (e : SqlEngine) (ty : MatchType) (input : Bytes) (t : Torrent) :
    SearchKey → Bool
  | .all => true
  | .name => ty.sqlTest e t.name input
  | .infoHash => e.eq t.infoHash input
  | .files => e.like t.filesColumn (percent ++ input ++ percent)

theorem matchTorrent_text (key : SearchKey) (ty : MatchType) (input : Bytes) (t : Torrent) :
    matchTorrent t key.text ty.text input = key.test ty input t := by
  have hname : matchField t (ascii "Name") ty.text input = ty.test t.name input := by
    exact matchString_text ty t.name input
  have hfiles : matchField t (ascii "Files") ty.text input =
      t.files.any fun f => ty.test f.path input := by
    have hmatching : matchField t (ascii "Files") ty.text input =
      hasMatchingFile t.files ty.text input := rfl
    rw [hmatching]
    unfold hasMatchingFile
    simp only [matchString_text]
  cases key with
  | all => exact congrArg₂ or hname hfiles
  | name => exact hname
  | infoHash => exact matchString_text ty t.infoHash input
  | files => exact hfiles

theorem gormSearchCondition_text (e : SqlEngine) (key : SearchKey) (ty : MatchType)
    (input : Bytes) (t : Torrent) :
    gormSearchCondition e.withoutFTS key.text ty.text input t = key.sqlTest e ty input t := by
  cases key with
  | name => exact nameCondition_text e ty input t
  | all | infoHash | files => rfl

theorem mem_cloverSearch {torrents : List Torrent} {key : SearchKey} {ty : MatchType}
    {input : Bytes} {filters : SearchFilters} {t : Torrent} :
    t ∈ cloverSearch torrents key.text ty.text input filters ↔
      t ∈ torrents ∧ filters.admits t = true ∧ key.test ty input t = true := by
  unfold cloverSearch
  rw [List.mem_filter, Bool.and_eq_true, matchTorrent_text, and_comm (a := key.test ty input t = true)]

theorem mem_gormSearch {e : SqlEngine} {torrents : List Torrent} {key : SearchKey}
    {ty : MatchType} {input : Bytes} {filters : SearchFilters} {t : Torrent} :
    t ∈ gormSearch e.withoutFTS torrents key.text ty.text input filters ↔
      t ∈ torrents ∧ filters.admits t = true ∧ key.sqlTest e ty input t = true := by
  unfold gormSearch
  rw [List.mem_filter, Bool.and_eq_true, gormSearchCondition_text,
    and_comm (a := key.sqlTest e ty input t = true)]

/-! ## Agreement -/

/-- The two searches decide alike about a torrent: for all fields it has to match, since
    GORM selects every torrent; for the info hash the match type has to decide as equality
    does; for the files the JSON text as the paths do. -/
def SearchesAgree (e : SqlEngine) (ty : MatchType) (input : Bytes) (t : Torrent) :
    SearchKey → Prop
  | .all => ty.test t.name input = true ∨ ∃ f ∈ t.files, ty.test f.path input = true
  | .name => ty.sqlTest e t.name input = ty.test t.name input
  | .infoHash => e.eq t.infoHash input = ty.test t.infoHash input
  | .files =>
    e.like t.filesColumn (percent ++ input ++ percent) = t.files.any fun f => ty.test f.path input

theorem searchesAgree_iff {e : SqlEngine} {ty : MatchType} {input : Bytes} {t : Torrent}
    (key : SearchKey) :
    SearchesAgree e ty input t key ↔ key.sqlTest e ty input t = key.test ty input t := by
  cases key with
  | all => simp [SearchesAgree, SearchKey.sqlTest, SearchKey.test]
  | name | infoHash | files => exact Iff.rfl

/-- A torrent with one file. -/
def sampleTorrent : Torrent where
  id := 1
  name := ascii "Big_Bunny"
  infoHash := encodeToString [0xAB, 0xCD]
  files := [⟨7, ascii "bunny.mkv"⟩]
  discoveredOn := 1700000000
  totalSize := 7
  categories := [ascii "Video"]
  family := 4

/-- The torrents that both searches select for an input, with SQLite and no filters. -/
def sampleSearches (key : SearchKey) (ty : MatchType) (input : String) :
    List Torrent × List Torrent :=
  (gormSearch sqlite.withoutFTS [sampleTorrent] key.text ty.text (ascii input) ⟨0, 0, 0, 0⟩,
    cloverSearch [sampleTorrent] key.text ty.text (ascii input) ⟨0, 0, 0, 0⟩)

end Db
