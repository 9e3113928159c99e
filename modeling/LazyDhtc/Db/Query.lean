-- SUMMARY: How the two repositories select torrents: Clover by a function of the document, GORM by a condition that a SQL engine evaluates.
import LazyDhtc.Db.Torrent
import LazyDhtc.Cluster.Wire

/-!
# Queries

Clover calls `Matches` on each document. GORM builds a condition, which SQLite, MySQL or
PostgreSQL evaluates: the engine is a parameter, one test for each operator that the
conditions use. What a query selects is given here without the order and the paging.
-/

namespace Db

open DhtClient Unicode

/-! ## Matching in memory -/

/-- `MatchString` -/
def matchString (searchType x y : Bytes) : Bool :=
  if searchType = ascii "contains" then contains (toLower x) (toLower y)
  else if searchType = ascii "equals" then toLower x = toLower y
  else if searchType = ascii "startswith" then hasPrefix (toLower x) (toLower y)
  else if searchType = ascii "endswith" then hasSuffix (toLower x) (toLower y)
  else false

def hasMatchingFile (files : List File) (searchType searchInput : Bytes) : Bool :=
  files.any fun f => matchString searchType f.path searchInput

/-- The value of a text of digits. -/
def digitsValue (s : Bytes) : Option Nat :=
  if s.all fun b => 0x30 ≤ b && b ≤ 0x39 then
    some (s.foldl (fun n b => 10 * n + (b.toNat - 0x30)) 0)
  else none

def isLeap (year : Nat) : Bool := year % 4 = 0 && (year % 100 ≠ 0 || year % 400 = 0)

def daysIn (year : Nat) : List Nat :=
  [31, if isLeap year then 29 else 28, 31, 30, 31, 30, 31, 31, 30, 31, 30, 31]

/-- The Unix time at which a day starts. -/
def unixDay (year month day : Nat) : Int :=
  let days := 365 * year + (year + 3) / 4 - (year + 99) / 100 + (year + 399) / 400 +
    ((daysIn year).take (month - 1)).sum + (day - 1)
  ((days : Int) - 719528) * 86400

/-- `time.Parse("2006.01.02", s)` -/
def parseDay (s : Bytes) : Option Int := do
  let year ← digitsValue (s.take 4)
  let month ← digitsValue ((s.drop 5).take 2)
  let day ← digitsValue ((s.drop 8).take 2)
  if s.length = 10 ∧ s[4]? = some 0x2E ∧ s[7]? = some 0x2E ∧ 1 ≤ month ∧ month ≤ 12 ∧
      1 ≤ day ∧ day ≤ (daysIn year).getD (month - 1) 0 then
    some (unixDay year month day)
  else none

def foundOnDate (date : Int64) (searchInput : Bytes) : Bool :=
  match parseDay searchInput with
  | none => false
  | some day => day < date.toInt && date.toInt < day + 86400

/-- `Matches` for the key of a field. A field that is no string is matched as an empty one. -/
def matchField (t : Torrent) (key searchType searchInput : Bytes) : Bool :=
  if key = ascii "Files" then hasMatchingFile t.files searchType searchInput
  else if key = ascii "DiscoveredOn" then foundOnDate t.discoveredOn searchInput
  else if key = ascii "Name" then matchString searchType t.name searchInput
  else if key = ascii "InfoHash" then matchString searchType t.infoHash searchInput
  else if key ∈ [ascii "TotalSize", ascii "Categories", ascii "Family"] then
    matchString searchType [] searchInput
  else false

/-- `Matches` -/
def matchTorrent (t : Torrent) (key searchType searchInput : Bytes) : Bool :=
  if key = ascii "All" then
    matchField t (ascii "Name") searchType searchInput ||
      matchField t (ascii "Files") searchType searchInput
  else matchField t (if key = ascii "Path" then ascii "Files" else key) searchType searchInput

/-! ## Conditions of a SQL engine -/

/-- The tests of a SQL engine. -/
structure SqlEngine where
  /-- `x LIKE pattern` -/
  like : Bytes → Bytes → Bool
  /-- `x = y` for text. -/
  eq : Bytes → Bytes → Bool
  /-- The full text search for an input in a name, if `initFTS` has enabled it. -/
  fts : Option (Bytes → Bytes → Bool)

def SqlEngine.withoutFTS (e : SqlEngine) : SqlEngine := { e with fts := none }

/-- The column `files` of a row. -/
def Torrent.filesColumn (t : Torrent) : Bytes :=
  Json.encode (Json.ofSlice Cluster.encodeFile t.files)

def percent : Bytes := ascii "%"

/-- `applyNameSearch` -/
def nameCondition (e : SqlEngine) (searchType searchInput : Bytes) (t : Torrent) : Bool :=
  if searchType = ascii "contains" then
    match e.fts with
    | some search => search t.name searchInput
    | none => e.like t.name (percent ++ searchInput ++ percent)
  else if searchType = ascii "equals" then e.eq t.name searchInput
  else if searchType = ascii "startswith" then e.like t.name (searchInput ++ percent)
  else if searchType = ascii "endswith" then e.like t.name (percent ++ searchInput)
  else true

/-- The condition of `GormRepository.FindBy`. Other keys add none. -/
def gormCondition (e : SqlEngine) (key searchType searchInput : Bytes) (t : Torrent) : Bool :=
  if key = ascii "Name" then nameCondition e searchType searchInput t
  else if key = ascii "InfoHash" then e.eq t.infoHash searchInput
  else if key = ascii "Files" then e.like t.filesColumn (percent ++ searchInput ++ percent)
  else true

/-- The condition of `GormRepository.Search`, which also knows the key of the date. -/
def gormSearchCondition (e : SqlEngine) (key searchType searchInput : Bytes) (t : Torrent) :
    Bool :=
  if key = ascii "DiscoveredOn" then
    e.like (Json.Number.ofInt t.discoveredOn.toInt).lit (percent ++ searchInput ++ percent)
  else gormCondition e key searchType searchInput t

/-! ## The repositories -/

inductive Backend where
  | clover
  | gorm (engine : SqlEngine)

/-- What `FindBy` selects by. -/
def Backend.condition : Backend → Bytes → Bytes → Bytes → Torrent → Bool
  | .clover, key, searchType, searchInput, t => matchTorrent t key searchType searchInput
  | .gorm e, key, searchType, searchInput, t => gormCondition e key searchType searchInput t

def Backend.findBy (b : Backend) (torrents : List Torrent) (key searchType searchInput : Bytes) :
    List Torrent :=
  torrents.filter (b.condition key searchType searchInput)

structure SearchFilters where
  minSize : UInt64
  maxSize : UInt64
  startDate : Int64
  endDate : Int64

/-- A bound of zero is none, nor is a date below it. -/
def SearchFilters.admits (f : SearchFilters) (t : Torrent) : Bool :=
  !(0 < f.minSize && t.totalSize < f.minSize) && !(0 < f.maxSize && f.maxSize < t.totalSize) &&
    !(0 < f.startDate && t.discoveredOn < f.startDate) &&
    !(0 < f.endDate && f.endDate < t.discoveredOn)

def cloverSearch (torrents : List Torrent) (key searchType searchInput : Bytes)
    (filters : SearchFilters) : List Torrent :=
  torrents.filter fun t => matchTorrent t key searchType searchInput && filters.admits t

def gormSearch (e : SqlEngine) (torrents : List Torrent) (key searchType searchInput : Bytes)
    (filters : SearchFilters) : List Torrent :=
  torrents.filter fun t =>
    gormSearchCondition e key searchType searchInput t && filters.admits t

/-! ## SQLite -/

/-- A rune with ASCII letters in lower case. -/
def foldAscii (c : Nat) : Nat := if 0x41 ≤ c ∧ c ≤ 0x5A then c + 32 else c

/-- `LIKE` on runes: `%` stands for any of them, `_` for one. -/
def likeRunes : List Nat → List Nat → Bool
  | [], s => s.isEmpty
  | p :: ps, s =>
    if p = 0x25 then s.tails.any fun u => likeRunes ps u
    else
      match s with
      | [] => false
      | c :: cs => (p = 0x5F || foldAscii p = foldAscii c) && likeRunes ps cs

/-- SQLite without full text search: `LIKE` folds the case of ASCII letters, `=` does not. -/
def sqlite : SqlEngine where
  like x pattern := likeRunes (runes pattern) (runes x)
  eq x y := x = y
  fts := none

end Db
