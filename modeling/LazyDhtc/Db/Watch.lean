-- SUMMARY: Watch notifications: what CheckWatches sends for a new torrent, and when that is what the torrent itself matches.
import LazyDhtc.Db.Search

/-!
# Watch entries

`CheckWatches` asks the repository for torrents that match a watch entry, and sends a
notification about the new torrent if there are any. A torrent that was stored before
answers for the new one, and so may the engine of GORM.
-/

namespace Db

open DhtClient

structure WatchEntry where
  id : Bytes
  key : Bytes
  matchType : Bytes
  content : Bytes
deriving DecidableEq

/-- The text of a notification. -/
def watchMessage (md : Metadata) (d : WatchEntry) : Bytes :=
  if d.matchType = ascii "Files" then
    ascii "Match found: '" ++ md.name ++ ascii "' contains file which " ++ d.matchType ++
      ascii " '" ++ d.content ++ ascii "'."
  else
    ascii "Match found: '" ++ md.name ++ ascii "' " ++ d.matchType ++ ascii " '" ++ d.content ++
      ascii "'"

/-- The notifications that `CheckWatches` sends, each with the entry it is for. -/
def checkWatches (hasManager : Bool) (b : Backend) (torrents : List Torrent)
    (all : List WatchEntry) (md : Metadata) : List (WatchEntry × Bytes) :=
  if hasManager then
    (all.filter fun d => 0 < (b.findBy torrents d.key d.matchType d.content).length).map
      fun d => (d, watchMessage md d)
  else []

/-- The torrent itself matches the entry, whatever ID and order of categories it has. -/
def WatchEntry.matches (d : WatchEntry) (md : Metadata) : Bool :=
  matchTorrent (.ofMetadata 0 md []) d.key d.matchType d.content

/-- The repository selects a torrent for the entry. -/
def WatchEntry.selects (d : WatchEntry) (b : Backend) (t : Torrent) : Bool :=
  b.condition d.key d.matchType d.content t

/-! ## Selection -/

theorem matchTorrent_ofMetadata (id : Nat) (md : Metadata) (categories : List Bytes)
    (d : WatchEntry) :
    matchTorrent (.ofMetadata id md categories) d.key d.matchType d.content = d.matches md := rfl

theorem findBy_pos_iff {b : Backend} {torrents : List Torrent} {d : WatchEntry} :
    0 < (b.findBy torrents d.key d.matchType d.content).length ↔
      ∃ t ∈ torrents, d.selects b t = true := by
  unfold Backend.findBy WatchEntry.selects
  rw [List.length_pos_iff_exists_mem]
  simp only [List.mem_filter]

/-- An entry that the stored torrents answer as the new one does: one of them is selected if
    the new torrent matches, none of them otherwise. -/
def Answered (b : Backend) (torrents : List Torrent) (md : Metadata) (d : WatchEntry) : Prop :=
  if d.matches md then ∃ t ∈ torrents, d.selects b t = true
  else ∀ t ∈ torrents, d.selects b t = false

theorem answered_iff {b : Backend} {torrents : List Torrent} {md : Metadata} {d : WatchEntry} :
    Answered b torrents md d ↔
      (decide (0 < (b.findBy torrents d.key d.matchType d.content).length) = d.matches md) := by
  rw [Bool.eq_iff_iff, decide_eq_true_iff, findBy_pos_iff]
  unfold Answered
  cases d.matches md with
  | true => simp
  | false => simp

/-! ## Exact notifications -/

theorem filter_eq_filter_iff {α : Type*} {p q : α → Bool} {l : List α} :
    l.filter p = l.filter q ↔ ∀ a ∈ l, p a = q a := by
  constructor
  · intro heq a ha
    have hmem : a ∈ l.filter p ↔ a ∈ l.filter q := by rw [heq]
    rw [List.mem_filter, List.mem_filter, and_iff_right ha, and_iff_right ha] at hmem
    exact Bool.eq_iff_iff.2 hmem
  · exact List.filter_congr

/-- Clover answers rightly as long as no other torrent matches an entry that the new one
    does not match. -/
theorem answered_clover_iff {earlier : List Torrent} {id : Nat} {md : Metadata}
    {categories : List Bytes} {d : WatchEntry} :
    Answered .clover (earlier ++ [.ofMetadata id md categories]) md d ↔
      ∀ t ∈ earlier, d.selects .clover t = true → d.matches md = true := by
  have hnew : d.selects .clover (.ofMetadata id md categories) = d.matches md :=
    matchTorrent_ofMetadata id md categories d
  unfold Answered
  cases hmatches : d.matches md with
  | true =>
    rw [hmatches] at hnew
    simp [hnew]
  | false =>
    rw [hmatches] at hnew
    simp [hnew, or_imp, forall_and]

/-! ## Earlier torrents answer -/

/-- A torrent with one file. -/
def sampleMetadata : Metadata where
  infoHash := [0x01, 0x02]
  family := 4
  name := ascii "Quiet"
  totalSize := 3
  discoveredOn := 1700000001
  files := [⟨3, ascii "quiet.flac"⟩]

def sampleWatch : WatchEntry := ⟨ascii "1", ascii "Name", ascii "contains", ascii "Bunny"⟩

end Db
