-- SUMMARY: What a repository stores of a torrent, and the filters and categories that decide it.
import LazyDhtc.DhtClient.Types
import LazyDhtc.Lib.Unicode
import LazyDhtc.Lib.Json.Text

/-!
# Torrents

A torrent as the repositories store it, and the functions of a torrent's metadata that
`InsertMetadata` uses: `Categorize`, `ContainsChineseContent` and the blacklist. The
regular expressions of the blacklist are compiled by a parameter.
-/

namespace Db

open DhtClient Unicode

/-- The settings that the repositories read. -/
structure Configuration where
  onlyChineseContent : Bool
  enableBlacklist : Bool
  maxSavedTorrents : Int

/-! ## Stored torrents -/

/-- A document of Clover, or a row of GORM. The row has `files` as JSON and `categories`
    joined by commas. -/
structure Torrent where
  id : Nat
  name : Bytes
  infoHash : Bytes
  files : List File
  discoveredOn : Int64
  totalSize : UInt64
  categories : List Bytes
  family : Int64
deriving DecidableEq

/-- `hex.EncodeToString`, and `%x` for a byte slice. -/
def encodeToString (bs : Bytes) : Bytes :=
  bs.flatMap fun b => [Json.hexDigit (b.toNat / 16), Json.hexDigit (b.toNat % 16)]

/-- What `InsertMetadata` stores. -/
def Torrent.ofMetadata (id : Nat) (md : Metadata) (categories : List Bytes) : Torrent where
  id := id
  name := md.name
  infoHash := encodeToString md.infoHash
  files := md.files
  discoveredOn := md.discoveredOn
  totalSize := md.totalSize
  categories := categories
  family := md.family

/-! ## Categories -/

/-- `filepath.Ext` -/
def ext (path : Bytes) : Bytes :=
  let base := path.reverse.takeWhile fun b => b ≠ 0x2F
  match base.dropWhile fun b => b ≠ 0x2E with
  | [] => []
  | _ :: _ => ((base.takeWhile fun b => b ≠ 0x2E) ++ [0x2E]).reverse

def categoryExtensions : List (Bytes × List Bytes) :=
  [(ascii "Video", [".mp4", ".mkv", ".avi", ".mov", ".wmv", ".flv", ".webm", ".m4v", ".mpg",
      ".mpeg"].map ascii),
    (ascii "Audio", [".mp3", ".flac", ".wav", ".m4a", ".ogg", ".aac", ".wma"].map ascii),
    (ascii "Software", [".exe", ".msi", ".dmg", ".iso", ".pkg", ".deb", ".rpm", ".sh",
      ".bat"].map ascii),
    (ascii "Document", [".pdf", ".epub", ".mobi", ".txt", ".doc", ".docx", ".xls", ".xlsx",
      ".ppt", ".pptx"].map ascii),
    (ascii "Picture", [".jpg", ".jpeg", ".png", ".gif", ".svg", ".bmp", ".tiff"].map ascii),
    (ascii "Archive", [".zip", ".rar", ".7z", ".tar", ".gz", ".bz2", ".xz"].map ascii)]

/-- The extensions of the files, without the empty one. -/
def extensions (md : Metadata) : List Bytes :=
  (md.files.map fun f => toLower (ext f.path)).filter fun e => e ≠ []

/-- The categories of a torrent. `Categorize` ranges over a map, so that it returns them in
    any order. -/
def categorize (md : Metadata) : List Bytes :=
  if extensions md = [] then [ascii "Unknown"]
  else
    match categoryExtensions.filter fun c => (extensions md).any fun e => c.2.contains e with
    | [] => [ascii "Other"]
    | found => found.map Prod.fst

/-! ## Filters -/

def containsHan (value : Bytes) : Bool := (runes value).any isHan

def containsChineseContent (md : Metadata) : Bool :=
  containsHan md.name || md.files.any fun f => containsHan f.path

structure BlacklistEntry where
  id : Bytes
  filter : Bytes
  type : Bytes

/-- `regexp.Compile`, with the function `MatchString` of what it returns. -/
abbrev Compile := Bytes → Option (Bytes → Bool)

def isFileBlacklisted (md : Metadata) (filter : Bytes → Bool) : Bool :=
  md.files.any fun f => filter f.path

def isBlacklisted (compile : Compile) (entries : List BlacklistEntry) (md : Metadata) : Bool :=
  entries.any fun e =>
    match compile e.filter with
    | none => false
    | some filter =>
      if e.type = ascii "0" then filter md.name
      else if e.type = ascii "1" then isFileBlacklisted md filter
      else false

/-- The checks at the start of `InsertMetadata`. -/
def filtered (cfg : Configuration) (compile : Compile) (blacklist : List BlacklistEntry)
    (md : Metadata) : Bool :=
  cfg.onlyChineseContent && !containsChineseContent md ||
    cfg.enableBlacklist && isBlacklisted compile blacklist md

end Db
