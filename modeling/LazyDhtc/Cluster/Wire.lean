-- SUMMARY: Records, batches and acks of the cluster protocol as JSON: encoding, decoding, what arrives, and the size of a body.
import LazyDhtc.DhtClient.Types
import LazyDhtc.Lib.Json.Decode

/-!
# The wire format of the cluster protocol

A worker sends batches of records, a master sends acks. Both are JSON; what the receiver
decodes is what was sent with every string coerced to UTF-8.
-/

namespace Cluster

open DhtClient Json

structure Record where
  id : UInt64
  metadata : Metadata
deriving DecidableEq

structure Batch where
  workerID : Bytes
  items : List Record
  queued : Int64
  dropped : UInt64
deriving DecidableEq

structure Ack where
  ids : List UInt64
deriving DecidableEq

/-! ## Encoding -/

def encodeFile (f : File) : Value :=
  .obj [(ascii "size", ofInt64 f.size), (ascii "path", .str f.path)]

def encodeMetadata (md : Metadata) : Value :=
  .obj [(ascii "InfoHash", ofBytes md.infoHash), (ascii "Family", ofInt64 md.family),
    (ascii "Name", .str md.name), (ascii "TotalSize", ofUInt64 md.totalSize),
    (ascii "DiscoveredOn", ofInt64 md.discoveredOn), (ascii "Files", ofSlice encodeFile md.files)]

def encodeRecord (r : Record) : Value :=
  .obj [(ascii "id", ofUInt64 r.id), (ascii "metadata", encodeMetadata r.metadata)]

/-- The members of a batch, which is always an object. -/
def batchMembers (b : Batch) : List (Bytes × Value) :=
  [(ascii "worker_id", .str b.workerID), (ascii "items", ofSlice encodeRecord b.items),
    (ascii "queued", ofInt64 b.queued), (ascii "dropped", ofUInt64 b.dropped)]

def encodeBatch (b : Batch) : Value := .obj (batchMembers b)

/-- The members of an ack. Its slice is made with `make`, so it is never nil. -/
def ackMembers (a : Ack) : List (Bytes × Value) := [(ascii "ids", .arr (a.ids.map ofUInt64))]

def encodeAck (a : Ack) : Value := .obj (ackMembers a)

/-! ## Decoding -/

def fileFields : List (StructField File) :=
  [field "size" File.size (fun f n => { f with size := n }) decodeInt64,
    field "path" File.path (fun f s => { f with path := s }) decodeString]

def decodeFile : Decoder File := decodeStruct fileFields

def metadataFields : List (StructField Metadata) :=
  [field "InfoHash" Metadata.infoHash (fun md s => { md with infoHash := s }) decodeBytes,
    field "Family" Metadata.family (fun md n => { md with family := n }) decodeInt64,
    field "Name" Metadata.name (fun md s => { md with name := s }) decodeString,
    field "TotalSize" Metadata.totalSize (fun md n => { md with totalSize := n }) decodeUInt64,
    field "DiscoveredOn" Metadata.discoveredOn (fun md n => { md with discoveredOn := n })
      decodeInt64,
    field "Files" Metadata.files (fun md fs => { md with files := fs })
      (decodeSlice decodeFile ⟨0, []⟩)]

def decodeMetadata : Decoder Metadata := decodeStruct metadataFields

/-- The zero value of `Metadata`. -/
def zeroMetadata : Metadata := ⟨[], 0, [], 0, 0, []⟩

/-- The metadata of some torrent of one file, for examples. -/
def torrentNamed (name : Bytes) : Metadata :=
  ⟨List.replicate 20 0, 4, name, 1000, 1700000000, [⟨1000, name⟩]⟩

def recordFields : List (StructField Record) :=
  [field "id" Record.id (fun r n => { r with id := n }) decodeUInt64,
    field "metadata" Record.metadata (fun r md => { r with metadata := md }) decodeMetadata]

def decodeRecord : Decoder Record := decodeStruct recordFields

def zeroRecord : Record := ⟨0, zeroMetadata⟩

def batchFields : List (StructField Batch) :=
  [field "worker_id" Batch.workerID (fun b s => { b with workerID := s }) decodeString,
    field "items" Batch.items (fun b rs => { b with items := rs })
      (decodeSlice decodeRecord zeroRecord),
    field "queued" Batch.queued (fun b n => { b with queued := n }) decodeInt64,
    field "dropped" Batch.dropped (fun b n => { b with dropped := n }) decodeUInt64]

def decodeBatch (v : Value) : Option Batch :=
  match decodeStruct batchFields ⟨[], [], 0, 0⟩ v with
  | (b, ok) => if ok then some b else none

def ackFields : List (StructField Ack) :=
  [field "ids" Ack.ids (fun a ids => { a with ids := ids }) (decodeSlice decodeUInt64 0)]

def decodeAck (v : Value) : Option Ack :=
  match decodeStruct ackFields ⟨[]⟩ v with
  | (a, ok) => if ok then some a else none

/-! ## What arrives -/

def onWireFile (f : File) : File := { f with path := Utf8.coerce f.path }

/-- Metadata as the receiver decodes them. -/
def onWire (md : Metadata) : Metadata :=
  { md with name := Utf8.coerce md.name, files := md.files.map onWireFile }

def Record.onWire (r : Record) : Record := { r with metadata := Cluster.onWire r.metadata }

def Batch.onWire (b : Batch) : Batch :=
  { b with workerID := Utf8.coerce b.workerID, items := b.items.map Record.onWire }

@[simp] theorem Record.onWire_id (r : Record) : r.onWire.id = r.id := rfl

@[simp] theorem onWire_infoHash (md : Metadata) : (onWire md).infoHash = md.infoHash := rfl

theorem onWireFile_onWireFile (f : File) : onWireFile (onWireFile f) = onWireFile f := by
  simp [onWireFile, Utf8.coerce_coerce]

theorem onWire_onWire (md : Metadata) : onWire (onWire md) = onWire md := by
  simp [onWire, Utf8.coerce_coerce, onWireFile_onWireFile]

theorem Record.onWire_onWire (r : Record) : r.onWire.onWire = r.onWire := by
  simp [Record.onWire, Cluster.onWire_onWire]

/-- All strings of the metadata are UTF-8. -/
def ValidMetadata (md : Metadata) : Prop :=
  Utf8.valid md.name = true ∧ ∀ f ∈ md.files, Utf8.valid f.path = true

/-- All strings of the batch are UTF-8. -/
def Batch.Valid (b : Batch) : Prop :=
  Utf8.valid b.workerID = true ∧ ∀ r ∈ b.items, ValidMetadata r.metadata

instance (md : Metadata) : Decidable (ValidMetadata md) := inferInstanceAs (Decidable (_ ∧ _))

instance (b : Batch) : Decidable b.Valid := inferInstanceAs (Decidable (_ ∧ _))

theorem map_eq_self_iff {α : Type} {f : α → α} {as : List α} :
    as.map f = as ↔ ∀ a ∈ as, f a = a := by
  simpa using List.map_inj_left (f := f) (g := id) (l := as)

theorem onWireFile_eq_self_iff {f : File} : onWireFile f = f ↔ Utf8.valid f.path = true := by
  obtain ⟨size, path⟩ := f
  simp [onWireFile, Utf8.coerce_eq_self_iff]

theorem onWire_eq_self_iff {md : Metadata} : onWire md = md ↔ ValidMetadata md := by
  obtain ⟨infoHash, family, name, totalSize, discoveredOn, files⟩ := md
  simp only [onWire, Metadata.mk.injEq, true_and, ValidMetadata, Utf8.coerce_eq_self_iff,
    map_eq_self_iff, onWireFile_eq_self_iff]

theorem Record.onWire_eq_self_iff {r : Record} : r.onWire = r ↔ ValidMetadata r.metadata := by
  obtain ⟨id, metadata⟩ := r
  simp [Record.onWire, Cluster.onWire_eq_self_iff]

theorem Batch.onWire_eq_self_iff {b : Batch} : b.onWire = b ↔ b.Valid := by
  obtain ⟨workerID, items, queued, dropped⟩ := b
  simp only [Batch.onWire, Batch.mk.injEq, and_true, Batch.Valid, Utf8.coerce_eq_self_iff,
    map_eq_self_iff, Record.onWire_eq_self_iff]

theorem decodeFile_encode (f : File) :
    decodeFile ⟨0, []⟩ (encodeFile f).coerce = (onWireFile f, true) := by
  simp only [decodeFile, encodeFile, Value.coerce, decodeStruct]
  rw [foldl_field fileFields rfl (decodeInt64_of _ f.size)]
  rw [foldl_field fileFields rfl (decodeString_of _ f.path)]
  rfl

theorem decodeMetadata_encode (md : Metadata) :
    decodeMetadata zeroMetadata (encodeMetadata md).coerce = (onWire md, true) := by
  simp only [decodeMetadata, encodeMetadata, Value.coerce, decodeStruct]
  rw [foldl_field metadataFields rfl (decodeBytes_of _ md.infoHash)]
  rw [foldl_field metadataFields rfl (decodeInt64_of _ md.family)]
  rw [foldl_field metadataFields rfl (decodeString_of _ md.name)]
  rw [foldl_field metadataFields rfl (decodeUInt64_of _ md.totalSize)]
  rw [foldl_field metadataFields rfl (decodeInt64_of _ md.discoveredOn)]
  rw [foldl_field metadataFields rfl (decodeSlice_of decodeFile_encode _ md.files)]
  rfl

theorem decodeRecord_encode (r : Record) :
    decodeRecord zeroRecord (encodeRecord r).coerce = (r.onWire, true) := by
  simp only [decodeRecord, encodeRecord, Value.coerce, decodeStruct]
  rw [foldl_field recordFields rfl (decodeUInt64_of _ r.id)]
  rw [foldl_field recordFields rfl (decodeMetadata_encode r.metadata)]
  rfl

theorem decodeBatch_encode (b : Batch) : decodeBatch (encodeBatch b).coerce = some b.onWire := by
  simp only [decodeBatch, encodeBatch, batchMembers, Value.coerce, decodeStruct]
  rw [foldl_field batchFields rfl (decodeString_of _ b.workerID)]
  rw [foldl_field batchFields rfl (decodeSlice_of decodeRecord_encode _ b.items)]
  rw [foldl_field batchFields rfl (decodeInt64_of _ b.queued)]
  rw [foldl_field batchFields rfl (decodeUInt64_of _ b.dropped)]
  rfl

theorem decodeAck_encode (a : Ack) : decodeAck (encodeAck a).coerce = some a := by
  have hids : decodeSlice decodeUInt64 0 [] (Value.arr (a.ids.map ofUInt64)).coerce =
      (a.ids, true) := by
    rw [decodeSlice_arr (decodeUInt64_of 0), List.map_id']
  simp only [decodeAck, encodeAck, ackMembers, Value.coerce, decodeStruct]
  rw [foldl_field ackFields rfl hids]
  rfl

/-! ## Sizes -/

/-- `{"size":…,"path":…}` -/
def fileSize (f : File) : Nat := 17 + intSize f.size.toInt + textSize f.path

/-- `{"InfoHash":…,"Family":…,"Name":…,"TotalSize":…,"DiscoveredOn":…,"Files":…}` -/
def metadataSize (md : Metadata) : Nat :=
  69 + bytesSize md.infoHash + intSize md.family.toInt + textSize md.name +
    digitCount md.totalSize.toNat + intSize md.discoveredOn.toInt +
    sliceSize (md.files.map fileSize)

/-- `{"id":…,"metadata":…}` -/
def recordSize (r : Record) : Nat := 19 + digitCount r.id.toNat + metadataSize r.metadata

/-- `{"worker_id":…,"items":…,"queued":…,"dropped":…}` -/
def batchSize (b : Batch) : Nat :=
  44 + textSize b.workerID + sliceSize (b.items.map recordSize) + intSize b.queued.toInt +
    digitCount b.dropped.toNat

theorem length_encodeFile (f : File) : (encode (encodeFile f)).length = fileSize f := by
  rw [encodeFile, length_encode_obj (by simp)]
  simp only [List.map_cons, List.map_nil, List.sum_cons, List.sum_nil, length_ofInt64,
    length_encode_str]
  rw [show textSize (ascii "size") = 6 by decide, show textSize (ascii "path") = 6 by decide,
    fileSize]
  omega

theorem length_encodeMetadata (md : Metadata) :
    (encode (encodeMetadata md)).length = metadataSize md := by
  rw [encodeMetadata, length_encode_obj (by simp)]
  simp only [List.map_cons, List.map_nil, List.sum_cons, List.sum_nil, length_ofInt64,
    length_ofUInt64, length_ofBytes, length_ofSlice length_encodeFile, length_encode_str]
  rw [show textSize (ascii "InfoHash") = 10 by decide, show textSize (ascii "Family") = 8 by decide,
    show textSize (ascii "Name") = 6 by decide, show textSize (ascii "TotalSize") = 11 by decide,
    show textSize (ascii "DiscoveredOn") = 14 by decide,
    show textSize (ascii "Files") = 7 by decide, metadataSize]
  omega

theorem length_encodeRecord (r : Record) : (encode (encodeRecord r)).length = recordSize r := by
  rw [encodeRecord, length_encode_obj (by simp)]
  simp only [List.map_cons, List.map_nil, List.sum_cons, List.sum_nil, length_ofUInt64,
    length_encodeMetadata]
  rw [show textSize (ascii "id") = 4 by decide, show textSize (ascii "metadata") = 10 by decide,
    recordSize]
  omega

theorem length_encodeBatch (b : Batch) : (encode (encodeBatch b)).length = batchSize b := by
  rw [encodeBatch, length_encode_obj (by simp [batchMembers]), batchMembers]
  simp only [List.map_cons, List.map_nil, List.sum_cons, List.sum_nil, length_ofInt64,
    length_ofUInt64, length_ofSlice length_encodeRecord, length_encode_str]
  rw [show textSize (ascii "worker_id") = 11 by decide, show textSize (ascii "items") = 7 by decide,
    show textSize (ascii "queued") = 8 by decide, show textSize (ascii "dropped") = 9 by decide,
    batchSize]
  omega

/-! ## Depth -/

theorem depth_encodeFile (f : File) : (encodeFile f).depth ≤ 1 := by
  refine depth_obj_le ?_
  simp

theorem depth_encodeMetadata (md : Metadata) : (encodeMetadata md).depth ≤ 3 := by
  refine depth_obj_le ?_
  simp [depth_ofSlice depth_encodeFile]

theorem depth_encodeRecord (r : Record) : (encodeRecord r).depth ≤ 4 := by
  refine depth_obj_le ?_
  simp [depth_encodeMetadata]

theorem depth_encodeBatch (b : Batch) : (encodeBatch b).depth ≤ maxNestingDepth := by
  have hdepth : (encodeBatch b).depth ≤ 6 := by
    refine depth_obj_le ?_
    simp [batchMembers, depth_ofSlice depth_encodeRecord]
  exact hdepth.trans (by decide)

theorem depth_encodeRecords (rs : List Record) :
    (ofSlice encodeRecord rs).depth ≤ maxNestingDepth :=
  (depth_ofSlice depth_encodeRecord rs).trans (by decide)

theorem depth_encodeAck (a : Ack) : (encodeAck a).depth ≤ maxNestingDepth := by
  have hids : (Value.arr (a.ids.map ofUInt64)).depth ≤ 1 := by
    refine depth_arr_le ?_
    simp
  have hdepth : (encodeAck a).depth ≤ 2 := by
    refine depth_obj_le ?_
    simpa [ackMembers] using hids
  exact hdepth.trans (by decide)

end Cluster
