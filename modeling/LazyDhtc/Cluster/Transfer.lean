-- SUMMARY: Metadata from a worker's queue to the master's `ingest` and through the cache file: they arrive unchanged exactly when their strings are UTF-8.
import LazyDhtc.Cluster.Exchange
import LazyDhtc.Cluster.InFlight
import LazyDhtc.DhtClient.Download

/-!
# Metadata in transfer

A torrent names itself and its files with any bytes. All ways to the master and the cache
file lead through JSON, whose strings are UTF-8.
-/

namespace Cluster

open DhtClient Json

/-! ## The ways -/

/-- The record at some place arrives there with these metadata. -/
def Arrives (md : Metadata) (sent arrived : List Record) : Prop :=
  ∀ (i : Nat) (id : UInt64), sent[i]? = some ⟨id, md⟩ →
    ∃ r, arrived[i]? = some r ∧ r.metadata = md

/-- Metadata that are the same after every way that they take out of a queue: when a batch is
    pulled, when it is flushed, and when the queue is saved and loaded. -/
structure Survives (md : Metadata) : Prop where
  pull : ∀ (q : WorkerQueue) (token token' : Bytes) (maxBatch : Int) (req : Request) (b : Batch),
    (pullRequest token).transmit = some req →
    pullBatch (q.handler token' maxBatch req).2 = some b →
    Arrives md (q.batch (WorkerQueue.handlerBatch maxBatch)).items b.items
  push : ∀ (q : WorkerQueue) (token : Bytes) (req sent : Request) (b : Batch),
    q.flushRequest = some req → req.transmit = some sent → masterFlushBatch token sent = .ok b →
    Arrives md q.nextBatch.items b.items
  cache : ∀ (q : WorkerQueue) (workerID : Bytes) (limit : Int) (cachePath : Bytes),
    cachePath ≠ [] →
    Arrives md q.items (WorkerQueue.new workerID limit cachePath (some q.snapshot)).items

theorem arrives_onWire {md : Metadata} (h : ValidMetadata md) (sent : List Record) :
    Arrives md sent (sent.map Record.onWire) := by
  intro i id hi
  refine ⟨⟨id, md⟩, ?_, rfl⟩
  have hsame : Record.onWire ⟨id, md⟩ = ⟨id, md⟩ := Record.onWire_eq_self_iff.2 h
  rw [List.getElem?_map, hi, Option.map_some, hsame]

/-- A flushed batch that the master takes is the wire form of the head of the queue. -/
theorem masterFlushBatch_flushRequest {q : WorkerQueue} {token : Bytes} {req sent : Request}
    {b : Batch} (hreq : q.flushRequest = some req) (hsent : req.transmit = some sent)
    (h : masterFlushBatch token sent = .ok b) : b = q.nextBatch.onWire := by
  have hread := masterFlushBatch_ok h
  rw [(transmit_body hsent).2.2, (WorkerQueue.flushRequest_body hreq).2,
    readLimited_encodeBatch] at hread
  split_ifs at hread
  exact (Option.some_inj.1 hread).symm

/-- A queue that is loaded from a snapshot has the wire form of the records. -/
theorem new_snapshot (q : WorkerQueue) (workerID : Bytes) (limit : Int) {cachePath : Bytes}
    (hpath : cachePath ≠ []) :
    (WorkerQueue.new workerID limit cachePath (some q.snapshot)).items =
      q.items.map Record.onWire := by
  rw [WorkerQueue.new, loadFromCache_items rfl hpath, Option.bind_some, WorkerQueue.snapshot,
    readAll_encode (depth_encodeRecords q.items)]
  simp only [decodeSlice_of decodeRecord_encode]

/-- A new queue that has accepted one record. -/
def singleton (md : Metadata) : WorkerQueue := ((WorkerQueue.new [] 1 [] none).enqueue md).1

/-- Metadata survive the transport exactly when their strings are UTF-8. -/
theorem survives_iff (md : Metadata) : Survives md ↔ ValidMetadata md := by
  constructor
  · intro h
    have htoken : ascii "t" ≠ [] := by decide
    obtain ⟨req, hreq, hauth⟩ :=
      (authorized_transmit htoken .get (ascii "gzip") []).2 (by decide)
    have hpulled : pullBatch ((singleton md).handler (ascii "t") 16 req).2 =
        some ((singleton md).batch 16).onWire := by
      rw [WorkerQueue.pullBatch_handler _ _ _ hreq, if_pos hauth]
      rfl
    obtain ⟨r, hr, hmd⟩ := h.pull (singleton md) (ascii "t") (ascii "t") 16 req _ hreq hpulled 0 1 rfl
    have hwire : r = Record.onWire ⟨1, md⟩ := (Option.some_inj.1 hr).symm
    rw [hwire] at hmd
    exact onWire_eq_self_iff.1 hmd
  · intro h
    refine ⟨?_, ?_, ?_⟩
    · intro q token token' maxBatch req b hreq hpull
      rw [WorkerQueue.pullBatch_handler _ _ _ hreq] at hpull
      split_ifs at hpull
      rw [← Option.some_inj.1 hpull]
      exact arrives_onWire h _
    · intro q token req sent b hreq hsent hflush
      rw [masterFlushBatch_flushRequest hreq hsent hflush]
      exact arrives_onWire h _
    · intro q workerID limit cachePath hpath
      rw [new_snapshot q workerID limit hpath]
      exact arrives_onWire h _

end Cluster

/-! ## A name in another encoding -/

namespace DhtClient

namespace Client

/-- The text `d6:lengthi4e4:name4:…12:piece lengthi16384e6:pieces20:…e`, where the name is a
    word in GBK. -/
def gbkInfo : Bytes :=
  ascii "d6:lengthi4e4:name4:" ++ [0xD6, 0xD0, 0xCE, 0xC4] ++
    ascii "12:piece lengthi16384e6:pieces20:" ++ gbkPieces ++ ascii "e"
where
  gbkPieces : Bytes :=
    [129, 254, 139, 254, 135, 87, 108, 62, 203, 34, 66, 111, 142, 87, 132, 115, 130, 145, 122, 207]

/-- The SHA-1 sum of that text. -/
def gbkHash : Bytes :=
  [104, 7, 52, 213, 78, 228, 22, 252, 164, 197, 169, 253, 244, 68, 4, 165, 74, 207, 56, 65]

def gbkHandshake : ExMessage := ⟨0, ascii "d1:md11:ut_metadatai1ee13:metadata_sizei78ee"⟩

def gbkDict : Bytes := ascii "d8:msg_typei1e5:piecei0ee"

def gbkPiece : ExMessage := ⟨1, gbkDict ++ gbkInfo⟩

/-- Packages that decode the messages of a peer with that torrent. -/
def gbkPackages : Packages where
  unmarshalRootDict b :=
    if b = gbkHandshake.payload then .ok ⟨⟨1, 0⟩, 78⟩ else .error "syntax error"
  unmarshalPexMsg _ := .error "syntax error"
  decodeExtDict b :=
    if b.take 25 = gbkDict then .ok (⟨1, 0⟩, b.drop 25) else .error "syntax error"
  marshalExtDict _ := ascii "d8:msg_typei0e5:piecei0ee"
  unmarshalInfo b :=
    if b = gbkInfo then .ok ⟨16384, gbkInfo.gbkPieces, [0xD6, 0xD0, 0xCE, 0xC4], 4, []⟩
    else .error "syntax error"
  displayPath _ file := file.path.flatten
  totalLength info := info.length
  numPieces info := .ofNat (info.pieces.length / 20)
  sha1 b := if b = gbkInfo then gbkHash else []
  sha256 _ := []
  unixNow := 1700000000

def gbkBtHandshake : Bytes :=
  protocolName ++ [0, 0, 0, 0, 0, 0x10, 0, 0x01] ++ gbkHash ++ List.replicate 20 7

def gbkConn : Conn where
  incoming := gbkBtHandshake ++ (gbkHandshake.frame ++ gbkPiece.frame)
  readErr := "EOF"
  written := []
  writesLeft := 3
  writeErr := "broken pipe"

def gbkMetadata : Metadata :=
  ⟨gbkHash, 0, [0xD6, 0xD0, 0xCE, 0xC4], 4, 1700000000, [⟨4, [0xD6, 0xD0, 0xCE, 0xC4]⟩]⟩

/-- The client before its loop. -/
def gbkClient : Client :=
  { newClient gbkHash [] with
    utMetadata := 1, metadataSize := 78, metadata := List.replicate 78 0 }

theorem doBtHandshake_gbk : ∃ conn, (newClient gbkHash []).doBtHandshake gbkConn = .ok conn ∧
    conn.incoming = gbkHandshake.frame ++ gbkPiece.frame ∧ conn.writesLeft = 2 := by
  obtain ⟨conn, hok, hincoming, hleft⟩ := @doBtHandshake_ok (newClient gbkHash []) gbkConn
    (List.replicate 20 7) (gbkHandshake.frame ++ gbkPiece.frame) (by decide) rfl rfl rfl
  exact ⟨conn, hok, hincoming, Nat.succ.inj hleft⟩

theorem doExHandshake_gbk {conn : Conn} (hincoming : conn.incoming = gbkHandshake.frame ++
    gbkPiece.frame) (hwrites : conn.writesLeft = 2) :
    ∃ conn', (newClient gbkHash []).doExHandshake gbkPackages conn = .ok (gbkClient, conn') ∧
      conn'.incoming = gbkPiece.frame ∧ conn'.writesLeft = 1 := by
  obtain ⟨conn₁, hwrite, hincoming₁, hwrites₁⟩ := Conn.writeAll_ok (hwrites.trans_ne (by decide))
    ([0, 0, 0, 0x25, 0x14, 0] ++ "d1:md11:ut_metadatai1e6:ut_pexi2eee".toUTF8.toList)
  refine ⟨{ conn₁ with incoming := gbkPiece.frame }, ?_, rfl, Nat.succ.inj (hwrites₁.trans hwrites)⟩
  unfold doExHandshake
  rw [hwrite]
  dsimp only
  rw [Conn.readExMessage_frame (by decide) (hincoming₁.trans hincoming)]
  rfl

theorem receiveLoop_gbk {conn : Conn} (hincoming : conn.incoming = gbkPiece.frame) :
    gbkClient.receiveLoop gbkPackages conn =
      .ok { gbkClient with metadataReceived := 78, metadata := gbkInfo } := by
  have hread : conn.exMessages = [gbkPiece] :=
    Conn.exMessages_frames (by decide) (by rw [hincoming]; simp)
  obtain ⟨err, heq⟩ := receiveLoop_eq gbkPackages gbkClient conn
  have hpiece : gbkClient.receive gbkPackages gbkPiece =
      .ok { gbkClient with metadataReceived := 78, metadata := gbkInfo } := rfl
  rw [heq, hread, receiveMessages_cons _ _ (by decide), hpiece]
  exact receiveMessages_done _ (by decide)

/-- A client downloads the torrent and reports its metadata. -/
theorem do_gbk : («do» gbkPackages (newClient gbkHash []) gbkConn).2 = .onSuccess gbkMetadata := by
  obtain ⟨conn₁, hbt, hincoming₁, hwrites₁⟩ := doBtHandshake_gbk
  obtain ⟨conn₂, hex, hincoming₂, hwrites₂⟩ := doExHandshake_gbk hincoming₁ hwrites₁
  obtain ⟨conn₃, hrequest, hincoming₃⟩ := @requestAllPieces_ok gbkPackages gbkClient conn₂
    (by rw [hwrites₂]; rfl)
  have hloop := receiveLoop_gbk (hincoming₃.trans hincoming₂)
  have hverify : verify gbkPackages
      { gbkClient with metadataReceived := 78, metadata := gbkInfo } = .ok gbkMetadata := rfl
  rw [do_eq hbt hex hrequest, hloop]
  dsimp only [conclude]
  rw [hverify]

end Client

end DhtClient

namespace Cluster

open DhtClient DhtClient.Client

/-- The torrent is reported by a client, but no way out of a queue keeps its name. -/
theorem gbk_name_changes :
    (DhtClient.Client.«do» gbkPackages (newClient gbkHash []) gbkConn).2 = .onSuccess gbkMetadata ∧
      ¬ Survives gbkMetadata := by
  refine ⟨do_gbk, ?_⟩
  rw [survives_iff]
  decide

end Cluster
