-- SUMMARY: The download of a torrent's metadata from one peer, from the handshakes to the callbacks, and which messages of the peer keep it inside its buffer.
import LazyDhtc.DhtClient.Util

/-!
# Client

`Client.Do` talks to one peer: two handshakes, a request for every piece of the
metadata, and a loop that copies the pieces it is sent into a buffer of the announced
size. The peer is here the bytes it sends before the connection fails.
-/

namespace DhtClient

def maxMetadataSize : Nat := 10 * 1024 * 1024

/-! ## Messages -/

structure MDict where
  utMetadata : Int64
  utPex : Int64

structure RootDict where
  m : MDict
  metadataSize : Int64

structure PexMsg where
  added : Bytes
  added6 : Bytes

structure ExtDict where
  msgType : Int64
  piece : Int64

structure FileInfo where
  length : Int64
  path : List Bytes

/-- The fields of a `metainfo.Info` that the client reads. -/
structure Info where
  pieceLength : Int64
  pieces : Bytes
  name : Bytes
  length : Int64
  files : List FileInfo

/-- The functions of other packages that a client calls, and the clock. -/
structure Packages where
  unmarshalRootDict : Bytes → Except String RootDict
  unmarshalPexMsg : Bytes → Except String PexMsg
  /-- The dictionary at the front, and the bytes after it. -/
  decodeExtDict : Bytes → Except String (ExtDict × Bytes)
  marshalExtDict : ExtDict → Bytes
  unmarshalInfo : Bytes → Except String Info
  displayPath : Info → FileInfo → Bytes
  totalLength : Info → Int64
  numPieces : Info → Int64
  sha1 : Bytes → Bytes
  sha256 : Bytes → Bytes
  unixNow : Int64

/-- `errors.Wrap` of an error that is not nil. -/
def wrap (err msg : String) : String := msg ++ ": " ++ err

/-- `toBigEndian(i, 4)`. -/
def toBigEndian4 (i : Nat) : Bytes :=
  [.ofNat (i / 2 ^ 24), .ofNat (i / 2 ^ 16), .ofNat (i / 2 ^ 8), .ofNat i]

/-! ## Connection -/

/-- A connection: what the peer still sends before reading fails, and how many writes
    still succeed. -/
structure Conn where
  incoming : Bytes
  readErr : String
  written : List Bytes
  writesLeft : Nat
  writeErr : String

def Conn.writeAll (conn : Conn) (b : Bytes) : Except String Conn :=
  if conn.writesLeft = 0 then .error conn.writeErr
  else .ok { conn with written := conn.written ++ [b], writesLeft := conn.writesLeft - 1 }

def Conn.readExactly (conn : Conn) (n : Nat) : Except String (Bytes × Conn) :=
  if n ≤ conn.incoming.length then
    .ok (conn.incoming.take n, { conn with incoming := conn.incoming.drop n })
  else .error conn.readErr

/-- A BitTorrent message, without the 4 bytes that give its length. -/
def Conn.readMessage (conn : Conn) : Except String (Bytes × Conn) :=
  match conn.readExactly 4 with
  | .error err => .error (wrap err "readExactly rLengthB")
  | .ok (rLengthB, conn) =>
    let rLength := beNat rLengthB
    if rLength > maxMetadataSize then
      .error "message is longer than max allowed metadata size"
    else
      match conn.readExactly rLength with
      | .error err => .error (wrap err "readExactly rMessage")
      | .ok r => .ok r

theorem Conn.readExactly_length {conn conn' : Conn} {n : Nat} {b : Bytes}
    (h : conn.readExactly n = .ok (b, conn')) :
    conn'.incoming.length + n = conn.incoming.length := by
  unfold readExactly at h
  split at h
  · cases h
    simp only [List.length_drop]
    omega
  · cases h

theorem Conn.readMessage_length {conn conn' : Conn} {b : Bytes}
    (h : conn.readMessage = .ok (b, conn')) : conn'.incoming.length < conn.incoming.length := by
  unfold readMessage at h
  cases h4 : conn.readExactly 4 with
  | error err =>
    rw [h4] at h
    cases h
  | ok r =>
    have hlen := readExactly_length h4
    rw [h4] at h
    dsimp only at h
    split at h
    · cases h
    · split at h
      · cases h
      · next r' hr =>
        cases h
        have hlen' := readExactly_length hr
        omega

/-- An extension message: what follows its first byte, which is 20. -/
structure ExMessage where
  id : UInt8
  payload : Bytes
deriving DecidableEq

/-- The extension message that a BitTorrent message is, if it is one. -/
def ExMessage.ofMessage : Bytes → Option ExMessage
  | first :: id :: payload => if first = 20 then some ⟨id, payload⟩ else none
  | _ => none

/-- The next extension message; others are skipped. -/
def Conn.readExMessage (conn : Conn) : Except String (ExMessage × Conn) :=
  match h : conn.readMessage with
  | .error err => .error (wrap err "readMessage")
  | .ok (rMessage, conn') =>
    match ExMessage.ofMessage rMessage with
    | some m => .ok (m, conn')
    | none =>
      have := Conn.readMessage_length h
      conn'.readExMessage
termination_by conn.incoming.length

theorem Conn.readExMessage_error {conn : Conn} {err : String} (h : conn.readMessage = .error err) :
    conn.readExMessage = .error (wrap err "readMessage") := by
  rw [readExMessage]
  split
  · next herr =>
    rw [h] at herr
    cases herr
    rfl
  · next hok =>
    rw [h] at hok
    cases hok

theorem Conn.readExMessage_ok {conn conn' : Conn} {b : Bytes}
    (h : conn.readMessage = .ok (b, conn')) :
    conn.readExMessage =
      match ExMessage.ofMessage b with
      | some m => .ok (m, conn')
      | none => conn'.readExMessage := by
  rw [readExMessage]
  split
  · next herr =>
    rw [h] at herr
    cases herr
  · next hok =>
    rw [h] at hok
    cases hok
    rfl

theorem Conn.readExMessage_length {conn conn' : Conn} {m : ExMessage}
    (h : conn.readExMessage = .ok (m, conn')) : conn'.incoming.length < conn.incoming.length := by
  induction conn using Conn.readExMessage.induct with
  | case1 conn err hread =>
    rw [readExMessage_error hread] at h
    cases h
  | case2 conn b conn₁ hread m₁ hm =>
    have hlen := readMessage_length hread
    rw [readExMessage_ok hread, hm] at h
    cases h
    exact hlen
  | case3 conn b conn₁ hread hm hlen ih =>
    rw [readExMessage_ok hread, hm] at h
    exact (ih h).trans hlen

/-! ## The client -/

/-- A `Client`. `peers` logs the calls of its `OnPeers` handler. -/
structure Client where
  infoHash : Bytes
  clientID : Bytes
  utMetadata : UInt8
  utPex : UInt8
  metadataReceived : UInt64
  metadataSize : UInt64
  metadata : Bytes
  peers : List (List AddrPort)

def newClient (infoHash clientID : Bytes) : Client :=
  ⟨infoHash, padTo 20 clientID, 0, 0, 0, 0, [], []⟩

namespace Client

/-- The info hash as the peer protocol has it: a hash of 32 bytes is cut to 20. -/
def handshakeHash (c : Client) : Bytes :=
  if c.infoHash.length = 32 then c.infoHash.take 20 else c.infoHash

def protocolName : Bytes := 19 :: "BitTorrent protocol".toUTF8.toList

def doBtHandshake (c : Client) (conn : Conn) : Except String Conn :=
  let lHandshake := protocolName ++ [0, 0, 0, 0, 0, 0x10, 0, 0x01] ++ padTo 20 c.handshakeHash ++
    c.clientID
  match conn.writeAll lHandshake with
  | .error err => .error (wrap err "writeAll lHandshake")
  | .ok conn =>
    match conn.readExactly 68 with
    | .error err => .error (wrap err "readExactly rHandshake")
    | .ok (rHandshake, conn) =>
      if rHandshake.take 20 ≠ protocolName then .error "corrupt BitTorrent handshake received"
      else if (rHandshake.drop 28).take 20 ≠ c.handshakeHash then
        .error "remote peer infohash mismatch"
      else if rHandshake.getD 25 0 &&& 0x10 = 0 then
        .error "peer does not support the extension protocol"
      else .ok conn

def doExHandshake (p : Packages) (c : Client) (conn : Conn) : Except String (Client × Conn) :=
  match conn.writeAll ([0, 0, 0, 0x25, 0x14, 0] ++
    "d1:md11:ut_metadatai1e6:ut_pexi2eee".toUTF8.toList) with
  | .error err => .error (wrap err "writeAll lHandshake")
  | .ok conn =>
    match conn.readExMessage with
    | .error err => .error (wrap err "readExMessage")
    | .ok (rExMessage, conn) =>
      -- the error wrapped here is nil, and then `errors.Wrap` returns nil
      if rExMessage.id ≠ 0 then .ok (c, conn)
      else
        match p.unmarshalRootDict rExMessage.payload with
        | .error err => .error (wrap err "unmarshal rExMessage")
        | .ok rRootDict =>
          if ¬ (0 < rRootDict.metadataSize.toInt ∧
              rRootDict.metadataSize.toInt < maxMetadataSize) then
            .error "metadata too big or its size is less than or equal zero"
          else if ¬ (0 < rRootDict.m.utMetadata.toInt ∧ rRootDict.m.utMetadata.toInt < 255) then
            .error "ut_metadata is not an uint8"
          else .ok ({ c with
            utMetadata := .ofInt rRootDict.m.utMetadata.toInt
            utPex := .ofInt rRootDict.m.utPex.toInt
            metadataSize := .ofInt rRootDict.metadataSize.toInt
            metadata := List.replicate rRootDict.metadataSize.toInt.toNat 0 }, conn)

/-- The number of pieces of 16 KiB that the metadata has. -/
def nPieces (c : Client) : Nat := (c.metadataSize.toNat + 16383) / 16384

def pieceRequest (p : Packages) (c : Client) (piece : Nat) : Bytes :=
  let extDictDump := p.marshalExtDict ⟨0, .ofNat piece⟩
  toBigEndian4 (2 + extDictDump.length) ++ [0x14, c.utMetadata] ++ extDictDump

def requestAllPieces (p : Packages) (c : Client) (conn : Conn) : Except String Conn :=
  (List.range c.nPieces).foldlM (fun conn piece =>
    match conn.writeAll (c.pieceRequest p piece) with
    | .error err => .error (wrap err "writeAll piece request")
    | .ok conn => .ok conn) conn

def handlePex (p : Packages) (c : Client) (payload : Bytes) : Client :=
  match p.unmarshalPexMsg payload with
  | .error _ => c
  | .ok msg =>
    let peers := parsePeers msg.added ++ parsePeers6 msg.added6
    if peers ≠ [] then { c with peers := c.peers ++ [peers] } else c

/-- How a part of `Do` ends: it goes on, it has called `OnError`, or it has panicked. -/
inductive Outcome where
  | ok (c : Client)
  | onError (c : Client) (err : String)
  | panic (c : Client)

/-- The branch of the loop for a piece of the metadata. The product and the sum wrap
    around like every `int`, and the slice panics unless its bounds are in order and
    inside the buffer. -/
def receivePiece (c : Client) (rExtDict : ExtDict) (metadataPiece : Bytes) : Outcome :=
  if metadataPiece.length > 16 * 1024 then .onError c "metadataPiece > 16kiB"
  else
    let lo := rExtDict.piece * 16384
    let hi := lo + .ofNat metadataPiece.length
    if 0 ≤ lo.toInt ∧ lo.toInt ≤ hi.toInt ∧ hi.toInt ≤ c.metadata.length then
      let c := { c with
        metadata := copySlice c.metadata lo.toInt.toNat hi.toInt.toNat metadataPiece
        metadataReceived := c.metadataReceived + .ofNat metadataPiece.length }
      if metadataPiece.length < 16 * 1024 ∧ c.metadataReceived ≠ c.metadataSize then
        .onError c "metadataPiece < 16 kiB but incomplete"
      else if c.metadataReceived > c.metadataSize then
        .onError c "metadataReceived > metadataSize"
      else .ok c
    else .panic c

/-- One round of the loop that receives the metadata, once it has read a message. -/
def receive (p : Packages) (c : Client) (rExMessage : ExMessage) : Outcome :=
  if rExMessage.id = 1 then
    match p.decodeExtDict rExMessage.payload with
    | .error err => .onError c (wrap err "could not decode ext msg in the loop")
    | .ok (rExtDict, metadataPiece) =>
      if rExtDict.msgType = 2 then .onError c "remote peer rejected sending metadata"
      else if rExtDict.msgType = 1 then c.receivePiece rExtDict metadataPiece
      else .ok c
  else if rExMessage.id = 2 then .ok (c.handlePex p rExMessage.payload)
  else .ok c

def receiveLoop (p : Packages) (c : Client) (conn : Conn) : Outcome :=
  if c.metadataReceived < c.metadataSize then
    match h : conn.readExMessage with
    | .error err => .onError c (wrap err "readExMessage")
    | .ok (rExMessage, conn') =>
      match c.receive p rExMessage with
      | .ok c =>
        have := Conn.readExMessage_length h
        c.receiveLoop p conn'
      | o => o
  else .ok c
termination_by conn.incoming.length

def validateInfo (p : Packages) (info : Info) : Except String Unit :=
  if 0 < info.pieces.length ∧ info.pieces.length % 20 ≠ 0 then
    .error "pieces has invalid length"
  else if info.pieceLength = 0 then
    if p.totalLength info ≠ 0 then .error "zero piece length" else .ok ()
  else if 0 < info.pieces.length ∧
      (p.totalLength info + info.pieceLength - 1) / info.pieceLength ≠ p.numPieces info then
    .error "piece count and file lengths are at odds"
  else .ok ()

def filesOf (p : Packages) (info : Info) : List File :=
  if info.files = [] then [⟨info.length, info.name⟩]
  else info.files.map fun file => ⟨file.length, p.displayPath info file⟩

/-- The loop that adds up the sizes of the files. -/
def sumSizes : List File → UInt64 → Except String UInt64
  | [], totalSize => .ok totalSize
  | file :: files, totalSize =>
    if file.size < 0 then .error "file size less than zero"
    else sumSizes files (totalSize + file.size.toUInt64)

/-- The rest of `Do` after the loop: the metadata for `OnSuccess`, or the error. -/
def verify (p : Packages) (c : Client) : Except String Metadata :=
  let sum := if c.infoHash.length = 32 then p.sha256 c.metadata else p.sha1 c.metadata
  if sum ≠ c.infoHash then .error "infohash mismatch"
  else
    match p.unmarshalInfo c.metadata with
    | .error err => .error (wrap err "unmarshal info")
    | .ok info =>
      match validateInfo p info with
      | .error err => .error (wrap err "validateInfo")
      | .ok () =>
        let files := filesOf p info
        match sumSizes files 0 with
        | .error err => .error err
        | .ok totalSize => .ok ⟨c.infoHash, 0, info.name, totalSize, p.unixNow, files⟩

/-- What the handlers of a client are told when `Do` ends. -/
inductive Report where
  | onSuccess (metadata : Metadata)
  | onError (infoHash : Bytes) (err : String)
  | panic

/-- `Do`, after `connect`: the calls of `OnPeers`, and the last call. -/
def «do» (p : Packages) (c : Client) (conn : Conn) : List (List AddrPort) × Report :=
  match c.doBtHandshake conn with
  | .error err => (c.peers, .onError c.infoHash (wrap err "doBtHandshake"))
  | .ok conn =>
    match c.doExHandshake p conn with
    | .error err => (c.peers, .onError c.infoHash (wrap err "doExHandshake"))
    | .ok (c, conn) =>
      match c.requestAllPieces p conn with
      | .error err => (c.peers, .onError c.infoHash (wrap err "requestAllPieces"))
      | .ok conn =>
        match c.receiveLoop p conn with
        | .panic c => (c.peers, .panic)
        | .onError c err => (c.peers, .onError c.infoHash err)
        | .ok c =>
          match c.verify p with
          | .error err => (c.peers, .onError c.infoHash err)
          | .ok metadata => (c.peers, .onSuccess metadata)

end Client

/-! ## The messages of a connection -/

/-- The extension messages that can be read from a connection. -/
def Conn.exMessages (conn : Conn) : List ExMessage :=
  match h : conn.readExMessage with
  | .error _ => []
  | .ok (m, conn') =>
    have := Conn.readExMessage_length h
    m :: conn'.exMessages
termination_by conn.incoming.length

theorem Conn.exMessages_error {conn : Conn} {err : String} (h : conn.readExMessage = .error err) :
    conn.exMessages = [] := by
  rw [exMessages]
  split <;> simp_all

theorem Conn.exMessages_ok {conn conn' : Conn} {m : ExMessage}
    (h : conn.readExMessage = .ok (m, conn')) : conn.exMessages = m :: conn'.exMessages := by
  rw [exMessages]
  split <;> simp_all

theorem beNat_toBigEndian4 {n : Nat} (h : n < 2 ^ 32) : beNat (toBigEndian4 n) = n := by
  simp only [toBigEndian4, beNat, List.length_cons, List.length_nil, UInt8.toNat_ofNat']
  omega

/-- A write uses up one of those that are left. -/
theorem Conn.writeAll_ok {conn : Conn} (h : conn.writesLeft ≠ 0) (b : Bytes) :
    ∃ conn', conn.writeAll b = .ok conn' ∧ conn'.incoming = conn.incoming ∧
      conn'.writesLeft + 1 = conn.writesLeft :=
  ⟨_, if_neg h, rfl, Nat.sub_add_cancel (Nat.pos_of_ne_zero h)⟩

theorem Conn.readExactly_append {conn : Conn} {n : Nat} {pre rest : Bytes}
    (hlen : pre.length = n) (h : conn.incoming = pre ++ rest) :
    conn.readExactly n = .ok (pre, { conn with incoming := rest }) := by
  subst hlen
  unfold readExactly
  rw [h, if_pos (by simp), List.take_left, List.drop_left]

/-- A message is read behind its length. -/
theorem Conn.readMessage_frame {conn : Conn} {body rest : Bytes}
    (hlen : body.length ≤ maxMetadataSize)
    (h : conn.incoming = toBigEndian4 body.length ++ body ++ rest) :
    conn.readMessage = .ok (body, { conn with incoming := rest }) := by
  have hmax : maxMetadataSize = 10485760 := rfl
  have hfour := readExactly_append (n := 4) rfl (h.trans (List.append_assoc _ _ _))
  have hbody : Conn.readExactly { conn with incoming := body ++ rest } body.length =
      .ok (body, { conn with incoming := rest }) := readExactly_append rfl rfl
  simp only [readMessage, hfour, beNat_toBigEndian4 (show body.length < 2 ^ 32 by omega), hbody]
  rw [if_neg (by omega)]

/-- The bytes in which a peer sends an extension message. -/
def ExMessage.frame (m : ExMessage) : Bytes :=
  toBigEndian4 (2 + m.payload.length) ++ 20 :: m.id :: m.payload

theorem Conn.readExMessage_frame {conn : Conn} {m : ExMessage} {rest : Bytes}
    (hlen : 2 + m.payload.length ≤ maxMetadataSize) (h : conn.incoming = m.frame ++ rest) :
    conn.readExMessage = .ok (m, { conn with incoming := rest }) := by
  have hbody : (20 :: m.id :: m.payload).length = 2 + m.payload.length := by
    simp only [List.length_cons]
    omega
  have hread : conn.readMessage =
      .ok (20 :: m.id :: m.payload, { conn with incoming := rest }) := by
    refine readMessage_frame (hbody.trans_le hlen) ?_
    rw [h, ExMessage.frame, hbody]
  exact readExMessage_ok hread

/-- A peer can send any sequence of extension messages of acceptable length. -/
theorem Conn.exMessages_frames {conn : Conn} {ms : List ExMessage}
    (hlen : ∀ m ∈ ms, 2 + m.payload.length ≤ maxMetadataSize)
    (h : conn.incoming = ms.flatMap ExMessage.frame) : conn.exMessages = ms := by
  induction ms generalizing conn with
  | nil =>
    obtain ⟨err, herr⟩ : ∃ err, conn.readExMessage = .error err := by
      have hfour : conn.readMessage = .error (wrap conn.readErr "readExactly rLengthB") := by
        simp [readMessage, readExactly, h]
      exact ⟨_, readExMessage_error hfour⟩
    exact exMessages_error herr
  | cons m ms ih =>
    have hread := readExMessage_frame (hlen m List.mem_cons_self) (by rw [h, List.flatMap_cons])
    rw [exMessages_ok hread, ih (fun m' hm' => hlen m' (List.mem_cons_of_mem _ hm')) rfl]

namespace Client

/-- The loop over messages that have been read; `err` is the error that reading ends
    with. -/
def receiveMessages (p : Packages) (err : String) : Client → List ExMessage → Outcome
  | c, [] => if c.metadataReceived < c.metadataSize then .onError c err else .ok c
  | c, m :: ms =>
    if c.metadataReceived < c.metadataSize then
      match c.receive p m with
      | .ok c => receiveMessages p err c ms
      | o => o
    else .ok c

theorem receiveMessages_done {p : Packages} {err : String} {c : Client} (ms : List ExMessage)
    (h : ¬ c.metadataReceived < c.metadataSize) : receiveMessages p err c ms = .ok c := by
  cases ms <;> simp [receiveMessages, h]

theorem receiveMessages_cons {p : Packages} {err : String} {c : Client} (m : ExMessage)
    (ms : List ExMessage) (h : c.metadataReceived < c.metadataSize) :
    receiveMessages p err c (m :: ms) =
      match c.receive p m with
      | .ok c => receiveMessages p err c ms
      | o => o := by
  rw [receiveMessages, if_pos h]

/-- The loop on a connection is the loop over its extension messages. -/
theorem receiveLoop_eq (p : Packages) (c : Client) (conn : Conn) :
    ∃ err, c.receiveLoop p conn = receiveMessages p err c conn.exMessages := by
  induction conn using Conn.exMessages.induct generalizing c with
  | case1 conn err h =>
    refine ⟨wrap err "readExMessage", ?_⟩
    rw [receiveLoop, Conn.exMessages_error h, receiveMessages]
    split
    · split <;> simp_all
    · rfl
  | case2 conn m conn' h hlen ih =>
    rw [Conn.exMessages_ok h, receiveLoop]
    by_cases hc : c.metadataReceived < c.metadataSize
    · cases hm : c.receive p m with
      | ok c' =>
        obtain ⟨err, herr⟩ := ih c'
        refine ⟨err, ?_⟩
        rw [receiveMessages_cons _ _ hc, if_pos hc, hm]
        split <;> simp_all
      | onError c' e =>
        refine ⟨"", ?_⟩
        rw [receiveMessages_cons _ _ hc, if_pos hc, hm]
        split <;> simp_all
      | panic c' =>
        refine ⟨"", ?_⟩
        rw [receiveMessages_cons _ _ hc, if_pos hc, hm]
        split <;> simp_all
    · refine ⟨"", ?_⟩
      rw [receiveMessages_done _ hc, if_neg hc]

/-- The state in which the loop reads its next message after `ms`, if it gets there. -/
def afterMessages (p : Packages) : Client → List ExMessage → Option Client
  | c, [] => if c.metadataReceived < c.metadataSize then some c else none
  | c, m :: ms =>
    if c.metadataReceived < c.metadataSize then
      match c.receive p m with
      | .ok c => afterMessages p c ms
      | _ => none
    else none

/-- A loop that panics does so in a round that it starts. -/
theorem receiveMessages_panic {p : Packages} {err : String} {c c' : Client} {ms : List ExMessage}
    (h : receiveMessages p err c ms = .panic c') :
    ∃ pre m post c₁, ms = pre ++ m :: post ∧ afterMessages p c pre = some c₁ ∧
      c₁.receive p m = .panic c' := by
  induction ms generalizing c with
  | nil =>
    rw [receiveMessages] at h
    split at h <;> cases h
  | cons m ms ih =>
    by_cases hc : c.metadataReceived < c.metadataSize
    · rw [receiveMessages_cons _ _ hc] at h
      cases hm : c.receive p m with
      | ok c₁ =>
        rw [hm] at h
        obtain ⟨pre, m', post, c₂, rfl, hafter, hpanic⟩ := ih h
        refine ⟨m :: pre, m', post, c₂, rfl, ?_, hpanic⟩
        rw [afterMessages, if_pos hc, hm]
        exact hafter
      | onError c₁ e =>
        rw [hm] at h
        cases h
      | panic c₁ =>
        rw [hm] at h
        cases h
        exact ⟨[], m, ms, c, rfl, by rw [afterMessages, if_pos hc], hm⟩
    · rw [receiveMessages_done _ hc] at h
      cases h

/-- A piece of the metadata, as the loop decodes it. -/
def dataPiece (p : Packages) (m : ExMessage) : Option (ExtDict × Bytes) :=
  if m.id = 1 then
    match p.decodeExtDict m.payload with
    | .error _ => none
    | .ok (ext, piece) => if ext.msgType = 1 then some (ext, piece) else none
  else none

/-- The number of pieces among some messages. -/
def pieces (p : Packages) (ms : List ExMessage) : Nat :=
  ms.countP fun m => (dataPiece p m).isSome

/-- The bytes of a piece lie inside a buffer of `size` bytes, with the offset computed
    in 64 bits. -/
def InRange (size : Nat) (ext : ExtDict) (piece : Bytes) : Prop :=
  0 ≤ (ext.piece * 16384).toInt ∧ (ext.piece * 16384).toInt + piece.length ≤ size

/-- A message after which a download that was not complete goes on, if it still is not:
    not a rejection, not undecodable, and a piece only if it has 16 KiB. -/
def Continues (p : Packages) (m : ExMessage) : Prop :=
  m.id = 1 → ∃ ext piece, p.decodeExtDict m.payload = .ok (ext, piece) ∧ ext.msgType ≠ 2 ∧
    (ext.msgType = 1 → piece.length = 16384)

/-- The messages `ms` leave a download of `size` bytes incomplete and running. -/
def StaysOpen (p : Packages) (size : Nat) (ms : List ExMessage) : Prop :=
  (∀ m ∈ ms, Continues p m) ∧ 16384 * pieces p ms < size

/-- Every piece of at most 16 KiB that arrives while the download is open is in range. -/
def PiecesInRange (p : Packages) (size : Nat) (ms : List ExMessage) : Prop :=
  ∀ pre m post, ms = pre ++ m :: post → StaysOpen p size pre →
    ∀ ext piece, dataPiece p m = some (ext, piece) → piece.length ≤ 16384 → InRange size ext piece

/-! ## One round -/

/-- The client has received `n` whole pieces of a metadata of `size` bytes. -/
structure Downloading (size n : Nat) (c : Client) : Prop where
  size_eq : c.metadataSize.toNat = size
  received_eq : c.metadataReceived.toNat = 16384 * n
  length_eq : c.metadata.length = size
  size_lt : size < maxMetadataSize

theorem Downloading.running_iff {size n : Nat} {c : Client} (h : Downloading size n c) :
    c.metadataReceived < c.metadataSize ↔ 16384 * n < size := by
  rw [UInt64.lt_iff_toNat_lt, h.size_eq, h.received_eq]

/-- The bounds of the slice are in order exactly when the piece is in range. -/
theorem slice_iff_inRange {size : Nat} (hsize : size < maxMetadataSize) (ext : ExtDict)
    {piece : Bytes} (hlen : piece.length ≤ 16384) :
    (0 ≤ (ext.piece * 16384).toInt ∧
      (ext.piece * 16384).toInt ≤ (ext.piece * 16384 + .ofNat piece.length).toInt ∧
      (ext.piece * 16384 + .ofNat piece.length).toInt ≤ size) ↔ InRange size ext piece := by
  have hlo := (ext.piece * 16384).toInt_lt
  have hmax : maxMetadataSize = 10485760 := rfl
  rw [InRange, Int64.toInt_add, Int64.toInt_ofNat_of_lt (by omega)]
  generalize (ext.piece * 16384).toInt = lo at hlo ⊢
  simp only [Int.bmod]
  split <;> omega

/-- A piece in range is copied; then the loop goes on, is done or has an error. -/
theorem receivePiece_inRange {size n : Nat} {c : Client} (h : Downloading size n c)
    (hopen : 16384 * n < size) {ext : ExtDict} {piece : Bytes} (hlen : piece.length ≤ 16384)
    (hin : InRange size ext piece) :
    ∃ c', ∃ lo : Nat, (lo : Int) = (ext.piece * 16384).toInt ∧ lo + piece.length ≤ size ∧
      c'.metadata = c.metadata.take lo ++ piece ++ c.metadata.drop (lo + piece.length) ∧
      c'.metadata.length = size ∧ c'.metadataSize.toNat = size ∧
      c'.metadataReceived.toNat = 16384 * n + piece.length ∧
      c.receivePiece ext piece =
        if piece.length < 16384 ∧ 16384 * n + piece.length ≠ size then
          .onError c' "metadataPiece < 16 kiB but incomplete"
        else if size < 16384 * n + piece.length then
          .onError c' "metadataReceived > metadataSize"
        else .ok c' := by
  have hslice := (slice_iff_inRange h.size_lt ext hlen).2 hin
  have hmax : maxMetadataSize = 10485760 := rfl
  have hsize := h.size_lt
  obtain ⟨hlo0, hhi⟩ := hin
  obtain ⟨lo, hlo⟩ := Int.eq_ofNat_of_zero_le hlo0
  have hhi_eq : (ext.piece * 16384 + .ofNat piece.length).toInt = (lo + piece.length : Nat) := by
    rw [Int64.toInt_add, Int64.toInt_ofNat_of_lt (by omega), hlo]
    simp only [Int.bmod]
    split <;> omega
  have hfits : lo + piece.length ≤ size := by omega
  have hreceived : (c.metadataReceived + .ofNat piece.length).toNat = 16384 * n + piece.length := by
    rw [UInt64.toNat_add, h.received_eq, UInt64.toNat_ofNat']
    omega
  have hne : c.metadataReceived + .ofNat piece.length ≠ c.metadataSize ↔
      16384 * n + piece.length ≠ size := by
    rw [Ne, ← UInt64.toNat_inj, hreceived, h.size_eq]
  have hgt : c.metadataReceived + .ofNat piece.length > c.metadataSize ↔
      size < 16384 * n + piece.length := by
    rw [gt_iff_lt, UInt64.lt_iff_toNat_lt, hreceived, h.size_eq]
  rw [← h.length_eq] at hslice
  refine ⟨{ c with
      metadata := c.metadata.take lo ++ piece ++ c.metadata.drop (lo + piece.length)
      metadataReceived := c.metadataReceived + .ofNat piece.length },
    lo, hlo.symm, hfits, rfl, ?_, h.size_eq, hreceived, ?_⟩
  · simp only [List.length_append, List.length_take, List.length_drop, h.length_eq]
    omega
  · have hcopy : copySlice c.metadata (ext.piece * 16384).toInt.toNat
        (ext.piece * 16384 + .ofNat piece.length).toInt.toNat piece =
        c.metadata.take lo ++ piece ++ c.metadata.drop (lo + piece.length) := by
      rw [hhi_eq, hlo, Int.toNat_natCast, Int.toNat_natCast, copySlice, Nat.add_sub_cancel_left,
        List.take_length, Nat.min_self]
    unfold receivePiece
    rw [if_neg (by omega)]
    simp only [hslice, and_self, if_true, hcopy, hne, hgt]

theorem receivePiece_outOfRange {size n : Nat} {c : Client} (h : Downloading size n c)
    {ext : ExtDict} {piece : Bytes} (hlen : piece.length ≤ 16384)
    (hout : ¬ InRange size ext piece) : c.receivePiece ext piece = .panic c := by
  have hslice := mt (slice_iff_inRange h.size_lt ext hlen).1 hout
  rw [← h.length_eq] at hslice
  unfold receivePiece
  rw [if_neg (by omega)]
  simp only [hslice, if_false]

theorem receive_data {p : Packages} {m : ExMessage} {ext : ExtDict} {piece : Bytes}
    (h : dataPiece p m = some (ext, piece)) (c : Client) :
    c.receive p m = c.receivePiece ext piece ∧ (Continues p m ↔ piece.length = 16384) := by
  unfold dataPiece at h
  split at h
  · next hid =>
    split at h
    · cases h
    · next ext' piece' hdec =>
      split at h
      · next htype =>
        cases h
        constructor
        · simp [receive, hid, hdec, htype]
        · simp [Continues, hid, hdec, htype]
      · cases h
  · cases h

/-- A message that is no piece leaves the download as it is, or ends it. -/
theorem receive_other {p : Packages} {m : ExMessage} (h : dataPiece p m = none) (c : Client) :
    (Continues p m ∧ ∃ peers, c.receive p m = .ok { c with peers := peers }) ∨
    (¬ Continues p m ∧ ∃ err, c.receive p m = .onError c err) := by
  unfold dataPiece at h
  split at h
  · next hid =>
    split at h
    · next err hdec =>
      refine .inr ⟨?_, _, by simp only [receive, hid, hdec, if_true]; rfl⟩
      simp [Continues, hid, hdec]
    · next ext piece hdec =>
      split at h
      · cases h
      · next htype =>
        by_cases hreject : ext.msgType = 2
        · refine .inr ⟨?_, _, by simp only [receive, hid, hdec, hreject, if_true]; rfl⟩
          simp [Continues, hid, hdec, hreject]
        · refine .inl ⟨?_, c.peers, by simp [receive, hid, hdec, hreject, htype]⟩
          simp [Continues, hid, hdec, hreject, htype]
  · next hid =>
    refine .inl ⟨fun h1 => (hid h1).elim, ?_⟩
    by_cases hpex : m.id = 2
    · have hrec : c.receive p m = .ok (c.handlePex p m.payload) := by simp [receive, hpex]
      rw [hrec]
      unfold handlePex
      split
      · exact ⟨c.peers, rfl⟩
      · dsimp only
        split
        · exact ⟨_, rfl⟩
        · exact ⟨c.peers, rfl⟩
    · exact ⟨c.peers, by simp [receive, hid, hpex]⟩

/-! ## All rounds -/

/-- In every round the loop does not panic, and a piece is copied wholly inside the
    buffer or ends the download through `OnError`. -/
def RoundsSafe (p : Packages) (size : Nat) (c : Client) (ms : List ExMessage) : Prop :=
  ∀ pre m post, ms = pre ++ m :: post → ∀ c₁, afterMessages p c pre = some c₁ →
    (∀ c', c₁.receive p m ≠ .panic c') ∧
    ∀ ext piece, dataPiece p m = some (ext, piece) →
      (∃ c' err, c₁.receive p m = .onError c' err) ∨
      ∃ c', ∃ lo : Nat, c₁.receive p m = .ok c' ∧ (lo : Int) = (ext.piece * 16384).toInt ∧
        lo + piece.length ≤ size ∧
        c'.metadata = c₁.metadata.take lo ++ piece ++ c₁.metadata.drop (lo + piece.length)

theorem afterMessages_cons {p : Packages} {c c' : Client} {m : ExMessage}
    (hrun : c.metadataReceived < c.metadataSize) (hm : c.receive p m = .ok c')
    (ms : List ExMessage) : afterMessages p c (m :: ms) = afterMessages p c' ms := by
  rw [afterMessages, if_pos hrun, hm]

/-- A round that goes on has read a message that lets it. -/
theorem Downloading.next {p : Packages} {size n : Nat} {c c' : Client} {m : ExMessage}
    (h : Downloading size n c) (hopen : 16384 * n < size) (hm : c.receive p m = .ok c')
    (hrun : c'.metadataReceived < c'.metadataSize) :
    Continues p m ∧ Downloading size (n + pieces p [m]) c' := by
  cases hd : dataPiece p m with
  | none =>
    have hcount : pieces p [m] = 0 := by simp [pieces, hd]
    rw [hcount, Nat.add_zero]
    rcases receive_other hd c with ⟨hcont, peers, hok⟩ | ⟨-, err, herr⟩
    · cases hok.symm.trans hm
      exact ⟨hcont, h.size_eq, h.received_eq, h.length_eq, h.size_lt⟩
    · cases herr.symm.trans hm
  | some d =>
    obtain ⟨ext, piece⟩ := d
    have hcount : pieces p [m] = 1 := by simp [pieces, hd]
    obtain ⟨hrec, hcont⟩ := receive_data hd c
    rw [hrec] at hm
    rw [hcount, hcont]
    by_cases hlen : piece.length ≤ 16384
    · by_cases hin : InRange size ext piece
      · obtain ⟨c₁, lo, -, -, -, hlength, hsize, hreceived, hres⟩ :=
          receivePiece_inRange h hopen hlen hin
        rw [hres] at hm
        split at hm
        · cases hm
        · next hshort =>
          split at hm
          · cases hm
          · cases hm
            -- the loop goes on, so the download is not complete and the piece not short
            rw [UInt64.lt_iff_toNat_lt, hreceived, hsize] at hrun
            have hfull : piece.length = 16384 := by omega
            exact ⟨hfull, hsize, by omega, hlength, h.size_lt⟩
      · rw [receivePiece_outOfRange h hlen hin] at hm
        cases hm
    · unfold receivePiece at hm
      rw [if_pos (by omega)] at hm
      cases hm

theorem pieces_cons (p : Packages) (m : ExMessage) (ms : List ExMessage) :
    pieces p (m :: ms) = pieces p [m] + pieces p ms := by
  rw [pieces, pieces, pieces, ← List.countP_append]
  rfl

/-- The messages before a round that is reached leave the download open. -/
theorem Downloading.afterMessages {p : Packages} {size n : Nat} {c c₁ : Client}
    {ms : List ExMessage} (h : Downloading size n c)
    (hafter : Client.afterMessages p c ms = some c₁) :
    (∀ m ∈ ms, Continues p m) ∧ Downloading size (n + pieces p ms) c₁ ∧
      16384 * (n + pieces p ms) < size := by
  induction ms generalizing c n with
  | nil =>
    rw [Client.afterMessages] at hafter
    split at hafter
    · next hrun =>
      cases hafter
      exact ⟨by simp, h, h.running_iff.1 hrun⟩
    · cases hafter
  | cons m ms ih =>
    rw [Client.afterMessages] at hafter
    split at hafter
    · next hrun =>
      split at hafter
      · next c' hm =>
        have hrun' : c'.metadataReceived < c'.metadataSize := by
          cases ms <;> rw [Client.afterMessages] at hafter <;> split at hafter <;>
            first | assumption | cases hafter
        obtain ⟨hcont, hnext⟩ := h.next (h.running_iff.1 hrun) hm hrun'
        have hrest := ih hnext hafter
        rw [Nat.add_assoc, ← pieces_cons] at hrest
        exact ⟨List.forall_mem_cons.2 ⟨hcont, hrest.1⟩, hrest.2⟩
      · cases hafter
    · cases hafter

/-- Conversely, messages that leave the download open are all read, if every round is safe. -/
theorem Downloading.reaches {p : Packages} {size n : Nat} {c : Client} {ms rest : List ExMessage}
    (h : Downloading size n c) (hsafe : RoundsSafe p size c (ms ++ rest))
    (hcont : ∀ m ∈ ms, Continues p m) (hopen : 16384 * (n + pieces p ms) < size) :
    ∃ c₁, Client.afterMessages p c ms = some c₁ ∧ Downloading size (n + pieces p ms) c₁ := by
  induction ms generalizing c n with
  | nil => exact ⟨c, by rw [Client.afterMessages, if_pos (h.running_iff.2 hopen)], h⟩
  | cons m ms ih =>
    rw [pieces_cons, ← Nat.add_assoc] at hopen
    have hopen' : 16384 * n < size := by omega
    have hrun := h.running_iff.2 hopen'
    obtain ⟨hpanic, hcopied⟩ :=
      hsafe [] m (ms ++ rest) rfl c (by rw [Client.afterMessages, if_pos hrun])
    obtain ⟨c', hm, hrun'⟩ : ∃ c', c.receive p m = .ok c' ∧
        c'.metadataReceived < c'.metadataSize := by
      have hm_cont := hcont m List.mem_cons_self
      cases hd : dataPiece p m with
      | none =>
        rcases receive_other hd c with ⟨-, peers, hok⟩ | ⟨hnot, -⟩
        · exact ⟨_, hok, hrun⟩
        · exact (hnot hm_cont).elim
      | some d =>
        obtain ⟨ext, piece⟩ := d
        obtain ⟨hrec, hfull⟩ := receive_data hd c
        have hlen : piece.length = 16384 := hfull.1 hm_cont
        have hone : pieces p [m] = 1 := by simp [pieces, hd]
        by_cases hin : InRange size ext piece
        · obtain ⟨c₁, -, -, -, -, -, hsize, hreceived, hres⟩ :=
            receivePiece_inRange h hopen' hlen.le hin
          rw [hone] at hopen
          refine ⟨c₁, ?_, ?_⟩
          · rw [hrec, hres, if_neg (by omega), if_neg (by omega)]
          · rw [UInt64.lt_iff_toNat_lt, hsize, hreceived]
            omega
        · exact (hpanic c (by rw [hrec, receivePiece_outOfRange h hlen.le hin])).elim
    obtain ⟨-, hnext⟩ := h.next hopen' hm hrun'
    have hsafe' : RoundsSafe p size c' (ms ++ rest) := by
      intro pre m' post hsplit c₁ hafter
      exact hsafe (m :: pre) m' post (by simp [hsplit]) c₁
        (by rw [afterMessages_cons hrun hm]; exact hafter)
    obtain ⟨c₁, hafter, hdown⟩ :=
      ih hnext hsafe' (fun m' hm' => hcont m' (List.mem_cons_of_mem _ hm')) hopen
    rw [Nat.add_assoc, ← pieces_cons] at hdown
    exact ⟨c₁, by rw [afterMessages_cons hrun hm]; exact hafter, hdown⟩

/-- The rounds are safe exactly when the pieces that arrive are in range. -/
theorem Downloading.roundsSafe_iff {p : Packages} {size : Nat} {c : Client} {ms : List ExMessage}
    (h : Downloading size 0 c) : RoundsSafe p size c ms ↔ PiecesInRange p size ms := by
  constructor
  · rintro hsafe pre m post rfl ⟨hcont, hopen⟩ ext piece hd hlen
    rw [← Nat.zero_add (pieces p pre)] at hopen
    obtain ⟨c₁, hafter, hdown⟩ := h.reaches hsafe hcont hopen
    by_contra hout
    have hpanic := receivePiece_outOfRange hdown hlen hout
    rw [← (receive_data hd c₁).1] at hpanic
    exact (hsafe pre m post rfl c₁ hafter).1 c₁ hpanic
  · rintro hrange pre m post rfl c₁ hafter
    obtain ⟨hcont, hdown, hopen⟩ := h.afterMessages hafter
    cases hd : dataPiece p m with
    | none =>
      refine ⟨fun c' hpanic => ?_, fun ext piece heq => by cases heq⟩
      rcases receive_other hd c₁ with ⟨-, peers, hok⟩ | ⟨-, err, herr⟩
      · cases hok.symm.trans hpanic
      · cases herr.symm.trans hpanic
    | some d =>
      obtain ⟨ext, piece⟩ := d
      rw [(receive_data hd c₁).1]
      by_cases hlen : piece.length ≤ 16384
      · have hin := hrange pre m post rfl ⟨hcont, by simpa using hopen⟩ ext piece hd hlen
        obtain ⟨c', lo, hlo, hfits, hcopy, -, -, -, hres⟩ :=
          receivePiece_inRange hdown hopen hlen hin
        rw [hres]
        refine ⟨fun c'' hpanic => ?_, fun ext' piece' heq => ?_⟩
        · split at hpanic
          · cases hpanic
          · split at hpanic <;> cases hpanic
        · cases heq
          split
          · exact .inl ⟨_, _, rfl⟩
          · split
            · exact .inl ⟨_, _, rfl⟩
            · exact .inr ⟨c', lo, rfl, hlo, hfits, hcopy⟩
      · have herr : c₁.receivePiece ext piece = .onError c₁ "metadataPiece > 16kiB" := by
          unfold receivePiece
          rw [if_pos (by omega)]
        rw [herr]
        refine ⟨fun c' hpanic => ?_, fun ext' piece' _ => .inl ⟨_, _, rfl⟩⟩
        cases hpanic

/-- The client after `doExHandshake`, also when the first extension message is no
    handshake and nothing is set. -/
theorem doExHandshake_downloading {p : Packages} {infoHash clientID : Bytes} {conn conn' : Conn}
    {c : Client} (h : (newClient infoHash clientID).doExHandshake p conn = .ok (c, conn')) :
    Downloading c.metadataSize.toNat 0 c := by
  unfold doExHandshake at h
  split at h
  · cases h
  · split at h
    · cases h
    · split at h
      · cases h
        exact ⟨rfl, rfl, rfl, (by decide : 0 < maxMetadataSize)⟩
      · split at h
        · cases h
        · next rRootDict _ =>
          split at h
          · cases h
          · next hsize =>
            split at h
            · cases h
            · cases h
              obtain ⟨hpos, hlt⟩ := not_not.1 hsize
              have hmax : maxMetadataSize = 10485760 := rfl
              have heq : (UInt64.ofInt rRootDict.metadataSize.toInt).toNat =
                  rRootDict.metadataSize.toInt.toNat := by
                rw [UInt64.ofInt, UInt64.toNat_ofNat']
                omega
              refine ⟨rfl, rfl, ?_, ?_⟩
              · rw [List.length_replicate, heq]
              · rw [heq]
                omega

/-- For every size that `doExHandshake` accepts and all messages of the peer, the loop
    stays inside its buffer if and only if every piece that arrives is in range. -/
theorem receiveLoop_safe_iff (p : Packages) (infoHash clientID : Bytes) {conn conn' : Conn}
    {c : Client} (h : (newClient infoHash clientID).doExHandshake p conn = .ok (c, conn'))
    (peer : Conn) :
    ((∀ c', c.receiveLoop p peer ≠ .panic c') ∧
      RoundsSafe p c.metadataSize.toNat c peer.exMessages) ↔
    PiecesInRange p c.metadataSize.toNat peer.exMessages := by
  have hdown := doExHandshake_downloading h
  rw [← hdown.roundsSafe_iff]
  refine ⟨fun hsafe => hsafe.2, fun hsafe => ⟨fun c' hpanic => ?_, hsafe⟩⟩
  obtain ⟨err, hloop⟩ := receiveLoop_eq p c peer
  rw [hloop] at hpanic
  obtain ⟨pre, m, post, c₁, hsplit, hafter, hround⟩ := receiveMessages_panic hpanic
  exact (hsafe pre m post hsplit c₁ hafter).1 c' hround

/-! ## A piece out of range -/

/-- The handshake `d1:md11:ut_metadatai1ee13:metadata_sizei100ee` of a peer. -/
def sampleHandshake : ExMessage where
  id := 0
  payload := [100, 49, 58, 109, 100, 49, 49, 58, 117, 116, 95, 109, 101, 116, 97, 100, 97, 116, 97,
    105, 49, 101, 101, 49, 51, 58, 109, 101, 116, 97, 100, 97, 116, 97, 95, 115, 105, 122, 101,
    105, 49, 48, 48, 101, 101]

/-- The dictionary `d8:msg_typei1e5:piecei1ee`. -/
def sampleExtDict : Bytes :=
  [100, 56, 58, 109, 115, 103, 95, 116, 121, 112, 101, 105, 49, 101, 53, 58, 112, 105, 101, 99, 101,
    105, 49, 101, 101]

/-- The piece with index 1 of a metadata of 100 bytes, which has only the piece 0. -/
def samplePiece : ExMessage := ⟨1, sampleExtDict ++ [0]⟩

/-- Packages that decode the two messages of the sample. -/
def samplePackages : Packages where
  unmarshalRootDict b :=
    if b = sampleHandshake.payload then .ok ⟨⟨1, 0⟩, 100⟩ else .error "syntax error"
  unmarshalPexMsg _ := .error "syntax error"
  decodeExtDict b :=
    if b.take 25 = sampleExtDict then .ok (⟨1, 1⟩, b.drop 25) else .error "syntax error"
  marshalExtDict _ := []
  unmarshalInfo _ := .error "syntax error"
  displayPath _ _ := []
  totalLength _ := 0
  numPieces _ := 0
  sha1 _ := []
  sha256 _ := []
  unixNow := 0

def sampleConn : Conn where
  incoming := sampleHandshake.frame ++ samplePiece.frame
  readErr := "EOF"
  written := []
  writesLeft := 2
  writeErr := "broken pipe"

def sampleClient : Client :=
  { newClient (List.replicate 20 7) [] with
    utMetadata := 1, metadataSize := 100, metadata := List.replicate 100 0 }

/-- The connection after the handshake. -/
def sampleConnRest : Conn :=
  { sampleConn with
    incoming := samplePiece.frame
    written := [[0, 0, 0, 0x25, 0x14, 0] ++ "d1:md11:ut_metadatai1e6:ut_pexi2eee".toUTF8.toList]
    writesLeft := 1 }

theorem doExHandshake_sample :
    (newClient (List.replicate 20 7) []).doExHandshake samplePackages sampleConn =
      .ok (sampleClient, sampleConnRest) := by
  have hwrite : sampleConn.writeAll ([0, 0, 0, 0x25, 0x14, 0] ++
      "d1:md11:ut_metadatai1e6:ut_pexi2eee".toUTF8.toList) =
      .ok { sampleConnRest with incoming := sampleConn.incoming } := rfl
  have hread : Conn.readExMessage { sampleConnRest with incoming := sampleConn.incoming } =
      .ok (sampleHandshake, sampleConnRest) :=
    Conn.readExMessage_frame (by decide) rfl
  unfold doExHandshake
  rw [hwrite]
  dsimp only
  rw [hread]
  rfl

/-- The peer makes the loop slice outside the buffer, and `Do` panics. -/
theorem receiveLoop_panics : ¬ ∀ (p : Packages) (infoHash clientID : Bytes) (conn conn' : Conn)
    (c : Client), (newClient infoHash clientID).doExHandshake p conn = .ok (c, conn') →
    ∀ peer : Conn, (∀ c', c.receiveLoop p peer ≠ .panic c') ∧
      RoundsSafe p c.metadataSize.toNat c peer.exMessages := by
  intro hall
  have hsafe := hall _ _ _ _ _ _ doExHandshake_sample sampleConnRest
  have hread : sampleConnRest.exMessages = [samplePiece] :=
    Conn.exMessages_frames (by decide) (by decide)
  rw [hread] at hsafe
  have hround := hsafe.2 [] samplePiece [] rfl sampleClient rfl
  exact hround.1 sampleClient (by rfl)

theorem receiveLoop_safe_iff_sample :
    ¬ PiecesInRange samplePackages 100 [samplePiece] := by
  have hread : sampleConnRest.exMessages = [samplePiece] :=
    Conn.exMessages_frames (by decide) (by decide)
  have h := receiveLoop_safe_iff samplePackages _ _ doExHandshake_sample sampleConnRest
  rw [hread] at h
  intro hrange
  have hround := (h.2 hrange).2 [] samplePiece [] rfl sampleClient rfl
  exact hround.1 sampleClient (by rfl)

end Client

end DhtClient
