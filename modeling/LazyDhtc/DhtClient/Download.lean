-- SUMMARY: What a download reports: the checks behind every success, and what it reports to a client of an honest peer.
import LazyDhtc.DhtClient.Assembly
import LazyDhtc.DhtClient.Handshake

/-!
# A whole download

`Do` succeeds only through `verify`, which runs on the buffer that the loop has filled.
Against an honest peer that delivers its pieces in time and a short one last, it reports
what `verify` says of the peer's own metadata.
-/

namespace DhtClient

open Blocks

namespace Client

/-! ## The info hash stays -/

/-- The client that a part of `Do` leaves. -/
def Outcome.client : Outcome → Client
  | .ok c => c
  | .onError c _ => c
  | .panic c => c

section

variable {p : Packages} {c c' : Client} {conn conn' : Conn}

theorem shakeHands_infoHash {m : ExMessage} (h : c.shakeHands p m = .ok c') :
    c'.infoHash = c.infoHash := by
  unfold shakeHands at h
  split at h
  · cases h
    rfl
  · split at h
    · cases h
    · split at h
      · cases h
      · split at h
        · cases h
        · cases h
          rfl

theorem receivePiece_infoHash (ext : ExtDict) (piece : Bytes) :
    (c.receivePiece ext piece).client.infoHash = c.infoHash := by
  unfold receivePiece
  split
  · rfl
  · dsimp only
    split
    · split
      · rfl
      · split <;> rfl
    · rfl

theorem receive_infoHash (m : ExMessage) : (c.receive p m).client.infoHash = c.infoHash := by
  cases hd : dataPiece p m with
  | none =>
    rcases receive_other hd c with ⟨-, peers, hok⟩ | ⟨-, err, herr⟩
    · rw [hok]
      rfl
    · rw [herr]
      rfl
  | some d =>
    rw [(receive_data hd c).1]
    exact receivePiece_infoHash d.1 d.2

theorem receiveMessages_infoHash (err : String) (ms : List ExMessage) :
    (receiveMessages p err c ms).client.infoHash = c.infoHash := by
  induction ms generalizing c with
  | nil =>
    rw [receiveMessages]
    split <;> rfl
  | cons m ms ih =>
    by_cases hc : c.metadataReceived < c.metadataSize
    · have hm := receive_infoHash (p := p) (c := c) m
      rw [receiveMessages_cons _ _ hc]
      split
      · next hok =>
        rw [hok] at hm
        exact ih.trans hm
      · exact hm
    · rw [receiveMessages_done _ hc]
      rfl

theorem receiveLoop_infoHash : (c.receiveLoop p conn).client.infoHash = c.infoHash := by
  obtain ⟨err, heq⟩ := receiveLoop_eq p c conn
  rw [heq]
  exact receiveMessages_infoHash err conn.exMessages

theorem doExHandshake_infoHash (h : c.doExHandshake p conn = .ok (c', conn')) :
    c'.infoHash = c.infoHash := by
  obtain ⟨-, m, -, hshake⟩ := doExHandshake_ok h
  exact shakeHands_infoHash hshake

/-! ## Success -/

/-- What `Do` reports at the end of its loop. -/
def conclude (p : Packages) (c : Client) : Report :=
  match c.verify p with
  | .error err => .onError c.infoHash err
  | .ok metadata => .onSuccess metadata

/-- What `Do` reports after its handshakes and requests. -/
theorem do_eq {conn₁ conn₂ conn₃ : Conn} (hbt : c.doBtHandshake conn = .ok conn₁)
    (hex : c.doExHandshake p conn₁ = .ok (c', conn₂))
    (hrequest : c'.requestAllPieces p conn₂ = .ok conn₃) :
    (c.do p conn).2 =
      match c'.receiveLoop p conn₃ with
      | .panic _ => .panic
      | .onError c err => .onError c.infoHash err
      | .ok c => c.conclude p := by
  unfold «do»
  rw [hbt]
  dsimp only
  rw [hex]
  dsimp only
  rw [hrequest]
  dsimp only
  cases c'.receiveLoop p conn₃ with
  | panic c => rfl
  | onError c err => rfl
  | ok c =>
    unfold conclude
    dsimp only
    cases c.verify p <;> rfl

/-- Where `Do` succeeds, `verify` accepts the client that the loop leaves. -/
theorem do_onSuccess {metadata : Metadata} (h : (c.do p conn).2 = .onSuccess metadata) :
    ∃ c' : Client, c'.infoHash = c.infoHash ∧ c'.verify p = .ok metadata := by
  unfold «do» at h
  split at h
  · cases h
  · split at h
    · cases h
    · next c₁ conn₁ hex =>
      split at h
      · cases h
      · split at h
        · cases h
        · cases h
        · next conn₂ _ _ c₂ hloop =>
          have hinfoHash : (c₁.receiveLoop p conn₂).client.infoHash = c₁.infoHash :=
            receiveLoop_infoHash
          rw [hloop] at hinfoHash
          split at h
          · cases h
          · next hverify =>
            cases h
            exact ⟨c₂, hinfoHash.trans (doExHandshake_infoHash hex), hverify⟩

/-- The sum of the metadata that `verify` compares with the info hash. -/
def metadataSum (p : Packages) (infoHash metadata : Bytes) : Bytes :=
  if infoHash.length = 32 then p.sha256 metadata else p.sha1 metadata

/-- What `verify` has checked when it accepts. -/
theorem verify_ok {metadata : Metadata} (h : c.verify p = .ok metadata) :
    metadataSum p c.infoHash c.metadata = c.infoHash ∧
    ∃ info, p.unmarshalInfo c.metadata = .ok info ∧ validateInfo p info = .ok () ∧
      sumSizes (filesOf p info) 0 = .ok metadata.totalSize ∧
      metadata.files = filesOf p info := by
  unfold verify at h
  change (if metadataSum p c.infoHash c.metadata ≠ c.infoHash then _ else _) = _ at h
  split at h
  · cases h
  · next hsum =>
    refine ⟨not_not.1 hsum, ?_⟩
    split at h
    · cases h
    · next info hinfo =>
      split at h
      · cases h
      · next hvalid =>
        dsimp only at h
        split at h
        · cases h
        · next totalSize hsizes =>
          cases h
          exact ⟨info, hinfo, hvalid, hsizes, rfl⟩

/-- `verify` accepts when all its checks pass. -/
theorem verify_eq {info : Info} {totalSize : UInt64}
    (hsum : metadataSum p c.infoHash c.metadata = c.infoHash)
    (hinfo : p.unmarshalInfo c.metadata = .ok info) (hvalid : validateInfo p info = .ok ())
    (hsizes : sumSizes (filesOf p info) 0 = .ok totalSize) :
    c.verify p =
      .ok ⟨c.infoHash, 0, info.name, totalSize, p.unixNow, filesOf p info⟩ := by
  unfold verify
  change (if metadataSum p c.infoHash c.metadata ≠ c.infoHash then _ else _) = _
  rw [if_neg (not_not.2 hsum), hinfo]
  dsimp only
  rw [hvalid]
  dsimp only
  rw [hsizes]

end

/-! ## Handshakes and requests -/

/-- The 68 bytes of a peer's BitTorrent handshake. -/
def btHandshake (infoHash peerID : Bytes) : Bytes :=
  protocolName ++ [0, 0, 0, 0, 0, 0x10, 0, 0x01] ++ infoHash ++ peerID

theorem doBtHandshake_ok {c : Client} {conn : Conn} {peerID rest : Bytes}
    (hwrites : conn.writesLeft ≠ 0) (hhash : c.handshakeHash.length = 20)
    (hpeer : peerID.length = 20)
    (hconn : conn.incoming = btHandshake c.handshakeHash peerID ++ rest) :
    ∃ conn', c.doBtHandshake conn = .ok conn' ∧ conn'.incoming = rest ∧
      conn'.writesLeft + 1 = conn.writesLeft := by
  have hname : protocolName.length = 20 := by decide +kernel
  have hlen : (btHandshake c.handshakeHash peerID).length = 68 := by
    simp only [btHandshake, List.length_append, hname, hhash, hpeer]
    rfl
  obtain ⟨conn₁, hwrite, hincoming, hleft⟩ := Conn.writeAll_ok hwrites
    (protocolName ++ [0, 0, 0, 0, 0, 0x10, 0, 0x01] ++ padTo 20 c.handshakeHash ++ c.clientID)
  have hread := Conn.readExactly_append hlen (hincoming.trans hconn)
  have hprotocol : (btHandshake c.handshakeHash peerID).take 20 = protocolName := by
    simp only [btHandshake, List.append_assoc]
    exact List.take_left' hname
  have hinfoHash : ((btHandshake c.handshakeHash peerID).drop 28).take 20 = c.handshakeHash := by
    have hfront : (protocolName ++ [0, 0, 0, 0, 0, 0x10, 0, 0x01]).length = 28 := by
      rw [List.length_append, hname]
      rfl
    rw [btHandshake, List.append_assoc _ c.handshakeHash, List.drop_left' hfront]
    exact List.take_left' hhash
  have hext : (btHandshake c.handshakeHash peerID).getD 25 0 = 0x10 := by
    simp only [btHandshake, List.append_assoc]
    rw [List.getD_append_right _ _ _ _ (by omega), hname]
    rfl
  refine ⟨{ conn₁ with incoming := rest }, ?_, rfl, hleft⟩
  unfold doBtHandshake
  dsimp only
  rw [hwrite]
  dsimp only
  rw [hread]
  dsimp only
  rw [if_neg (not_not.2 hprotocol), if_neg (not_not.2 hinfoHash), hext, if_neg (by decide)]

theorem requestAllPieces_ok {p : Packages} {c : Client} {conn : Conn}
    (hwrites : c.nPieces ≤ conn.writesLeft) :
    ∃ conn', c.requestAllPieces p conn = .ok conn' ∧ conn'.incoming = conn.incoming := by
  unfold requestAllPieces
  rw [← List.length_range (n := c.nPieces)] at hwrites
  generalize List.range c.nPieces = indices at hwrites
  induction indices generalizing conn with
  | nil => exact ⟨conn, rfl, rfl⟩
  | cons i indices ih =>
    rw [List.length_cons] at hwrites
    obtain ⟨conn₁, hwrite, hincoming, hleft⟩ :=
      Conn.writeAll_ok (show conn.writesLeft ≠ 0 by omega) (c.pieceRequest p i)
    obtain ⟨conn₂, hrest, hincoming₂⟩ := ih (by omega : indices.length ≤ conn₁.writesLeft)
    refine ⟨conn₂, ?_, hincoming₂.trans hincoming⟩
    rw [List.foldlM_cons, hwrite]
    exact hrest

/-! ## An honest peer -/

/-- The extension handshake of a peer that announces `size` bytes of metadata. -/
structure Announces (p : Packages) (size : Nat) (m : ExMessage) (root : RootDict) : Prop where
  handshake : m.id = 0
  length_le : 2 + m.payload.length ≤ maxMetadataSize
  decoded : p.unmarshalRootDict m.payload = .ok root
  size_eq : root.metadataSize.toInt = size
  size_pos : 0 < size
  size_lt : size < maxMetadataSize
  code_pos : 0 < root.m.utMetadata.toInt
  code_lt : root.m.utMetadata.toInt < 255

section

variable {p : Packages} {infoHash clientID peerID M rest : Bytes} {conn : Conn} {m : ExMessage}
  {root : RootDict} {msgs : Deliveries}

/-- What a client reports that downloads the metadata `M` from an honest peer. -/
theorem do_honest (hwrites : 2 + count 16384 M.length ≤ conn.writesLeft)
    (hhash : (newClient infoHash clientID).handshakeHash.length = 20) (hid : peerID.length = 20)
    (hand : Announces p M.length m root) (hpeer : HonestPeer p M msgs)
    (hconn : conn.incoming = btHandshake (newClient infoHash clientID).handshakeHash peerID ++
      (m.frame ++ (msgs.stream ++ rest))) :
    ((msgs.InTime ∧ ShortLast M.length msgs.indices) ∧
      ∃ c' : Client, c'.infoHash = infoHash ∧ c'.metadata = M ∧
        ((newClient infoHash clientID).do p conn).2 = c'.conclude p) ∨
    (¬ (msgs.InTime ∧ ShortLast M.length msgs.indices) ∧
      ∃ err, ((newClient infoHash clientID).do p conn).2 = .onError infoHash err) := by
  obtain ⟨conn₁, hbt, hincoming₁, hleft₁⟩ := doBtHandshake_ok (by omega) hhash hid hconn
  obtain ⟨c, conn₂, hex, hsize, hincoming₂, hleft₂⟩ :=
    @doExHandshake_announced p infoHash clientID conn₁ m root _ (by omega) hand.handshake
      hand.length_le hincoming₁ hand.decoded
      (by rw [hand.size_eq]; exact ⟨by exact_mod_cast hand.size_pos, by exact_mod_cast hand.size_lt⟩)
      ⟨hand.code_pos, hand.code_lt⟩
  rw [hand.size_eq, Int.toNat_natCast] at hsize
  have hpieces : c.nPieces = count 16384 M.length := by
    rw [nPieces, hsize]
    rfl
  obtain ⟨conn₃, hrequest, hincoming₃⟩ := @requestAllPieces_ok p c conn₂ (by omega)
  have hinfoHash : (c.receiveLoop p conn₃).client.infoHash = infoHash :=
    receiveLoop_infoHash.trans (doExHandshake_infoHash hex)
  rw [do_eq hbt hex hrequest]
  rcases receiveLoop_honest hex hsize hpeer (hincoming₃.trans hincoming₂) with
    ⟨hok, c', hloop, hM⟩ | ⟨hnot, c', err, hloop⟩
  · rw [hloop] at hinfoHash
    refine .inl ⟨hok, c', hinfoHash, hM, ?_⟩
    rw [hloop]
  · rw [hloop] at hinfoHash
    refine .inr ⟨hnot, err, ?_⟩
    rw [hloop, ← hinfoHash]
    rfl

theorem ExMessage.frame_eq (m : ExMessage) : m.frame = frame (20 :: m.id :: m.payload) := by
  rw [ExMessage.frame, frame, List.length_cons, List.length_cons, Nat.add_comm 2]

/-- A peer whose metadata is no longer than a piece delivers it in one message. -/
theorem honestPeer_onePiece {payload : Bytes} (hpos : 0 < M.length) (hle : M.length ≤ 16384)
    (hlen : 2 + payload.length ≤ maxMetadataSize)
    (hdec : p.decodeExtDict payload = .ok (⟨1, 0⟩, M)) :
    HonestPeer p M [(20 :: 1 :: payload, some 0)] := by
  have hmax : maxMetadataSize = 10485760 := rfl
  have hcount : count 16384 M.length = 1 := by
    rw [count]
    omega
  have hblock : block 16384 M 0 = M := by
    rw [block, Nat.mul_zero, List.drop_zero, List.take_of_length_le hle]
  refine ⟨?_, ?_, ?_⟩
  · rw [List.forall_mem_singleton]
    refine .data (by rw [hcount]; exact Nat.one_pos) ?_
    rw [hblock]
    exact hdec
  · rw [List.forall_mem_singleton, List.length_cons, List.length_cons]
    omega
  · rw [hcount]
    exact .refl [0]

/-- A client gets the whole metadata in one piece. -/
theorem do_onePiece {payload : Bytes} (hwrites : 3 ≤ conn.writesLeft)
    (hhash : (newClient infoHash clientID).handshakeHash.length = 20) (hid : peerID.length = 20)
    (hand : Announces p M.length m root) (hle : M.length ≤ 16384)
    (hlen : 2 + payload.length ≤ maxMetadataSize)
    (hdec : p.decodeExtDict payload = .ok (⟨1, 0⟩, M))
    (hconn : conn.incoming = btHandshake (newClient infoHash clientID).handshakeHash peerID ++
      (m.frame ++ (ExMessage.mk 1 payload).frame)) :
    ∃ c' : Client, c'.infoHash = infoHash ∧ c'.metadata = M ∧
      ((newClient infoHash clientID).do p conn).2 = c'.conclude p := by
  have hpeer := honestPeer_onePiece hand.size_pos hle hlen hdec
  have hcount : count 16384 M.length ≤ 1 := by
    rw [count]
    omega
  have hstream : Deliveries.stream [(20 :: 1 :: payload, some 0)] ++ [] =
      (ExMessage.mk 1 payload).frame := by
    simp [Deliveries.stream, ExMessage.frame_eq]
  have hfits : fits (20 :: 1 :: payload, some 0) = true := by
    rw [fits, List.length_cons, List.length_cons, decide_eq_true_eq]
    omega
  have hread : Deliveries.InTime [(20 :: 1 :: payload, some 0)] ∧
      ShortLast M.length (Deliveries.indices [(20 :: 1 :: payload, some 0)]) := by
    constructor
    · rw [Deliveries.InTime, Deliveries.unread, List.dropWhile_cons_of_pos hfits]
      rfl
    · intro pre i post heq _
      cases pre with
      | nil =>
        cases heq
        rfl
      | cons j pre => cases pre <;> cases heq
  have hwrites' : 2 + count 16384 M.length ≤ conn.writesLeft := by omega
  rcases do_honest hwrites' hhash hid hand hpeer (by rw [hstream]; exact hconn) with
    ⟨-, hend⟩ | ⟨hnot, -⟩
  · exact hend
  · exact (hnot hread).elim

end

end Client

end DhtClient
