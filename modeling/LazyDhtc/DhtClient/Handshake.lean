-- SUMMARY: What the extension handshake leaves behind when it returns no error, and what the download does when it has set nothing.
import LazyDhtc.DhtClient.Client

/-!
# Extension handshake

`doExHandshake` takes the size of the metadata and the code of its messages from the first
extension message of the peer. Three of its branches wrap an error that a check has just
found; the one for a message that is no handshake wraps an error that is nil, and so
returns none.
-/

namespace DhtClient

/-! ## Reading does not depend on writing -/

/-- A connection on which other writes were made. -/
def Conn.setWrites (conn : Conn) (written : List Bytes) (writesLeft : Nat) : Conn :=
  { conn with written := written, writesLeft := writesLeft }

section

variable (conn : Conn) (written : List Bytes) (writesLeft : Nat)

theorem Conn.readExactly_setWrites (n : Nat) :
    (conn.setWrites written writesLeft).readExactly n =
      (conn.readExactly n).map fun r => (r.1, r.2.setWrites written writesLeft) := by
  unfold readExactly setWrites
  dsimp only
  split <;> rfl

theorem Conn.readMessage_setWrites :
    (conn.setWrites written writesLeft).readMessage =
      conn.readMessage.map fun r => (r.1, r.2.setWrites written writesLeft) := by
  unfold readMessage
  rw [readExactly_setWrites]
  cases conn.readExactly 4 with
  | error err => rfl
  | ok r =>
    obtain ⟨rLengthB, conn⟩ := r
    simp only [Except.map, readExactly_setWrites]
    split
    · rfl
    · cases conn.readExactly (beNat rLengthB) <;> rfl

theorem Conn.readExMessage_setWrites :
    (conn.setWrites written writesLeft).readExMessage =
      conn.readExMessage.map fun r => (r.1, r.2.setWrites written writesLeft) := by
  induction conn using Conn.readExMessage.induct with
  | case1 conn err hread =>
    have hwrites := conn.readMessage_setWrites written writesLeft
    rw [hread] at hwrites
    rw [readExMessage_error hread, readExMessage_error hwrites]
    rfl
  | case2 conn b conn₁ hread m hm =>
    have hwrites := conn.readMessage_setWrites written writesLeft
    rw [hread] at hwrites
    rw [readExMessage_ok hread, readExMessage_ok hwrites, hm]
    rfl
  | case3 conn b conn₁ hread hm hlen ih =>
    have hwrites := conn.readMessage_setWrites written writesLeft
    rw [hread] at hwrites
    rw [readExMessage_ok hread, readExMessage_ok hwrites, hm]
    exact ih

end

namespace Client

/-! ## The handshake -/

/-- The peer's first extension message `m` was a handshake that announced `root`, and the
    client has taken over what it needs. -/
structure ShakenHands (p : Packages) (m : ExMessage) (root : RootDict) (c : Client) : Prop where
  handshake : m.id = 0
  decoded : p.unmarshalRootDict m.payload = .ok root
  size_pos : 0 < c.metadataSize.toNat
  size_lt : c.metadataSize.toNat < maxMetadataSize
  length_eq : c.metadata.length = c.metadataSize.toNat
  utMetadata_pos : 1 ≤ c.utMetadata.toNat
  utMetadata_le : c.utMetadata.toNat ≤ 254
  utMetadata_eq : c.utMetadata.toNat = root.m.utMetadata.toInt

/-- What `doExHandshake` makes of the first extension message. -/
def shakeHands (p : Packages) (c : Client) (m : ExMessage) : Except String Client :=
  if m.id ≠ 0 then .ok c
  else
    match p.unmarshalRootDict m.payload with
    | .error err => .error (wrap err "unmarshal rExMessage")
    | .ok root =>
      if ¬ (0 < root.metadataSize.toInt ∧ root.metadataSize.toInt < maxMetadataSize) then
        .error "metadata too big or its size is less than or equal zero"
      else if ¬ (0 < root.m.utMetadata.toInt ∧ root.m.utMetadata.toInt < 255) then
        .error "ut_metadata is not an uint8"
      else .ok { c with
        utMetadata := .ofInt root.m.utMetadata.toInt
        utPex := .ofInt root.m.utPex.toInt
        metadataSize := .ofInt root.metadataSize.toInt
        metadata := List.replicate root.metadataSize.toInt.toNat 0 }

theorem doExHandshake_eq (p : Packages) (c : Client) {conn : Conn} (hwrites : conn.writesLeft ≠ 0) :
    ∃ written writesLeft, c.doExHandshake p conn =
      match conn.readExMessage with
      | .error err => .error (wrap err "readExMessage")
      | .ok (m, conn') =>
        (c.shakeHands p m).map fun c => (c, conn'.setWrites written writesLeft) := by
  refine ⟨conn.written ++ [[0, 0, 0, 0x25, 0x14, 0] ++
    "d1:md11:ut_metadatai1e6:ut_pexi2eee".toUTF8.toList], conn.writesLeft - 1, ?_⟩
  rw [doExHandshake, Conn.writeAll, if_neg hwrites]
  dsimp only
  have hread := conn.readExMessage_setWrites (conn.written ++ [[0, 0, 0, 0x25, 0x14, 0] ++
    "d1:md11:ut_metadatai1e6:ut_pexi2eee".toUTF8.toList]) (conn.writesLeft - 1)
  rw [Conn.setWrites] at hread
  rw [hread]
  cases conn.readExMessage with
  | error err => rfl
  | ok r =>
    simp only [Except.map, shakeHands]
    split
    · rfl
    · cases p.unmarshalRootDict r.1.payload with
      | error err => rfl
      | ok root =>
        dsimp only
        split
        · rfl
        · split <;> rfl

section

variable {p : Packages} {c c' : Client} {conn conn' : Conn} {m : ExMessage}

theorem shakeHands_sets (hid : m.id = 0) (h : c.shakeHands p m = .ok c') :
    ∃ root, ShakenHands p m root c' := by
  have hmax : maxMetadataSize = 10485760 := rfl
  rw [shakeHands, if_neg (not_not.2 hid)] at h
  cases hroot : p.unmarshalRootDict m.payload with
  | error err =>
    rw [hroot] at h
    cases h
  | ok root =>
    rw [hroot] at h
    dsimp only at h
    split at h
    · cases h
    · next hsize =>
      split at h
      · cases h
      · next hcode =>
        cases h
        obtain ⟨hpos, hlt⟩ := not_not.1 hsize
        obtain ⟨hcodePos, hcodeLt⟩ := not_not.1 hcode
        have hsize : (UInt64.ofInt root.metadataSize.toInt).toNat =
            root.metadataSize.toInt.toNat := by
          rw [UInt64.ofInt, UInt64.toNat_ofNat']
          omega
        have hcode : (UInt8.ofInt root.m.utMetadata.toInt).toNat =
            root.m.utMetadata.toInt.toNat := by
          rw [UInt8.ofInt, UInt8.toNat_ofNat']
          omega
        refine ⟨root, hid, hroot, ?_, ?_, ?_, ?_, ?_, ?_⟩
        · rw [hsize]
          omega
        · rw [hsize]
          omega
        · rw [List.length_replicate, hsize]
        · rw [hcode]
          omega
        · rw [hcode]
          omega
        · rw [hcode]
          omega

theorem head?_exMessages {r : ExMessage × Conn} (h : conn.readExMessage = .ok r) :
    conn.exMessages.head? = some r.1 := by
  rw [Conn.exMessages_ok h, List.head?_cons]

theorem readExMessage_of_head? (h : conn.exMessages.head? = some m) :
    ∃ conn', conn.readExMessage = .ok (m, conn') := by
  cases hread : conn.readExMessage with
  | error err =>
    rw [Conn.exMessages_error hread] at h
    cases h
  | ok r =>
    rw [head?_exMessages hread] at h
    cases h
    exact ⟨r.2, rfl⟩

/-- Without a handshake `doExHandshake` returns nil and leaves the client as it was. -/
theorem doExHandshake_of_other (hwrites : conn.writesLeft ≠ 0)
    (hm : conn.exMessages.head? = some m) (hid : m.id ≠ 0) :
    ∃ conn', c.doExHandshake p conn = .ok (c, conn') := by
  obtain ⟨written, writesLeft, heq⟩ := doExHandshake_eq p c hwrites
  obtain ⟨conn', hread⟩ := readExMessage_of_head? hm
  have hshake : c.shakeHands p m = .ok c := if_pos hid
  refine ⟨conn'.setWrites written writesLeft, ?_⟩
  rw [heq, hread]
  dsimp only
  rw [hshake]
  rfl

theorem doExHandshake_ok (h : c.doExHandshake p conn = .ok (c', conn')) :
    conn.writesLeft ≠ 0 ∧
      ∃ m, conn.exMessages.head? = some m ∧ c.shakeHands p m = .ok c' := by
  by_cases hwrites : conn.writesLeft = 0
  · rw [doExHandshake, Conn.writeAll, if_pos hwrites] at h
    cases h
  · obtain ⟨written, writesLeft, heq⟩ := doExHandshake_eq p c hwrites
    rw [heq] at h
    cases hread : conn.readExMessage with
    | error err =>
      rw [hread] at h
      cases h
    | ok r =>
      obtain ⟨m, conn₁⟩ := r
      rw [hread] at h
      dsimp only at h
      refine ⟨hwrites, m, head?_exMessages hread, ?_⟩
      cases hshake : c.shakeHands p m with
      | error err =>
        rw [hshake] at h
        cases h
      | ok c₁ =>
        rw [hshake] at h
        cases h
        rfl

end

/-- `doExHandshake` returns nil only after a handshake of the peer, and the loop that
    requests the pieces runs only on a client that it has set. -/
structure NilMeansSet (p : Packages) (c : Client) (conn : Conn) : Prop where
  set : ∀ c' conn', c.doExHandshake p conn = .ok (c', conn') →
    ∃ m root, conn.exMessages.head? = some m ∧ ShakenHands p m root c'
  requests : ∀ c' conn', c.doExHandshake p conn = .ok (c', conn') → 0 < c'.nPieces

/-- The handshake keeps its promise when the first extension message that it reads, if it
    reads any, is a handshake. -/
theorem doExHandshake_sets_iff (p : Packages) (c : Client) (conn : Conn) :
    NilMeansSet p c conn ↔
      (conn.writesLeft ≠ 0 → ∀ m, conn.exMessages.head? = some m → m.id = 0) := by
  constructor
  · intro h hwrites m hm
    by_contra hid
    obtain ⟨conn', hok⟩ := doExHandshake_of_other (p := p) (c := c) hwrites hm hid
    obtain ⟨m', root, hm', hset⟩ := h.set c conn' hok
    obtain rfl : m = m' := Option.some.inj (hm.symm.trans hm')
    exact hid hset.handshake
  · intro h
    have hset : ∀ c' conn', c.doExHandshake p conn = .ok (c', conn') →
        ∃ m root, conn.exMessages.head? = some m ∧ ShakenHands p m root c' := by
      intro c' conn' hok
      obtain ⟨hwrites, m, hm, hshake⟩ := doExHandshake_ok hok
      obtain ⟨root, hset⟩ := shakeHands_sets (h hwrites m hm) hshake
      exact ⟨m, root, hm, hset⟩
    refine ⟨hset, fun c' conn' hok => ?_⟩
    obtain ⟨m, root, -, hroot⟩ := hset c' conn' hok
    have hpos := hroot.size_pos
    rw [nPieces]
    omega

/-! ## A message that is no handshake -/

/-- After it `Do` asks for no piece and checks the empty buffer of a new client. -/
theorem do_of_other {p : Packages} {infoHash clientID : Bytes} {conn conn₁ : Conn}
    (hbt : (newClient infoHash clientID).doBtHandshake conn = .ok conn₁)
    (hwrites : conn₁.writesLeft ≠ 0) {m : ExMessage} (hm : conn₁.exMessages.head? = some m)
    (hid : m.id ≠ 0) :
    (newClient infoHash clientID).do p conn =
      ([], match (newClient infoHash clientID).verify p with
        | .error err => .onError infoHash err
        | .ok metadata => .onSuccess metadata) := by
  obtain ⟨conn', hex⟩ := doExHandshake_of_other (p := p) (c := newClient infoHash clientID)
    hwrites hm hid
  have hnone : (newClient infoHash clientID).nPieces = 0 := by
    simp [nPieces, newClient]
  have hrequest : (newClient infoHash clientID).requestAllPieces p conn' = .ok conn' := by
    rw [requestAllPieces, hnone]
    rfl
  have hloop : (newClient infoHash clientID).receiveLoop p conn' =
      .ok (newClient infoHash clientID) := by
    rw [receiveLoop]
    rfl
  rw [«do», hbt]
  dsimp only
  rw [hex]
  dsimp only
  rw [hrequest]
  dsimp only
  rw [hloop]
  dsimp only
  cases (newClient infoHash clientID).verify p <;> rfl

/-- A peer that sends a piece before any handshake. -/
def hastyConn : Conn := { sampleConn with incoming := samplePiece.frame }

/-- `doExHandshake` returns nil to a client that knows neither a size nor a code. -/
theorem hasty_peer_sets_nothing :
    (∃ conn', (newClient (List.replicate 20 7) []).doExHandshake samplePackages hastyConn =
      .ok (newClient (List.replicate 20 7) [], conn')) ∧
    (newClient (List.replicate 20 7) []).metadataSize = 0 ∧
    (newClient (List.replicate 20 7) []).utMetadata = 0 ∧
    ¬ NilMeansSet samplePackages (newClient (List.replicate 20 7) []) hastyConn := by
  have hread : hastyConn.exMessages = [samplePiece] :=
    Conn.exMessages_frames (by decide) (by decide)
  have hm : hastyConn.exMessages.head? = some samplePiece := by rw [hread, List.head?_cons]
  have hwrites : hastyConn.writesLeft ≠ 0 := by decide
  obtain ⟨conn', hok⟩ := doExHandshake_of_other (p := samplePackages)
    (c := newClient (List.replicate 20 7) []) hwrites hm (by decide)
  refine ⟨⟨conn', hok⟩, rfl, rfl, fun h => ?_⟩
  obtain ⟨m, root, -, hset⟩ := h.set _ _ hok
  exact absurd hset.size_pos (by decide)

end Client

end DhtClient
