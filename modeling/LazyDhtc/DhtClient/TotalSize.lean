-- SUMMARY: The total size that a download reports against the sizes of its files, and the pieces that the sizes need.
import LazyDhtc.DhtClient.Download
import LazyDhtc.Lib.Wrapping

/-!
# Total size

`Do` adds up the sizes of the files as unsigned words, and `validateInfo` divides a sum of
signed words by the length of a piece. Both sums wrap around.
-/

namespace DhtClient

namespace Client

open Wrapping

/-! ## The dictionary -/

/-- The lengths of the files of a dictionary. -/
def fileLengths (info : Info) : List Int64 :=
  if info.files = [] then [info.length] else info.files.map FileInfo.length

theorem filesOf_sizes (p : Packages) (info : Info) :
    (filesOf p info).map File.size = fileLengths info := by
  unfold filesOf fileLengths
  split
  · rfl
  · rw [List.map_map]
    rfl

/-- `TotalLength` and `NumPieces` of the metainfo package. They go by the file tree of a
    dictionary of version 2, which `hasV2` tells apart, and by the fields of any other. The
    length of a string is an `int`. -/
structure MetainfoLengths (p : Packages) (hasV2 : Info → Bool) : Prop where
  totalLength_eq : ∀ info, hasV2 info = false →
    p.totalLength info = (fileLengths info).foldl (· + ·) 0
  numPieces_eq : ∀ info, hasV2 info = false →
    p.numPieces info = .ofNat (info.pieces.length / 20)
  pieces_lt : ∀ text info, p.unmarshalInfo text = .ok info → info.pieces.length < 2 ^ 63

/-- The sum of the lengths, without wrapping around. -/
def lengthSum (info : Info) : Int := ((fileLengths info).map Int64.toInt).sum

/-- The pieces of a dictionary, of 20 bytes each, are those that `total` bytes need. -/
def PiecesFit (info : Info) (total : Nat) : Prop :=
  info.pieces ≠ [] → 0 < info.pieceLength.toInt →
    info.pieces.length = 20 * (total ⌈/⌉ info.pieceLength.toInt.toNat)

/-- The metadata reports the sizes of its files and their sum as they are. -/
structure TotalSizeExact (info : Info) (metadata : Metadata) : Prop where
  nonneg : ∀ file ∈ metadata.files, 0 ≤ file.size.toInt
  sum_eq : (metadata.totalSize.toNat : Int) = (metadata.files.map fun file => file.size.toInt).sum
  pieces : PiecesFit info metadata.totalSize.toNat

/-! ## What the checks say -/

theorem sumSizes_ok {files : List File} {totalSize totalSize' : UInt64}
    (h : sumSizes files totalSize = .ok totalSize') :
    (∀ file ∈ files, 0 ≤ file.size.toInt) ∧
    (totalSize'.toNat : Int) =
      (totalSize.toNat + (files.map fun file => file.size.toInt).sum) % 2 ^ 64 := by
  induction files generalizing totalSize with
  | nil =>
    cases h
    have hlt := totalSize'.toNat_lt
    refine ⟨fun _ hmem => (List.not_mem_nil hmem).elim, ?_⟩
    rw [List.map_nil, List.sum_nil]
    omega
  | cons file files ih =>
    rw [sumSizes] at h
    split at h
    · cases h
    · next hsize =>
      have hnonneg : 0 ≤ file.size.toInt := by
        rw [Int64.lt_iff_toInt_lt] at hsize
        exact not_lt.1 hsize
      have hvalue := toNat_toUInt64 hnonneg
      obtain ⟨hfiles, hsum⟩ := ih h
      refine ⟨List.forall_mem_cons.2 ⟨hnonneg, hfiles⟩, ?_⟩
      rw [hsum, UInt64.toNat_add, List.map_cons, List.sum_cons]
      omega

/-- Where the check of the pieces has passed. -/
theorem validateInfo_ok {p : Packages} {info : Info} (h : validateInfo p info = .ok ())
    (hpieces : info.pieces ≠ []) (hlength : 0 < info.pieceLength.toInt) :
    info.pieces.length % 20 = 0 ∧
      (p.totalLength info + info.pieceLength - 1) / info.pieceLength = p.numPieces info := by
  have hpos := List.length_pos_of_ne_nil hpieces
  have hne : info.pieceLength ≠ 0 := by
    intro hzero
    rw [hzero] at hlength
    exact absurd hlength (by decide)
  unfold validateInfo at h
  rw [if_neg hne] at h
  split at h
  · cases h
  · next hmod =>
    split at h
    · cases h
    · next hcount =>
      exact ⟨not_not.1 fun hmod' => hmod ⟨hpos, hmod'⟩,
        not_not.1 fun hcount' => hcount ⟨hpos, hcount'⟩⟩

/-- A dictionary that is not of version 2 has passed the check only with the pieces that
    its lengths need, if their sum is no more than a word holds. -/
theorem piecesFit_of_v1 {p : Packages} {hasV2 : Info → Bool} (hp : MetainfoLengths p hasV2)
    {text : Bytes} {info : Info} (hinfo : p.unmarshalInfo text = .ok info)
    (hv1 : hasV2 info = false) (h : validateInfo p info = .ok ()) {total : Nat}
    (htotal : lengthSum info = total) (hlt : total < 2 ^ 64) : PiecesFit info total := by
  intro hpieces hlength
  obtain ⟨hmod, hcount⟩ := validateInfo_ok h hpieces hlength
  have hpos := List.length_pos_of_ne_nil hpieces
  have hbound := hp.pieces_lt text info hinfo
  have hnumber : (p.numPieces info).toInt = (info.pieces.length / 20 : Nat) := by
    rw [hp.numPieces_eq info hv1]
    exact Int64.toInt_ofNat_of_lt (by omega)
  have hone : info.pieceLength ≠ -1 := by
    intro hneg
    rw [hneg] at hlength
    exact absurd hlength (by decide)
  have hnumerator : (p.totalLength info + info.pieceLength - 1).toInt =
      (total + info.pieceLength.toInt - 1).bmod (2 ^ 64) := by
    have hsum := toInt_foldl_add (fileLengths info) 0
    rw [← lengthSum, htotal] at hsum
    rw [Int64.toInt_sub, Int64.toInt_add, hp.totalLength_eq info hv1, hsum, Int.bmod_add_bmod,
      Int.bmod_sub_bmod]
    simp
  have hquot := congrArg Int64.toInt hcount
  rw [Int64.toInt_div_of_ne_right _ _ hone, hnumerator, hnumber,
    ← Int.toNat_of_nonneg hlength.le] at hquot
  have hn := eq_ceilDiv_of_tdiv hlt (by omega) (by omega) hquot
  omega

/-- Whenever `Do` succeeds, the hash of the metadata has been checked, and the sizes are
    reported as they are exactly if their sum is no more than a word holds and, in a
    dictionary of version 2, the pieces are those that the files outside its tree need. -/
theorem totalSizeExact_iff {p : Packages} {hasV2 : Info → Bool} (hp : MetainfoLengths p hasV2)
    {c : Client} {conn : Conn} {metadata : Metadata}
    (h : (c.do p conn).2 = .onSuccess metadata) :
    ∃ text info, metadataSum p c.infoHash text = c.infoHash ∧ p.unmarshalInfo text = .ok info ∧
      metadata.files = filesOf p info ∧
      (TotalSizeExact info metadata ↔
        lengthSum info < 2 ^ 64 ∧
          (hasV2 info = true → PiecesFit info (lengthSum info).toNat)) := by
  obtain ⟨c', hinfoHash, hverify⟩ := do_onSuccess h
  obtain ⟨hhash, info, hinfo, hvalid, hsizes, hfiles⟩ := verify_ok hverify
  rw [hinfoHash] at hhash
  refine ⟨c'.metadata, info, hhash, hinfo, hfiles, ?_⟩
  obtain ⟨hnonneg, hsum⟩ := sumSizes_ok hsizes
  have hlengths : ((filesOf p info).map fun file => file.size.toInt).sum = lengthSum info := by
    rw [lengthSum, ← filesOf_sizes p info, List.map_map]
    rfl
  rw [hlengths] at hsum
  have hsumNonneg : 0 ≤ lengthSum info := by
    rw [lengthSum, ← filesOf_sizes p info]
    exact sum_toInt_nonneg (List.forall_mem_map.2 hnonneg)
  have htotal := metadata.totalSize.toNat_lt
  have hzero : (0 : UInt64).toNat = 0 := rfl
  constructor
  · intro hexact
    have hsumEq := hexact.sum_eq
    rw [hfiles, hlengths] at hsumEq
    refine ⟨by omega, fun _ => ?_⟩
    rw [← hsumEq, Int.toNat_natCast]
    exact hexact.pieces
  · rintro ⟨hlt, hv2⟩
    have hsumEq : (metadata.totalSize.toNat : Int) = lengthSum info := by omega
    refine ⟨by rwa [hfiles], by rw [hfiles, hlengths, hsumEq], ?_⟩
    cases hversion : hasV2 info with
    | false => exact piecesFit_of_v1 hp hinfo hversion hvalid hsumEq.symm htotal
    | true =>
      have hfit := hv2 hversion
      rwa [← hsumEq, Int.toNat_natCast] at hfit

/-! ## Three files -/

/-- Packages that decode the messages of a peer with the metadata `text`. -/
def servingPackages (hand text hash : Bytes) (info : Info) : Packages where
  unmarshalRootDict b :=
    if b = hand then .ok ⟨⟨1, 0⟩, .ofNat text.length⟩ else .error "syntax error"
  unmarshalPexMsg _ := .error "syntax error"
  decodeExtDict b :=
    if b.take 25 = pieceDict 0 then .ok (⟨1, 0⟩, b.drop 25) else .error "syntax error"
  marshalExtDict _ := ascii "d8:msg_typei0e5:piecei0ee"
  unmarshalInfo b := if b = text then .ok info else .error "syntax error"
  displayPath _ file := file.path.flatten
  totalLength info := (fileLengths info).foldl (· + ·) 0
  numPieces info := .ofNat (info.pieces.length / 20)
  sha1 b := if b = text then hash else []
  sha256 _ := []
  unixNow := 1700000000

/-- A peer that sends `text`. -/
def servingConn (hand text hash : Bytes) : Conn where
  incoming := btHandshake hash (List.replicate 20 7) ++
    ((ExMessage.mk 0 hand).frame ++ (ExMessage.mk 1 (pieceDict 0 ++ text)).frame)
  readErr := "EOF"
  written := []
  writesLeft := 3
  writeErr := "broken pipe"

theorem metainfoLengths_serving (hand text hash : Bytes) {info : Info}
    (hlen : info.pieces.length < 2 ^ 63) :
    MetainfoLengths (servingPackages hand text hash info) fun _ => false := by
  refine ⟨fun _ _ => rfl, fun _ _ => rfl, fun b info' h => ?_⟩
  dsimp only [servingPackages] at h
  split at h
  · cases h
    exact hlen
  · cases h

theorem unmarshalInfo_serving (hand text hash : Bytes) (info : Info) :
    (servingPackages hand text hash info).unmarshalInfo text = .ok info := if_pos rfl

/-- The client reports the dictionary if it passes the checks. -/
theorem do_serving {hand text hash : Bytes} {info : Info} {totalSize : UInt64}
    (hhash : hash.length = 20) (hhand : hand.length ≤ 100) (hpos : 0 < text.length)
    (hle : text.length ≤ 16384)
    (hvalid : validateInfo (servingPackages hand text hash info) info = .ok ())
    (hsizes : sumSizes (filesOf (servingPackages hand text hash info) info) 0 = .ok totalSize) :
    ((newClient hash []).do (servingPackages hand text hash info)
        (servingConn hand text hash)).2 =
      .onSuccess ⟨hash, 0, info.name, totalSize, 1700000000,
        filesOf (servingPackages hand text hash info) info⟩ := by
  have hmax : maxMetadataSize = 10485760 := rfl
  have hdict : (pieceDict 0).length = 25 := rfl
  have hcut : (newClient hash []).handshakeHash = hash := if_neg (by simp [newClient, hhash])
  have hsize : (Int64.ofNat text.length).toInt = text.length :=
    Int64.toInt_ofNat_of_lt (by omega)
  have hhandLength : 2 + hand.length ≤ maxMetadataSize := by omega
  have hannounces : Announces (servingPackages hand text hash info) text.length ⟨0, hand⟩
      ⟨⟨1, 0⟩, .ofNat text.length⟩ :=
    ⟨rfl, hhandLength, if_pos rfl, hsize, hpos, by omega,
      (by decide : 0 < (1 : Int64).toInt), (by decide : (1 : Int64).toInt < 255)⟩
  have hdec : (servingPackages hand text hash info).decodeExtDict (pieceDict 0 ++ text) =
      .ok (⟨1, 0⟩, text) := by
    dsimp only [servingPackages]
    rw [List.take_left' hdict, List.drop_left' hdict, if_pos rfl]
  have hpayload : 2 + (pieceDict 0 ++ text).length ≤ maxMetadataSize := by
    rw [List.length_append, hdict]
    omega
  obtain ⟨c, rfl, rfl, hdo⟩ := @do_onePiece (servingPackages hand text hash info)
    hash [] (List.replicate 20 7) text (servingConn hand text hash) ⟨0, hand⟩ _
    (pieceDict 0 ++ text) (le_refl 3) (by rw [hcut, hhash]) List.length_replicate hannounces hle
    hpayload hdec (by rw [hcut]; rfl)
  have hne : ¬ c.infoHash.length = 32 := by omega
  have hsum : metadataSum (servingPackages hand c.metadata c.infoHash info) c.infoHash c.metadata =
      c.infoHash := by
    rw [metadataSum, if_neg hne]
    exact if_pos rfl
  rw [hdo, conclude, verify_eq hsum (unmarshalInfo_serving _ _ _ _) hvalid hsizes]
  rfl

/-- The hash of the only piece of both dictionaries. -/
def onePiece : Bytes :=
  [161, 124, 154, 170, 97, 232, 10, 27, 247, 29, 13, 133, 10, 244, 229, 186, 169, 128, 11, 189]

/-- The text `d6:lengthi4e4:name1:t12:piece lengthi16384e6:pieces20:…e`. -/
def plainText : Bytes :=
  ascii "d6:lengthi4e4:name1:t12:piece lengthi16384e6:pieces20:" ++ onePiece ++ ascii "e"

/-- The SHA-1 sum of that text. -/
def plainHash : Bytes :=
  [224, 65, 234, 253, 171, 50, 82, 99, 46, 182, 254, 129, 233, 120, 229, 207, 166, 57, 4, 19]

def plainInfo : Info := ⟨16384, onePiece, ascii "t", 4, []⟩

def plainHand : Bytes := ascii "d1:md11:ut_metadatai1ee13:metadata_sizei75ee"

/-- A dictionary of three files, whose lengths are one more than a word holds. -/
def swollenText : Bytes :=
  ascii "d5:filesld6:lengthi9223372036854775807e4:pathl1:aee" ++
    ascii "d6:lengthi9223372036854775807e4:pathl1:beed6:lengthi3e4:pathl1:ceee" ++
    ascii "4:name1:t12:piece lengthi16384e6:pieces20:" ++ onePiece ++ ascii "e"

/-- The SHA-1 sum of that text. -/
def swollenHash : Bytes :=
  [249, 56, 76, 128, 243, 75, 24, 132, 62, 56, 16, 243, 97, 34, 50, 231, 228, 54, 124, 35]

def swollenInfo : Info :=
  ⟨16384, onePiece, ascii "t", 0, [⟨9223372036854775807, [ascii "a"]⟩,
    ⟨9223372036854775807, [ascii "b"]⟩, ⟨3, [ascii "c"]⟩]⟩

def swollenHand : Bytes := ascii "d1:md11:ut_metadatai1ee13:metadata_sizei181ee"

def swollenMetadata : Metadata :=
  ⟨swollenHash, 0, ascii "t", 1, 1700000000, [⟨9223372036854775807, ascii "a"⟩,
    ⟨9223372036854775807, ascii "b"⟩, ⟨3, ascii "c"⟩]⟩

/-- The files are reported with a total of one byte, for which one piece is enough. -/
theorem swollen_total_is_one :
    ((newClient swollenHash []).do (servingPackages swollenHand swollenText swollenHash swollenInfo)
      (servingConn swollenHand swollenText swollenHash)).2 = .onSuccess swollenMetadata ∧
    (servingPackages swollenHand swollenText swollenHash swollenInfo).unmarshalInfo swollenText =
      .ok swollenInfo ∧
    ¬ TotalSizeExact swollenInfo swollenMetadata := by
  have hlength : swollenText.length = 181 := by decide +kernel
  refine ⟨do_serving rfl (by decide) (by omega) (by omega) rfl rfl,
    unmarshalInfo_serving _ _ _ _, fun h => ?_⟩
  have hsum := h.sum_eq
  revert hsum
  decide

theorem totalSizeExact_iff_plain :
    TotalSizeExact plainInfo ⟨plainHash, 0, ascii "t", 4, 1700000000, [⟨4, ascii "t"⟩]⟩ := by
  have hp := metainfoLengths_serving plainHand plainText plainHash
    (show plainInfo.pieces.length < 2 ^ 63 by decide)
  obtain ⟨text, info, -, hinfo, -, hiff⟩ := totalSizeExact_iff hp
    (@do_serving plainHand plainText plainHash plainInfo 4 rfl (by decide) (by decide) (by decide)
      rfl rfl)
  dsimp only [servingPackages] at hinfo
  split at hinfo
  · cases hinfo
    exact hiff.2 ⟨by decide, fun h => by cases h⟩
  · cases hinfo

end Client

end DhtClient
