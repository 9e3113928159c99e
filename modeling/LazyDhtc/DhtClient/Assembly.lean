-- SUMMARY: The metadata that a client assembles from an honest peer's pieces, and the orders of the pieces in which it gets there.
import LazyDhtc.DhtClient.Client
import LazyDhtc.Lib.Blocks
import Mathlib.Data.List.Perm.Subperm
import Mathlib.Data.List.TakeWhile

/-!
# Assembly of the metadata

An honest peer sends every piece once, in any order, and other messages between them. A
piece goes to the place that its index says, but a piece of less than 16 KiB is taken only
if it completes the metadata.
-/

namespace DhtClient

open Blocks

/-! ## Messages -/

/-- The bytes in which a peer sends a message. -/
def frame (body : Bytes) : Bytes := toBigEndian4 body.length ++ body

/-- A message of a peer that has the metadata `M`, with the index of the piece it
    delivers. -/
inductive HonestMessage (p : Packages) (M : Bytes) : Bytes → Option Nat → Prop where
  /-- a keep-alive, or no extension message -/
  | skipped {body : Bytes} : ExMessage.ofMessage body = none → HonestMessage p M body none
  /-- PEX, or some other extension -/
  | extension {id : UInt8} {payload : Bytes} : id ≠ 1 →
      HonestMessage p M (20 :: id :: payload) none
  /-- a request for a piece -/
  | request {payload rest : Bytes} {piece : Int64} :
      p.decodeExtDict payload = .ok (⟨0, piece⟩, rest) →
      HonestMessage p M (20 :: 1 :: payload) none
  | data {payload : Bytes} {i : Nat} : i < count 16384 M.length →
      p.decodeExtDict payload = .ok (⟨1, .ofNat i⟩, block 16384 M i) →
      HonestMessage p M (20 :: 1 :: payload) (some i)

/-- Messages, with the indices of the pieces they deliver. -/
abbrev Deliveries := List (Bytes × Option Nat)

/-- The indices of the pieces, in the order in which they arrive. -/
def Deliveries.indices (msgs : Deliveries) : List Nat := msgs.filterMap Prod.snd

def Deliveries.exMessages (msgs : Deliveries) : List ExMessage :=
  msgs.filterMap fun m => ExMessage.ofMessage m.1

/-- The bytes on the connection. -/
def Deliveries.stream (msgs : Deliveries) : Bytes := msgs.flatMap fun m => frame m.1

/-- An honest peer delivers every piece of `M` once, whatever else it sends. -/
structure HonestPeer (p : Packages) (M : Bytes) (msgs : Deliveries) : Prop where
  honest : ∀ m ∈ msgs, HonestMessage p M m.1 m.2
  framed : ∀ m ∈ msgs, m.1.length < 2 ^ 32
  once : msgs.indices.Perm (List.range (count 16384 M.length))

/-- A message that `readMessage` does not refuse for its length. -/
def fits (m : Bytes × Option Nat) : Bool := m.1.length ≤ maxMetadataSize

/-- The messages before the first one that is too long. -/
def Deliveries.read (msgs : Deliveries) : Deliveries := msgs.takeWhile fits

def Deliveries.unread (msgs : Deliveries) : Deliveries := msgs.dropWhile fits

/-- No piece comes with or after a message that is too long. -/
def Deliveries.InTime (msgs : Deliveries) : Prop := msgs.unread.indices = []

/-- A piece of less than 16 KiB is the last to arrive. -/
def ShortLast (size : Nat) (indices : List Nat) : Prop :=
  ∀ pre i post, indices = pre ++ i :: post → size < 16384 * (i + 1) → post = []

/-! ## Reading -/

theorem Conn.readMessage_tooLong {conn : Conn} {body rest : Bytes}
    (hlong : maxMetadataSize < body.length) (hframed : body.length < 2 ^ 32)
    (h : conn.incoming = frame body ++ rest) :
    conn.readMessage = .error "message is longer than max allowed metadata size" := by
  have hfour := readExactly_append (n := 4) rfl (h.trans (List.append_assoc _ _ _))
  simp only [readMessage, hfour, beNat_toBigEndian4 hframed]
  rw [if_pos hlong]

theorem Conn.exMessages_congr {conn conn' : Conn} (h : conn.readExMessage = conn'.readExMessage) :
    conn.exMessages = conn'.exMessages := by
  cases hread : conn'.readExMessage with
  | error err => rw [exMessages_error (h.trans hread), exMessages_error hread]
  | ok r => rw [exMessages_ok (h.trans hread), exMessages_ok hread]

theorem Conn.exMessages_frame {conn : Conn} {body rest : Bytes}
    (hlen : body.length ≤ maxMetadataSize) (h : conn.incoming = frame body ++ rest) :
    conn.exMessages =
      (ExMessage.ofMessage body).toList ++ exMessages { conn with incoming := rest } := by
  have hread := readMessage_frame hlen h
  cases hm : ExMessage.ofMessage body with
  | none =>
    refine exMessages_congr ?_
    rw [readExMessage_ok hread, hm]
  | some m =>
    refine exMessages_ok ?_
    rw [readExMessage_ok hread, hm]

theorem Conn.exMessages_tooLong {conn : Conn} {body rest : Bytes}
    (hlong : maxMetadataSize < body.length) (hframed : body.length < 2 ^ 32)
    (h : conn.incoming = frame body ++ rest) : conn.exMessages = [] := by
  have hread := readMessage_tooLong hlong hframed h
  exact exMessages_error (readExMessage_error hread)

/-- What is read: the extension messages before the first message that is too long. -/
theorem Conn.exMessages_stream {conn : Conn} {msgs : Deliveries} {rest : Bytes}
    (hframed : ∀ m ∈ msgs, m.1.length < 2 ^ 32) (h : conn.incoming = msgs.stream ++ rest) :
    ∃ extra, conn.exMessages = msgs.read.exMessages ++ extra ∧
      (msgs.unread ≠ [] → extra = []) := by
  unfold Deliveries.read Deliveries.unread
  induction msgs generalizing conn with
  | nil => exact ⟨conn.exMessages, rfl, fun hne => (hne rfl).elim⟩
  | cons m msgs ih =>
    rw [Deliveries.stream, List.flatMap_cons, List.append_assoc] at h
    obtain ⟨hm, hmsgs⟩ := List.forall_mem_cons.1 hframed
    by_cases hfits : fits m = true
    · obtain ⟨extra, hextra, hnone⟩ :=
        @ih { conn with incoming := Deliveries.stream msgs ++ rest } hmsgs rfl
      refine ⟨extra, ?_, ?_⟩
      · have hread := exMessages_frame (by simpa [fits] using hfits) h
        rw [hread]
        unfold Deliveries.stream at hextra
        rw [hextra, List.takeWhile_cons_of_pos hfits]
        simp only [Deliveries.exMessages, List.filterMap_cons]
        cases ExMessage.ofMessage m.1 with
        | none => rfl
        | some x => rfl
      · rwa [List.dropWhile_cons_of_pos hfits]
    · refine ⟨[], ?_, fun _ => rfl⟩
      have hread := exMessages_tooLong (by simpa [fits] using hfits) hm h
      rw [hread, List.takeWhile_cons_of_neg hfits]
      rfl

/-! ## One message -/

namespace Client

/-- The client has received the pieces `done`, each of 16 KiB. -/
structure Assembling (M : Bytes) (done : List Nat) (c : Client) : Prop where
  downloading : Downloading M.length done.length c
  filled : Filled 16384 M c.metadata done
  full : ∀ i ∈ done, 16384 * (i + 1) ≤ M.length

/-- A message that delivers no piece changes nothing but the peers. -/
theorem Assembling.skip {p : Packages} {M body : Bytes} {done : List Nat} {c : Client}
    (h : Assembling M done c) (hmsg : HonestMessage p M body none) {m : ExMessage}
    (hm : ExMessage.ofMessage body = some m) :
    ∃ c', c.receive p m = .ok c' ∧ Assembling M done c' := by
  obtain ⟨hnone, hcont⟩ : dataPiece p m = none ∧ Continues p m := by
    cases hmsg with
    | skipped hskip => cases hskip.symm.trans hm
    | extension hid =>
      cases hm
      exact ⟨if_neg hid, fun hone => (hid hone).elim⟩
    | request hdec =>
      cases hm
      refine ⟨?_, fun _ => ⟨_, _, hdec, ?_, ?_⟩⟩
      · simp [dataPiece, hdec]
      · simp
      · simp
  rcases receive_other hnone c with ⟨-, peers, hok⟩ | ⟨hnot, -⟩
  · obtain ⟨hdown, hfilled, hfull⟩ := h
    refine ⟨_, hok, ?_, hfilled, hfull⟩
    exact ⟨hdown.size_eq, hdown.received_eq, hdown.length_eq, hdown.size_lt⟩
  · exact (hnot hcont).elim

/-- What the piece with index `i` does: it is copied to its place, and refused afterwards
    if it is short and does not complete the metadata. -/
theorem Assembling.data {p : Packages} {M payload : Bytes} {done : List Nat} {c : Client} {i : Nat}
    (h : Assembling M done c) (hopen : 16384 * done.length < M.length)
    (hi : i < count 16384 M.length)
    (hdec : p.decodeExtDict payload = .ok (⟨1, .ofNat i⟩, block 16384 M i)) :
    ∃ c', Filled 16384 M c'.metadata (i :: done) ∧ c'.metadataSize.toNat = M.length ∧
      c'.metadataReceived.toNat = 16384 * done.length + (block 16384 M i).length ∧
      c.receive p ⟨1, payload⟩ =
        if (block 16384 M i).length < 16384 ∧
            16384 * done.length + (block 16384 M i).length ≠ M.length then
          .onError c' "metadataPiece < 16 kiB but incomplete"
        else if M.length < 16384 * done.length + (block 16384 M i).length then
          .onError c' "metadataReceived > metadataSize"
        else .ok c' := by
  have hlt := (lt_count_iff (Nat.succ_pos 16383) M.length i).1 hi
  have hsize : M.length < 10485760 := h.downloading.size_lt
  have hsmall : 16384 * i < 2 ^ 63 := by omega
  have hlen := length_block 16384 M i
  have hoff : ((Int64.ofNat i) * 16384).toInt = (16384 * i : Nat) := by
    rw [show (16384 : Int64) = Int64.ofNat 16384 from rfl, ← Int64.ofNat_mul, Nat.mul_comm i,
      Int64.toInt_ofNat_of_lt hsmall]
  have hdata : dataPiece p ⟨1, payload⟩ = some (⟨1, .ofNat i⟩, block 16384 M i) := by
    simp [dataPiece, hdec]
  have hin : InRange M.length ⟨1, .ofNat i⟩ (block 16384 M i) := by
    unfold InRange
    rw [hoff]
    omega
  obtain ⟨c', lo, hlo, -, hmetadata, -, hsize', hreceived, hres⟩ :=
    receivePiece_inRange h.downloading hopen (by omega) hin
  rw [hoff, Int.natCast_inj] at hlo
  subst hlo
  refine ⟨c', ?_, hsize', hreceived, (receive_data hdata c).1.trans hres⟩
  have hput := h.filled.put (Nat.succ_pos 16383) hlt
  unfold Blocks.put at hput
  rwa [← hmetadata] at hput

/-! ## All messages -/

theorem ShortLast.tail {size i : Nat} {indices : List Nat} (h : ShortLast size (i :: indices)) :
    ShortLast size indices := by
  rintro pre j post rfl hshort
  exact h (i :: pre) j post rfl hshort

theorem ShortLast.cons {size i : Nat} {indices : List Nat} (h : ShortLast size indices)
    (hi : size < 16384 * (i + 1) → indices = []) : ShortLast size (i :: indices) := by
  intro pre j post heq hshort
  cases pre with
  | nil =>
    obtain ⟨rfl, rfl⟩ := List.cons.inj heq
    exact hi hshort
  | cons k pre =>
    obtain ⟨-, rfl⟩ := List.cons.inj heq
    exact h pre j post rfl hshort

/-- The blocks of 16 KiB fit into the metadata. -/
theorem length_full_le {size : Nat} {done : List Nat} (hnodup : done.Nodup)
    (hfull : ∀ i ∈ done, 16384 * (i + 1) ≤ size) : 16384 * done.length ≤ size := by
  have hsub : done ⊆ List.range (size / 16384) := by
    intro i hi
    have := hfull i hi
    rw [List.mem_range]
    omega
  have hlen := (List.subperm_of_subset hnodup hsub).length_le
  rw [List.length_range] at hlen
  omega

/-- A piece of 16 KiB is taken, a short one only if it completes the metadata. -/
theorem Assembling.deliver {p : Packages} {M payload : Bytes} {done : List Nat} {c : Client}
    {i : Nat} (h : Assembling M done c) (hopen : 16384 * done.length < M.length)
    (hi : i < count 16384 M.length)
    (hdec : p.decodeExtDict payload = .ok (⟨1, .ofNat i⟩, block 16384 M i))
    (hnodup : (i :: done).Nodup) :
    (16384 * (i + 1) ≤ M.length ∧
      ∃ c', c.receive p ⟨1, payload⟩ = .ok c' ∧ Assembling M (i :: done) c') ∨
    (M.length < 16384 * (i + 1) ∧ done.length = i ∧
      ∃ c', c.receive p ⟨1, payload⟩ = .ok c' ∧ Filled 16384 M c'.metadata (i :: done) ∧
        ¬ c'.metadataReceived < c'.metadataSize) ∨
    (M.length < 16384 * (i + 1) ∧ done.length ≠ i ∧
      ∃ c' e, c.receive p ⟨1, payload⟩ = .onError c' e) := by
  obtain ⟨c', hfilled, hsize, hreceived, hres⟩ := h.data hopen hi hdec
  have hlt := (lt_count_iff (Nat.succ_pos 16383) M.length i).1 hi
  have hlen := length_block 16384 M i
  by_cases hwhole : 16384 * (i + 1) ≤ M.length
  · have hfull : ∀ j ∈ i :: done, 16384 * (j + 1) ≤ M.length :=
      List.forall_mem_cons.2 ⟨hwhole, h.full⟩
    have hle := length_full_le hnodup hfull
    rw [List.length_cons] at hle
    rw [hlen, Nat.min_eq_left (by omega)] at hreceived hres
    rw [if_neg (by omega), if_neg (by omega)] at hres
    exact .inl ⟨hwhole, c', hres, ⟨hsize, hreceived, hfilled.length, h.downloading.size_lt⟩,
      hfilled, hfull⟩
  · rw [hlen, Nat.min_eq_right (by omega)] at hreceived hres
    by_cases hlast : done.length = i
    · rw [if_neg (by omega), if_neg (by omega)] at hres
      refine .inr (.inl ⟨by omega, hlast, c', hres, hfilled, ?_⟩)
      rw [UInt64.lt_iff_toNat_lt, hsize, hreceived]
      omega
    · rw [if_pos (by omega)] at hres
      exact .inr (.inr ⟨by omega, hlast, c', _, hres⟩)

/-- A client that has received everything has the metadata. -/
theorem Assembling.complete {M : Bytes} {done rest : List Nat} {c : Client} (h : Assembling M done c)
    (hperm : (done ++ rest).Perm (List.range (count 16384 M.length)))
    (hdone : ¬ 16384 * done.length < M.length) : rest = [] ∧ c.metadata = M := by
  have hcount := hperm.length_eq
  rw [List.length_range, List.length_append, count] at hcount
  have hrest : rest = [] := List.eq_nil_of_length_eq_zero (by omega)
  refine ⟨hrest, h.filled.eq (Nat.succ_pos 16383) fun i hi => ?_⟩
  rw [hrest, List.append_nil] at hperm
  exact hperm.mem_iff.2 (List.mem_range.2 hi)

theorem shortLast_nil (size : Nat) : ShortLast size [] := by
  intro pre i post heq
  cases pre <;> cases heq

/-- How the loop ends: with the metadata if all pieces come, a short one last, and with an
    error otherwise. `missing` are the pieces that do not come at all. -/
def Settles (M : Bytes) (missing indices : List Nat) (o : Outcome) : Prop :=
  (missing = [] ∧ ShortLast M.length indices ∧ ∃ c, o = .ok c ∧ c.metadata = M) ∨
  (¬ (missing = [] ∧ ShortLast M.length indices) ∧ ∃ c err, o = .onError c err)

/-- The loop is over when everything has been received. -/
theorem Assembling.settles_of_complete {p : Packages} {M : Bytes} {done indices missing : List Nat}
    {c : Client} (h : Assembling M done c)
    (hperm : (done ++ (indices ++ missing)).Perm (List.range (count 16384 M.length)))
    (hdone : ¬ 16384 * done.length < M.length) (err : String) (ms : List ExMessage) :
    Settles M missing indices (Client.receiveMessages p err c ms) := by
  obtain ⟨hrest, hmetadata⟩ := h.complete hperm hdone
  obtain ⟨hindices, hmissing⟩ := List.append_eq_nil_iff.1 hrest
  have hnot := mt h.downloading.running_iff.1 hdone
  refine .inl ⟨hmissing, ?_, c, receiveMessages_done _ hnot, hmetadata⟩
  rw [hindices]
  exact shortLast_nil _

/-- One more piece, where the loop ends as it should from the client that has taken it. -/
theorem Assembling.settles_cons {p : Packages} {M payload : Bytes} {done indices missing : List Nat}
    {c : Client} {i : Nat} {err : String} {ms : List ExMessage} (h : Assembling M done c)
    (hopen : 16384 * done.length < M.length) (hi : i < count 16384 M.length)
    (hdec : p.decodeExtDict payload = .ok (⟨1, .ofNat i⟩, block 16384 M i))
    (hperm : (i :: done ++ (indices ++ missing)).Perm (List.range (count 16384 M.length)))
    (hnext : ∀ c', Assembling M (i :: done) c' →
      Settles M missing indices (Client.receiveMessages p err c' ms)) :
    Settles M missing (i :: indices) (Client.receiveMessages p err c (⟨1, payload⟩ :: ms)) := by
  have hnodup := hperm.nodup_iff.2 List.nodup_range
  have hcount := hperm.length_eq
  simp only [List.length_range, List.length_append, List.length_cons, count] at hcount
  rw [receiveMessages_cons _ _ (h.downloading.running_iff.2 hopen)]
  rcases h.deliver hopen hi hdec (hnodup.sublist (List.sublist_append_left _ _)) with
    ⟨hwhole, c', hok, h'⟩ | ⟨hshort, hlast, c', hok, hfilled, hdone⟩ |
      ⟨hshort, hearly, c', e, herr⟩
  · rw [hok]
    rcases hnext c' h' with ⟨hmissing, hlast, hend⟩ | ⟨hnot, herr⟩
    · have hlast' := ShortLast.cons hlast fun hshort => absurd hwhole (Nat.not_le.2 hshort)
      exact .inl ⟨hmissing, hlast', hend⟩
    · exact .inr ⟨fun hall => hnot ⟨hall.1, ShortLast.tail hall.2⟩, herr⟩
  · -- the short piece is the last one that is missing
    rw [hok]
    have hrest : indices = [] ∧ missing = [] := by
      refine ⟨List.eq_nil_of_length_eq_zero ?_, List.eq_nil_of_length_eq_zero ?_⟩
      · omega
      · omega
    refine .inl ⟨hrest.2, ?_, c', receiveMessages_done _ hdone, ?_⟩
    · rw [hrest.1]
      exact ShortLast.cons (shortLast_nil _) fun _ => rfl
    · refine hfilled.eq (Nat.succ_pos 16383) fun j hj => ?_
      rw [hrest.1, hrest.2, List.append_nil, List.append_nil] at hperm
      exact hperm.mem_iff.2 (List.mem_range.2 hj)
  · rw [herr]
    refine .inr ⟨?_, c', e, rfl⟩
    rintro ⟨rfl, hlast⟩
    have hlt := (lt_count_iff (Nat.succ_pos 16383) M.length i).1 hi
    rw [hlast [] i _ rfl hshort] at hcount
    change done.length + 1 + 0 = _ at hcount
    omega

theorem Assembling.receiveMessages {p : Packages} {M : Bytes} {done missing : List Nat}
    {c : Client} {msgs : Deliveries} (h : Assembling M done c)
    (hhonest : ∀ m ∈ msgs, HonestMessage p M m.1 m.2)
    (hperm : (done ++ (msgs.indices ++ missing)).Perm (List.range (count 16384 M.length)))
    (err : String) (extra : List ExMessage) (hextra : missing ≠ [] → extra = []) :
    Settles M missing msgs.indices
      (Client.receiveMessages p err c (msgs.exMessages ++ extra)) := by
  induction msgs generalizing done c with
  | nil =>
    by_cases hopen : 16384 * done.length < M.length
    · have hcount := hperm.length_eq
      rw [List.length_range, List.length_append, count] at hcount
      have hmissing : missing ≠ [] := by
        rintro rfl
        change done.length + 0 = _ at hcount
        omega
      refine .inr ⟨fun hall => hmissing hall.1, c, err, ?_⟩
      rw [hextra hmissing]
      exact if_pos (h.downloading.running_iff.2 hopen)
    · exact h.settles_of_complete hperm hopen err _
  | cons m msgs ih =>
    obtain ⟨body, piece⟩ := m
    obtain ⟨hmsg, hmsgs⟩ := List.forall_mem_cons.1 hhonest
    by_cases hopen : 16384 * done.length < M.length
    · cases piece with
      | none =>
        have hindices : Deliveries.indices ((body, none) :: msgs) = Deliveries.indices msgs := rfl
        rw [hindices] at hperm ⊢
        cases hm : ExMessage.ofMessage body with
        | none =>
          have hex : Deliveries.exMessages ((body, none) :: msgs) = Deliveries.exMessages msgs := by
            simp [Deliveries.exMessages, hm]
          rw [hex]
          exact ih h hmsgs hperm
        | some m =>
          obtain ⟨c', hok, h'⟩ := h.skip hmsg hm
          have hex : Deliveries.exMessages ((body, none) :: msgs) =
              m :: Deliveries.exMessages msgs := by
            simp [Deliveries.exMessages, hm]
          rw [hex, List.cons_append,
            receiveMessages_cons _ _ (h.downloading.running_iff.2 hopen), hok]
          exact ih h' hmsgs hperm
      | some i =>
        cases hmsg with
        | @data payload _ hi hdec =>
          have hex : Deliveries.exMessages ((20 :: 1 :: payload, some i) :: msgs) =
              ⟨1, payload⟩ :: Deliveries.exMessages msgs := rfl
          have hperm' : (i :: done ++ (Deliveries.indices msgs ++ missing)).Perm
              (List.range (count 16384 M.length)) := List.perm_middle.symm.trans hperm
          rw [hex, List.cons_append]
          exact h.settles_cons hopen hi hdec hperm' fun c' h' => ih h' hmsgs hperm'
    · exact h.settles_of_complete hperm hopen err _

section

variable {p : Packages} {infoHash clientID M rest : Bytes} {conn conn' peer : Conn} {c : Client}
  {msgs : Deliveries}

/-- How the loop ends on the messages of an honest peer. -/
theorem receiveLoop_honest
    (h : (newClient infoHash clientID).doExHandshake p conn = .ok (c, conn'))
    (hsize : c.metadataSize.toNat = M.length) (hpeer : HonestPeer p M msgs)
    (hconn : peer.incoming = msgs.stream ++ rest) :
    ((msgs.InTime ∧ ShortLast M.length msgs.indices) ∧
      ∃ c', c.receiveLoop p peer = .ok c' ∧ c'.metadata = M) ∨
    (¬ (msgs.InTime ∧ ShortLast M.length msgs.indices) ∧
      ∃ c' err, c.receiveLoop p peer = .onError c' err) := by
  have hdown := doExHandshake_downloading h
  rw [hsize] at hdown
  have hstart : Assembling M [] c :=
    ⟨hdown, .empty hdown.length_eq, fun i hi => (List.not_mem_nil hi).elim⟩
  obtain ⟨extra, hread, hextra⟩ := Conn.exMessages_stream hpeer.framed hconn
  obtain ⟨err, hloop⟩ := receiveLoop_eq p c peer
  have hsplit : msgs.read.indices ++ msgs.unread.indices = msgs.indices := by
    unfold Deliveries.indices Deliveries.read Deliveries.unread
    rw [← List.filterMap_append, List.takeWhile_append_dropWhile]
  have hperm := hpeer.once
  rw [← hsplit] at hperm
  have hhonest : ∀ m ∈ msgs.read, HonestMessage p M m.1 m.2 := fun m hm =>
    hpeer.honest m ((List.takeWhile_sublist _).subset hm)
  have hmissing : msgs.unread.indices ≠ [] → extra = [] := fun hne => hextra fun hnil => by
    rw [hnil] at hne
    exact hne rfl
  rw [hloop, hread, ← hsplit]
  rcases hstart.receiveMessages hhonest hperm err extra hmissing with
    ⟨hall, hlast, hend⟩ | ⟨hnot, herr⟩
  · rw [hall, List.append_nil]
    exact .inl ⟨⟨hall, hlast⟩, hend⟩
  · refine .inr ⟨?_, herr⟩
    rintro ⟨hall, hlast⟩
    rw [show msgs.unread.indices = [] from hall, List.append_nil] at hlast
    exact hnot ⟨hall, hlast⟩

/-- The pieces of an honest peer are assembled exactly if none comes with or after a
    message that is too long and a piece of less than 16 KiB arrives last. -/
theorem receiveLoop_assembles_iff
    (h : (newClient infoHash clientID).doExHandshake p conn = .ok (c, conn'))
    (hsize : c.metadataSize.toNat = M.length) (hpeer : HonestPeer p M msgs)
    (hconn : peer.incoming = msgs.stream ++ rest) :
    (∃ c', c.receiveLoop p peer = .ok c' ∧ c'.metadata = M) ↔
      msgs.InTime ∧ ShortLast M.length msgs.indices := by
  rcases receiveLoop_honest h hsize hpeer hconn with ⟨hok, hend⟩ | ⟨hnot, c', err, herr⟩
  · exact ⟨fun _ => hok, fun _ => hend⟩
  · refine ⟨?_, fun hok => (hnot hok).elim⟩
    rintro ⟨_, heq, -⟩
    cases herr.symm.trans heq

end

/-- `doExHandshake` takes the size that a handshake announces. -/
theorem doExHandshake_announced {p : Packages} {infoHash clientID : Bytes} {conn : Conn}
    {m : ExMessage} {r : RootDict} {rest : Bytes} (hwrites : conn.writesLeft ≠ 0)
    (hid : m.id = 0) (hlen : 2 + m.payload.length ≤ maxMetadataSize)
    (hconn : conn.incoming = m.frame ++ rest) (hroot : p.unmarshalRootDict m.payload = .ok r)
    (hsize : 0 < r.metadataSize.toInt ∧ r.metadataSize.toInt < maxMetadataSize)
    (hut : 0 < r.m.utMetadata.toInt ∧ r.m.utMetadata.toInt < 255) :
    ∃ c conn', (newClient infoHash clientID).doExHandshake p conn = .ok (c, conn') ∧
      c.metadataSize.toNat = r.metadataSize.toInt.toNat ∧ conn'.incoming = rest ∧
      conn'.writesLeft + 1 = conn.writesLeft := by
  obtain ⟨conn₁, hwrite, hincoming, hleft⟩ := Conn.writeAll_ok hwrites ([0, 0, 0, 0x25, 0x14, 0] ++
    "d1:md11:ut_metadatai1e6:ut_pexi2eee".toUTF8.toList)
  unfold doExHandshake
  rw [hwrite]
  dsimp only
  rw [Conn.readExMessage_frame hlen (hincoming.trans hconn)]
  dsimp only
  rw [if_neg (by simp [hid]), hroot]
  dsimp only
  rw [if_neg (not_not.2 hsize), if_neg (not_not.2 hut)]
  refine ⟨_, _, rfl, ?_, rfl, hleft⟩
  have hmax : (maxMetadataSize : Int) = 10485760 := rfl
  rw [UInt64.ofInt, UInt64.toNat_ofNat']
  omega

/-! ## Two pieces -/

/-- A metadata of one byte more than a piece. -/
def twoPieces : Bytes := List.replicate 16385 0

/-- The handshake `d1:md11:ut_metadatai1ee13:metadata_sizei16385ee`. -/
def twoPiecesHandshake : ExMessage where
  id := 0
  payload := ascii "d1:md11:ut_metadatai1ee13:metadata_sizei16385ee"

/-- The dictionary in front of a piece. -/
def pieceDict : Nat → Bytes
  | 0 => ascii "d8:msg_typei1e5:piecei0ee"
  | _ => ascii "d8:msg_typei1e5:piecei1ee"

/-- Packages that decode the messages of the sample. -/
def twoPiecesPackages : Packages :=
  { samplePackages with
    unmarshalRootDict := fun b =>
      if b = twoPiecesHandshake.payload then .ok ⟨⟨1, 0⟩, 16385⟩ else .error "syntax error"
    decodeExtDict := fun b =>
      if b.take 25 = pieceDict 0 then .ok (⟨1, 0⟩, b.drop 25)
      else if b.take 25 = pieceDict 1 then .ok (⟨1, 1⟩, b.drop 25)
      else .error "syntax error" }

/-- The message that delivers a piece. -/
def pieceMessage (i : Nat) : Bytes × Option Nat :=
  (20 :: 1 :: (pieceDict i ++ block 16384 twoPieces i), some i)

theorem doExHandshake_twoPieces : ∃ (conn conn' : Conn) (c : Client),
    (newClient (List.replicate 20 7) []).doExHandshake twoPiecesPackages conn = .ok (c, conn') ∧
      c.metadataSize.toNat = twoPieces.length := by
  obtain ⟨c, conn', h, hsize, -, -⟩ := @doExHandshake_announced twoPiecesPackages (List.replicate 20 7) []
    { sampleConn with incoming := twoPiecesHandshake.frame } twoPiecesHandshake ⟨⟨1, 0⟩, 16385⟩ []
    (by decide) rfl (by decide) (by simp) rfl (by decide) (by decide)
  refine ⟨_, conn', c, h, hsize.trans ?_⟩
  rw [twoPieces, List.length_replicate]
  rfl

theorem decode_pieceMessage {i : Nat} (hi : i < 2) (rest : Bytes) :
    twoPiecesPackages.decodeExtDict (pieceDict i ++ rest) = .ok (⟨1, .ofNat i⟩, rest) := by
  match i, hi with
  | 0, _ => rfl
  | 1, _ => rfl

theorem length_pieceMessage_le (i : Nat) : (pieceMessage i).1.length ≤ 16411 := by
  have hdict : (pieceDict i).length ≤ 25 := by
    unfold pieceDict
    split
    · decide
    · decide
  have hblock := length_block 16384 twoPieces i
  simp only [pieceMessage, List.length_cons, List.length_append]
  omega

/-- The two pieces are sent in either order. -/
theorem honestPeer_twoPieces {order : List Nat} (horder : order.Perm [0, 1]) :
    HonestPeer twoPiecesPackages twoPieces (order.map pieceMessage) := by
  have hlength : twoPieces.length = 16385 := List.length_replicate
  have hcount : count 16384 twoPieces.length = 2 := by
    rw [hlength]
    rfl
  have hlt : ∀ i ∈ order, i < 2 := fun i hi => by
    have := horder.mem_iff.1 hi
    simp only [List.mem_cons, List.not_mem_nil, or_false] at this
    omega
  refine ⟨?_, ?_, ?_⟩
  · rw [List.forall_mem_map]
    intro i hi
    exact .data (by rw [hcount]; exact hlt i hi) (decode_pieceMessage (hlt i hi) _)
  · rw [List.forall_mem_map]
    exact fun i _ => (length_pieceMessage_le i).trans_lt (by decide)
  · rw [hcount]
    have hindices : Deliveries.indices (order.map pieceMessage) = order := by
      simp [Deliveries.indices, pieceMessage, List.filterMap_map, Function.comp_def]
    rw [hindices]
    exact horder

/-- The second piece is short. If it comes first, the client gives up on an honest peer. -/
theorem receiveLoop_rejects_short_piece : ∃ (conn conn' peer : Conn) (c : Client),
    (newClient (List.replicate 20 7) []).doExHandshake twoPiecesPackages conn = .ok (c, conn') ∧
    c.metadataSize.toNat = twoPieces.length ∧
    HonestPeer twoPiecesPackages twoPieces ([1, 0].map pieceMessage) ∧
    peer.incoming = Deliveries.stream ([1, 0].map pieceMessage) ∧
    ∃ c' err, c.receiveLoop twoPiecesPackages peer = .onError c' err := by
  obtain ⟨conn, conn', c, h, hsize⟩ := doExHandshake_twoPieces
  have hpeer := honestPeer_twoPieces (.swap 0 1 [])
  let peer : Conn := { sampleConn with incoming := Deliveries.stream ([1, 0].map pieceMessage) }
  have hconn : peer.incoming = Deliveries.stream ([1, 0].map pieceMessage) ++ [] :=
    (List.append_nil _).symm
  refine ⟨conn, conn', peer, c, h, hsize, hpeer, rfl, ?_⟩
  rcases receiveLoop_honest h hsize hpeer hconn with ⟨⟨-, hlast⟩, -⟩ | ⟨-, herr⟩
  · have hnil := hlast [] 1 [0] rfl (by rw [twoPieces, List.length_replicate]; decide)
    cases hnil
  · exact herr

theorem receiveLoop_assembles_iff_in_order :
    ∃ (peer : Conn) (c c' : Client), c.receiveLoop twoPiecesPackages peer = .ok c' ∧
      c'.metadata = twoPieces := by
  obtain ⟨conn, conn', c, h, hsize⟩ := doExHandshake_twoPieces
  have hpeer := honestPeer_twoPieces (.refl [0, 1])
  let peer : Conn := { sampleConn with incoming := Deliveries.stream ([0, 1].map pieceMessage) }
  have hconn : peer.incoming = Deliveries.stream ([0, 1].map pieceMessage) ++ [] :=
    (List.append_nil _).symm
  refine ⟨peer, c, (receiveLoop_assembles_iff h hsize hpeer hconn).2 ⟨?_, ?_⟩⟩
  · have hfits : ∀ m ∈ [0, 1].map pieceMessage, fits m = true := by
      rw [List.forall_mem_map]
      exact fun i _ => decide_eq_true ((length_pieceMessage_le i).trans (by decide))
    rw [Deliveries.InTime, Deliveries.unread, List.dropWhile_eq_nil_iff.2 hfits]
    rfl
  · intro pre i post heq hshort
    rw [twoPieces, List.length_replicate] at hshort
    match pre, heq with
    | [], heq =>
      cases heq
      exact absurd hshort (by decide)
    | [_], heq =>
      cases heq
      rfl
    | _ :: _ :: pre, heq =>
      cases pre <;> cases heq

end Client

end DhtClient
