-- SUMMARY: The loop of drainFlush: what each round does to the queue, and exactly when every round makes progress, so that the loop ends.
import LazyDhtc.Cluster.Flush
import LazyDhtc.Lib.Loop
import LazyDhtc.Lib.Unicode

/-!
# Draining the queue

`drainFlush` calls `Flush` until the queue is empty or `Flush` fails. `Flush` also returns
no error when it has not sent anything, and when the master has acknowledged records that
the queue does not have: then the next round finds the queue as it was.
-/

namespace Cluster

open DhtClient Json

namespace WorkerQueue

/-! ## The loop -/

/-- `Flush`, given what comes of its request: a response, or none if the request cannot be
    built or sent. -/
def flushWith (q : WorkerQueue) (outcome : Option Response) : WorkerQueue × Option FlushError :=
  match q.flushRequest with
  | none => (q, none)
  | some _ =>
    match outcome with
    | none => (q, some .transport)
    | some resp => q.flushResponse resp

/-- One iteration of the loop of `drainFlush`, its test included. -/
def drainRound (outcome : Option Response) (q : WorkerQueue) : Loop.Position WorkerQueue :=
  if 0 < q.items.length then
    match q.flushWith outcome with
    | (q, some _) => .left q
    | (q, none) => .head q
  else .left q

/-- `drainFlush` after some iterations; `outcomes n` is what comes of the request of
    iteration `n`. -/
def drainFlush (outcomes : Nat → Option Response) (q : WorkerQueue) (n : Nat) :
    Loop.Position WorkerQueue :=
  Loop.run (fun n => drainRound (outcomes n)) q n

/-- Each iteration from a queue with records removes one at least or leaves the loop, and
    after at most as many rounds as there are records the loop is left or the queue empty. -/
structure DrainTerminates (outcomes : Nat → Option Response) (q : WorkerQueue) : Prop where
  progress : ∀ n q₁ q₂, q.drainFlush outcomes n = .head q₁ → q₁.items ≠ [] →
    q.drainFlush outcomes (n + 1) = .head q₂ → q₂.items.length < q₁.items.length
  ends : ∃ n ≤ q.items.length, (∃ q', q.drainFlush outcomes n = .left q') ∨
    ∃ q', q.drainFlush outcomes n = .head q' ∧ q'.items = []

/-! ## Rounds -/

/-- The IDs of an ack that `Flush` passes on to `Ack`. -/
def acceptedIDs (outcome : Option Response) : Option (List UInt64) :=
  match outcome with
  | none => none
  | some resp =>
    if resp.status / 100 ≠ 2 then none
    else
      match (readValue resp.body true).bind decodeAck with
      | none => none
      | some ack => if ack.ids = [] then none else some ack.ids

/-- `flush` is `flushWith` for the response of the master's own handler. -/
theorem flush_eq_flushWith (q : WorkerQueue) (token : Bytes) :
    q.flush token = q.flushWith
      ((q.flushRequest.bind Request.transmit).map fun req => (masterFlushHandler token req).2) := by
  unfold flush flushWith
  cases q.flushRequest with
  | none => rfl
  | some req =>
    cases h : req.transmit with
    | none => simp [h]
    | some sent => simp [h]

theorem flushResponse_cases (q : WorkerQueue) (resp : Response) :
    (∃ ids, acceptedIDs (some resp) = some ids ∧ q.flushResponse resp = ((q.ack ids).1, none)) ∨
    (acceptedIDs (some resp) = none ∧ ∃ e, q.flushResponse resp = (q, some e)) := by
  simp only [acceptedIDs, flushResponse]
  by_cases hstatus : resp.status / 100 ≠ 2
  · exact .inr ⟨if_pos hstatus, _, if_pos hstatus⟩
  · rw [if_neg hstatus, if_neg hstatus]
    cases (readValue resp.body true).bind decodeAck with
    | none => exact .inr ⟨rfl, _, rfl⟩
    | some ack =>
      by_cases hids : ack.ids = []
      · exact .inr ⟨if_pos hids, _, if_pos hids⟩
      · exact .inl ⟨ack.ids, if_neg hids, if_neg hids⟩

/-- Without a master's URL a round finds nothing to do and reports no error. -/
theorem drainRound_of_no_url {q : WorkerQueue} (hitems : q.items ≠ []) (hurl : q.masterURL = [])
    (outcome : Option Response) : drainRound outcome q = .head q := by
  have hbatch : (q.batch q.flushBatchSize).items ≠ [] := batch_items_ne_nil hitems _
  have hrequest : q.flushRequest = none := by
    rw [flushRequest, if_neg hbatch, if_pos (.inl hurl)]
  simp only [drainRound, flushWith, hrequest, List.length_pos_of_ne_nil hitems, if_true]

/-- With a master, a round acknowledges what an accepted ack names, and ends the loop
    otherwise. -/
theorem drainRound_cases {q : WorkerQueue} (hitems : q.items ≠ []) (hurl : q.masterURL ≠ [])
    (htoken : q.clusterToken ≠ []) (outcome : Option Response) :
    (∃ ids, acceptedIDs outcome = some ids ∧ drainRound outcome q = .head (q.ack ids).1) ∨
    (acceptedIDs outcome = none ∧ drainRound outcome q = .left q) := by
  simp only [drainRound, flushWith, flushRequest_eq hitems hurl htoken,
    List.length_pos_of_ne_nil hitems, if_true]
  cases outcome with
  | none => exact .inr ⟨rfl, rfl⟩
  | some resp =>
    rcases q.flushResponse_cases resp with ⟨ids, hids, h⟩ | ⟨hids, e, h⟩
    · exact .inl ⟨ids, hids, by simp only [h]⟩
    · exact .inr ⟨hids, by simp only [h]⟩

theorem ack_masterURL (q : WorkerQueue) (ids : List UInt64) :
    (q.ack ids).1.masterURL = q.masterURL := by
  simp only [ack]
  split_ifs <;> rfl

theorem ack_clusterToken (q : WorkerQueue) (ids : List UInt64) :
    (q.ack ids).1.clusterToken = q.clusterToken := by
  simp only [ack]
  split_ifs <;> rfl

/-! ## What is left of the queue -/

/-- The records that no ack before round `n` names. -/
def unnamed (outcomes : Nat → Option Response) (q : WorkerQueue) : Nat → List Record
  | 0 => q.items
  | n + 1 => (q.unnamed outcomes n).filter fun r => r.id ∉ (acceptedIDs (outcomes n)).getD []

/-- Every accepted ack names a record that the queue still has: as long as all outcomes
    are accepted acks and some record has not been named, the next ack names one. -/
def AcksName (outcomes : Nat → Option Response) (q : WorkerQueue) : Prop :=
  ∀ n ids, (∀ m < n, (acceptedIDs (outcomes m)).isSome) → q.unnamed outcomes n ≠ [] →
    acceptedIDs (outcomes n) = some ids → ∃ r ∈ q.unnamed outcomes n, r.id ∈ ids

theorem unnamed_ne_nil {outcomes : Nat → Option Response} {q : WorkerQueue} {m n : Nat}
    (hmn : m ≤ n) (h : q.unnamed outcomes n ≠ []) : q.unnamed outcomes m ≠ [] := by
  induction n with
  | zero => rwa [Nat.le_zero.1 hmn]
  | succ n ih =>
    rcases Nat.lt_or_eq_of_le hmn with hlt | rfl
    · refine ih (Nat.le_of_lt_succ hlt) fun hnil => h ?_
      rw [unnamed, hnil, List.filter_nil]
    · exact h

theorem unnamed_subset (outcomes : Nat → Option Response) (q : WorkerQueue) (n : Nat) :
    ∀ r ∈ q.unnamed outcomes n, r ∈ q.items := by
  induction n with
  | zero => exact fun r hr => hr
  | succ n ih => exact fun r hr => ih r (List.mem_of_mem_filter hr)

variable {outcomes : Nat → Option Response} {q : WorkerQueue}

/-- A queue as it is at the head of the loop after `n` rounds with accepted acks. -/
structure AtHead (outcomes : Nat → Option Response) (q : WorkerQueue) (n : Nat)
    (q' : WorkerQueue) : Prop where
  items : q'.items = q.unnamed outcomes n
  masterURL : q'.masterURL = q.masterURL
  clusterToken : q'.clusterToken = q.clusterToken

theorem AtHead.ack {n : Nat} {q' : WorkerQueue} (h : AtHead outcomes q n q') {ids : List UInt64}
    (hids : acceptedIDs (outcomes n) = some ids) : AtHead outcomes q (n + 1) (q'.ack ids).1 where
  items := by rw [ack_items, h.items, unnamed, hids, Option.getD_some]
  masterURL := (ack_masterURL q' ids).trans h.masterURL
  clusterToken := (ack_clusterToken q' ids).trans h.clusterToken

/-- The next round, where there is a master and a record. -/
theorem AtHead.round {n : Nat} {q' : WorkerQueue} (h : AtHead outcomes q n q')
    (hurl : q.masterURL ≠ []) (htoken : q.clusterToken ≠ []) (hitems : q'.items ≠ []) :
    (∃ ids, acceptedIDs (outcomes n) = some ids ∧
      drainRound (outcomes n) q' = .head (q'.ack ids).1) ∨
    (acceptedIDs (outcomes n) = none ∧ drainRound (outcomes n) q' = .left q') :=
  drainRound_cases hitems (by rwa [h.masterURL]) (by rwa [h.clusterToken]) (outcomes n)

/-- The loop reaches the head again as long as acks are accepted, with the records that
    have not been named. -/
theorem drainFlush_head_of_accepted (hurl : q.masterURL ≠ []) (htoken : q.clusterToken ≠ [])
    {n : Nat} (hacks : ∀ m < n, (acceptedIDs (outcomes m)).isSome)
    (hleft : q.unnamed outcomes n ≠ []) :
    ∃ q', q.drainFlush outcomes n = .head q' ∧ AtHead outcomes q n q' := by
  induction n with
  | zero => exact ⟨q, rfl, rfl, rfl, rfl⟩
  | succ n ih =>
    have hbefore := unnamed_ne_nil (Nat.le_succ n) hleft
    obtain ⟨q', hhead, hat⟩ := ih (fun m hm => hacks m (Nat.lt_succ_of_lt hm)) hbefore
    rcases hat.round hurl htoken (by rwa [hat.items]) with ⟨ids, hids, hround⟩ | ⟨hnone, -⟩
    · exact ⟨(q'.ack ids).1, (Loop.run_succ_of_head hhead).trans hround, hat.ack hids⟩
    · have hsome := hacks n (Nat.lt_succ_self n)
      rw [hnone] at hsome
      cases hsome

/-- At its head, the loop has the records that have not been named, and has had nothing
    but accepted acks. -/
theorem drainFlush_head (hurl : q.masterURL ≠ []) (htoken : q.clusterToken ≠ []) {n : Nat}
    {q' : WorkerQueue} (h : q.drainFlush outcomes n = .head q') :
    (∀ m < n, (acceptedIDs (outcomes m)).isSome) ∧ AtHead outcomes q n q' := by
  induction n generalizing q' with
  | zero =>
    cases h
    exact ⟨fun m hm => absurd hm (Nat.not_lt_zero m), rfl, rfl, rfl⟩
  | succ n ih =>
    obtain ⟨q₁, hhead, hround⟩ := Loop.head_of_head_succ h
    obtain ⟨hacks, hat⟩ := ih hhead
    have hne : q₁.items ≠ [] := by
      intro hnil
      rw [drainRound, hnil, if_neg (by simp)] at hround
      cases hround
    rcases hat.round hurl htoken hne with ⟨ids, hids, hhead'⟩ | ⟨-, hleft⟩
    · rw [hhead'] at hround
      cases hround
      refine ⟨fun m hm => ?_, hat.ack hids⟩
      rcases Nat.lt_or_eq_of_le (Nat.le_of_lt_succ hm) with hlt | rfl
      · exact hacks m hlt
      · rw [hids, Option.isSome_some]
    · rw [hleft] at hround
      cases hround

/-! ## Termination -/

/-- A loop that makes progress ends in time. -/
theorem DrainTerminates.of_progress
    (h : ∀ n q₁ q₂, q.drainFlush outcomes n = .head q₁ → q₁.items ≠ [] →
      drainRound (outcomes n) q₁ = .head q₂ → q₂.items.length < q₁.items.length) :
    q.DrainTerminates outcomes := by
  have hprogress : Loop.Progresses (fun n => drainRound (outcomes n))
      (fun q => q.items.length) q :=
    fun n q₁ q₂ hhead hpos hround => h n q₁ q₂ hhead (List.ne_nil_of_length_pos hpos) hround
  refine ⟨fun n q₁ q₂ hhead hne hnext => ?_, ?_⟩
  · exact h n q₁ q₂ hhead hne ((Loop.run_succ_of_head hhead).symm.trans hnext)
  · obtain ⟨n, hn, hend⟩ := hprogress.ends
    refine ⟨n, hn, hend.imp_right ?_⟩
    rintro ⟨q', hhead, hzero⟩
    exact ⟨q', hhead, List.length_eq_zero_iff.1 hzero⟩

theorem DrainTerminates.of_no_items (h : q.items = []) : q.DrainTerminates outcomes := by
  refine .of_progress fun n q₁ q₂ hhead hne hround => ?_
  cases n with
  | zero => cases hhead; exact absurd h hne
  | succ n =>
    -- the first iteration has left the loop
    have hleft : ∀ n, q.drainFlush outcomes (n + 1) = .left q := by
      intro n
      induction n with
      | zero =>
        refine (Loop.run_succ_of_head rfl).trans ?_
        rw [drainRound, h, if_neg (by simp)]
      | succ n ih => exact Loop.run_succ_of_left ih
    rw [hleft] at hhead
    cases hhead

theorem DrainTerminates.of_acks (hurl : q.masterURL ≠ []) (htoken : q.clusterToken ≠ [])
    (h : q.AcksName outcomes) : q.DrainTerminates outcomes := by
  refine .of_progress fun n q₁ q₂ hhead hne hround => ?_
  obtain ⟨hacks, hat⟩ := drainFlush_head hurl htoken hhead
  rcases hat.round hurl htoken hne with ⟨ids, hids, hhead'⟩ | ⟨-, hleft⟩
  · rw [hhead'] at hround
    cases hround
    obtain ⟨r, hr, hid⟩ := h n ids hacks (by rwa [← hat.items]) hids
    exact length_ack_lt (by rwa [hat.items]) hid
  · rw [hleft] at hround
    cases hround

/-- Without a master's URL the loop never makes progress. -/
theorem drainFlush_of_no_url (hitems : q.items ≠ []) (hurl : q.masterURL = []) (n : Nat) :
    q.drainFlush outcomes n = .head q :=
  Loop.run_const (fun m => drainRound_of_no_url hitems hurl (outcomes m)) n

theorem DrainTerminates.url_ne_nil (h : q.DrainTerminates outcomes) (hitems : q.items ≠ []) :
    q.masterURL ≠ [] := by
  intro hurl
  exact Nat.lt_irrefl _ (h.progress 0 q q rfl hitems (drainFlush_of_no_url hitems hurl 1))

theorem DrainTerminates.acksName (h : q.DrainTerminates outcomes) (hurl : q.masterURL ≠ [])
    (htoken : q.clusterToken ≠ []) : q.AcksName outcomes := by
  intro n ids hacks hleft hids
  obtain ⟨q₁, hhead, hat⟩ := drainFlush_head_of_accepted hurl htoken hacks hleft
  have hne : q₁.items ≠ [] := by rwa [hat.items]
  rcases hat.round hurl htoken hne with ⟨ids', hids', hround⟩ | ⟨hnone, -⟩
  · obtain rfl : ids' = ids := Option.some.inj (hids'.symm.trans hids)
    have hlt := h.progress n q₁ _ hhead hne ((Loop.run_succ_of_head hhead).trans hround)
    rw [ack_items] at hlt
    obtain ⟨r, hr, hid⟩ := List.length_filter_lt_length_iff_exists.1 hlt
    exact ⟨r, hat.items ▸ hr, by simpa using hid⟩
  · rw [hnone] at hids
    cases hids

/-- The settings with which `runWorker` calls `SetMaster`. -/
def PushMode (url token : Bytes) : Prop := Unicode.trimSpace token ≠ [] ∧ url ≠ []

theorem PushMode.token_ne_nil {url token : Bytes} (h : PushMode url token) : token ≠ [] := by
  rintro rfl
  exact h.1 rfl

/-- The loop of `drainFlush` ends in time exactly when the queue is empty, or the URL has
    more than slashes and every accepted ack names a record that the queue still has. -/
theorem drainFlush_terminates_iff {url token : Bytes} (h : PushMode url token)
    (q : WorkerQueue) (outcomes : Nat → Option Response) :
    (q.setMaster url token).DrainTerminates outcomes ↔
      q.items = [] ∨ (∃ b ∈ url, b ≠ 0x2F) ∧ (q.setMaster url token).AcksName outcomes := by
  have htoken : (q.setMaster url token).clusterToken ≠ [] := h.token_ne_nil
  have hurl : (q.setMaster url token).masterURL ≠ [] ↔ ∃ b ∈ url, b ≠ 0x2F := by
    simp [setMaster, List.rdropWhile_eq_nil_iff]
  constructor
  · intro hterm
    by_cases hitems : q.items = []
    · exact .inl hitems
    · have hne := hterm.url_ne_nil hitems
      exact .inr ⟨hurl.1 hne, hterm.acksName hne htoken⟩
  · rintro (hitems | ⟨hslashes, hacks⟩)
    · exact .of_no_items hitems
    · exact .of_acks (hurl.2 hslashes) htoken hacks

theorem pushMode_secret {url : Bytes} (h : url ≠ []) : PushMode url (ascii "secret") :=
  ⟨by decide +kernel, h⟩

theorem acceptedIDs_okJson {id : UInt64} (ids : List UInt64) :
    acceptedIDs (some (okJson (encodeAck ⟨id :: ids⟩))) = some (id :: ids) := by
  have hdecode : (readValue (okJson (encodeAck ⟨id :: ids⟩)).body true).bind decodeAck =
      some ⟨id :: ids⟩ := decode_okJson_ack _
  have hstatus : ¬ (okJson (encodeAck ⟨id :: ids⟩)).status / 100 ≠ 2 := by simp [okJson]
  simp [acceptedIDs, hstatus, hdecode]

/-- The queue of a worker with one record, for a master at some URL. -/
def oneRecord (url : Bytes) : WorkerQueue :=
  (pushQueue (torrentNamed (ascii "a.iso"))).setMaster url (ascii "secret")

theorem items_oneRecord (url : Bytes) :
    (oneRecord url).items = [⟨1, torrentNamed (ascii "a.iso")⟩] := rfl

/-- The master acknowledges the only record of the queue. -/
theorem drainFlush_terminates_iff_one :
    (oneRecord (ascii "http://master")).DrainTerminates
      fun _ => some (okJson (encodeAck ⟨[1]⟩)) := by
  refine (drainFlush_terminates_iff (pushMode_secret (by decide +kernel)) _ _).2
    (.inr ⟨by decide +kernel, fun n ids _ hleft hids => ?_⟩)
  obtain rfl : [1] = ids := Option.some.inj ((acceptedIDs_okJson []).symm.trans hids)
  obtain ⟨r, hr⟩ := List.exists_mem_of_ne_nil _ hleft
  have hmem := unnamed_subset _ _ n r hr
  change r ∈ (oneRecord (ascii "http://master")).items at hmem
  rw [items_oneRecord, List.mem_singleton] at hmem
  exact ⟨r, hr, by simp [hmem]⟩

/-- The URL "/" is none after `TrimRight`, and an ack may name IDs that the queue does not
    have: the loop never ends. -/
theorem drainFlush_spins :
    PushMode (ascii "/") (ascii "secret") ∧ PushMode (ascii "http://master") (ascii "secret") ∧
    (∀ outcomes, ¬ (oneRecord (ascii "/")).DrainTerminates outcomes) ∧
    ¬ (oneRecord (ascii "http://master")).DrainTerminates
      fun _ => some (okJson (encodeAck ⟨[7]⟩)) := by
  have hitems : ∀ url, (oneRecord url).items ≠ [] := fun url => by simp [items_oneRecord]
  have hmaster : (oneRecord (ascii "http://master")).masterURL ≠ [] := by
    rw [oneRecord, setMaster]
    exact show (ascii "http://master").rdropWhile (· = 0x2F) ≠ [] by decide +kernel
  refine ⟨pushMode_secret (by decide +kernel), pushMode_secret (by decide +kernel),
    fun outcomes h => ?_, fun h => ?_⟩
  · exact h.url_ne_nil (hitems _) (by simp [oneRecord, setMaster, ascii])
  · obtain ⟨r, hr, hid⟩ := h.acksName hmaster (by simp [oneRecord, setMaster, ascii]) 0 [7]
      (fun m hm => absurd hm (Nat.not_lt_zero m)) (hitems _) (acceptedIDs_okJson [])
    rw [unnamed, items_oneRecord, List.mem_singleton] at hr
    rw [hr] at hid
    exact absurd hid (by decide)

end WorkerQueue

end Cluster
