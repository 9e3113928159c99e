-- SUMMARY: Which get_peers query a result belongs to: the history of a service, and what an answer with a transaction ID of another length does.
import LazyDhtc.DhtClient.Requests

/-!
# Attribution of results

A history records what becomes of each query: it is entered into the table, sent, rolled
back, expired, or answered. The table agrees with the history, but it is looked up with the
first two bytes of whatever transaction ID an answer has.
-/

namespace DhtClient

/-! ## Histories -/

inductive RequestEvent where
  /-- `requestPeers` has entered a query -/
  | entered (t : TransactionID) (infoHash : Bytes)
  /-- `SendMessage` has taken the query -/
  | sent (t : TransactionID)
  | rolledBack (t : TransactionID)
  | expired (t : TransactionID)
  /-- a response, the query whose entry it has removed, and the call of `OnResult` -/
  | response (msgT : Bytes) (answered : Option TransactionID) (result : Option Result)

/-- The event is the end of the query with that ID. -/
def RequestEvent.Ends (t : TransactionID) : RequestEvent → Prop
  | .rolledBack t' => t' = t
  | .expired t' => t' = t
  | .response _ answered _ => answered = some t
  | _ => False

/-- The last query with that ID was for the info hash, it was sent, and neither a response
    nor anything else has ended it. -/
def Outstanding (log : List RequestEvent) (t : TransactionID) (infoHash : Bytes) : Prop :=
  ∃ past since, log = past ++ .entered t infoHash :: since ∧ .sent t ∈ since ∧
    ∀ e ∈ since, ¬ e.Ends t ∧ ∀ infoHash', e ≠ .entered t infoHash'

/-- The two bytes in which a query carries its ID. -/
def TransactionID.bytes (t : TransactionID) : Bytes := [t.1, t.2]

/-- Every call of `OnResult` answers an outstanding query byte for byte, with the info hash of
    that query. -/
def Attributed (log : List RequestEvent) : Prop :=
  ∀ past msgT answered result since,
    log = past ++ .response msgT answered (some result) :: since →
    ∃ t, answered = some t ∧ msgT = t.bytes ∧ Outstanding past t result.infoHash

/-! ## The system -/

def addressFamily (network : Bytes) : Int64 := if network = ascii "udp6" then 6 else 4

/-- The end of `onGetPeersResponse`: the call of `OnResult` for an answered entry. -/
def onResult (network : Bytes) (entry : GetPeersEntry) (values : List AddrPort) : Option Result :=
  if values.length = 0 then none
  else some ⟨entry.infoHash, values.filter fun a => a.isValid && a.port ≠ 0, addressFamily network⟩

/-- The queries that are no longer in the table. -/
def expiredEvents (s s' : Requests) : List RequestEvent :=
  (s.getPeersRequests.keys.filter fun t => (s'.getPeersRequests.lookup t).isNone).map .expired

/-- What a step adds to the history, when a response has these values. -/
def requestEvents (network : Bytes) (values : List AddrPort) (s s' : RequestsState) :
    RequestsAction → List RequestEvent
  | .requestPeers infoHash now order =>
    expiredEvents s.requests (s.requests.expireOldGetPeersRequestsLocked now order) ++
      match s'.sending with
      | some t => [.entered t infoHash]
      | none => []
  | .sent =>
    match s.sending with
    | some t => [.sent t]
    | none => []
  | .refused =>
    match s.sending with
    | some t => [.rolledBack t]
    | none => []
  | .response msgT =>
    match (s.requests.onGetPeersResponseLocked msgT).2 with
    | some entry =>
      [.response msgT (some (TransactionID.ofBytes msgT)) (onResult network entry values)]
    | none => [.response msgT none none]
  | .expire _ _ => expiredEvents s.requests s'.requests

structure AttributionState where
  core : RequestsState
  log : List RequestEvent

/-- The table of a service on some network with its history. A label has the values of the
    response that is handled. -/
def attributionSystem (network : Bytes) :
    Transition.System AttributionState (RequestsAction × List AddrPort) where
  init s := s = ⟨⟨newRequests, none⟩, []⟩
  step s a s' := RequestsStep s.core a.1 s'.core ∧
    s'.log = s.log ++ requestEvents network a.2 s.core s'.core a.1

/-- A response is told apart by its first two bytes only if it has no others and no fewer:
    one that hits an entry has an ID of two bytes. -/
def TwoByteIDs (s : AttributionState) (a : RequestsAction × List AddrPort) : Prop :=
  ∀ msgT, a.1 = .response msgT →
    (s.core.requests.getPeersRequests.lookup (TransactionID.ofBytes msgT)).isSome →
    msgT.length = 2

/-! ## The table and the history -/

/-- The query with that ID after an event: its info hash, and whether it has been sent. -/
def RequestEvent.track (t : TransactionID) (query : Option (Bytes × Bool)) :
    RequestEvent → Option (Bytes × Bool)
  | .entered t' infoHash => if t' = t then some (infoHash, false) else query
  | .sent t' => if t' = t then query.map fun q => (q.1, true) else query
  | .rolledBack t' => if t' = t then none else query
  | .expired t' => if t' = t then none else query
  | .response _ answered _ => if answered = some t then none else query

def openQuery (log : List RequestEvent) (t : TransactionID) : Option (Bytes × Bool) :=
  log.foldl (RequestEvent.track t) none

theorem openQuery_append (log log' : List RequestEvent) (t : TransactionID) :
    openQuery (log ++ log') t = log'.foldl (RequestEvent.track t) (openQuery log t) :=
  List.foldl_append

/-- An open query is the last one with its ID, and nothing has ended it. -/
theorem openQuery_spec {log : List RequestEvent} {t : TransactionID} {infoHash : Bytes}
    {wasSent : Bool} (h : openQuery log t = some (infoHash, wasSent)) :
    ∃ past since, log = past ++ .entered t infoHash :: since ∧ (wasSent = true → .sent t ∈ since) ∧
      ∀ e ∈ since, ¬ e.Ends t ∧ ∀ infoHash', e ≠ .entered t infoHash' := by
  induction log using List.reverseRecOn generalizing wasSent with
  | nil => cases h
  | append_singleton log e ih =>
    rw [openQuery_append, List.foldl_cons, List.foldl_nil] at h
    -- an event that is not about `t` extends what has happened since
    have hother : openQuery log t = some (infoHash, wasSent) →
        (¬ e.Ends t ∧ ∀ infoHash', e ≠ .entered t infoHash') →
        ∃ past since, log ++ [e] = past ++ .entered t infoHash :: since ∧
          (wasSent = true → .sent t ∈ since) ∧
          ∀ e ∈ since, ¬ e.Ends t ∧ ∀ infoHash', e ≠ .entered t infoHash' := by
      intro hopen he
      obtain ⟨past, since, rfl, hsent, hsince⟩ := ih hopen
      refine ⟨past, since ++ [e], by simp, fun hw => List.mem_append_left _ (hsent hw), ?_⟩
      intro e' he'
      rcases List.mem_append.1 he' with he' | he'
      · exact hsince e' he'
      · rw [List.mem_singleton.1 he']
        exact he
    cases e with
    | entered t' infoHash' =>
      simp only [RequestEvent.track] at h
      split_ifs at h with ht
      · cases h
        subst ht
        exact ⟨log, [], rfl, by simp, by simp⟩
      · refine hother h ⟨by simp [RequestEvent.Ends], ?_⟩
        intro infoHash' heq
        cases heq
        exact ht rfl
    | sent t' =>
      simp only [RequestEvent.track] at h
      split_ifs at h with ht
      · subst ht
        obtain ⟨⟨infoHash', b⟩, hopen, heq⟩ := Option.map_eq_some_iff.1 h
        cases heq
        obtain ⟨past, since, rfl, -, hsince⟩ := ih hopen
        refine ⟨past, since ++ [.sent t'], by simp, fun _ => by simp, ?_⟩
        intro e' he'
        rcases List.mem_append.1 he' with he' | he'
        · exact hsince e' he'
        · rw [List.mem_singleton.1 he']
          exact ⟨by simp [RequestEvent.Ends], by simp⟩
      · exact hother h ⟨by simp [RequestEvent.Ends], by simp⟩
    | rolledBack t' | expired t' =>
      simp only [RequestEvent.track] at h
      split_ifs at h with ht
      exact hother h ⟨ht, by simp⟩
    | response msgT answered result =>
      simp only [RequestEvent.track] at h
      split_ifs at h with ht
      exact hother h ⟨ht, by simp⟩

theorem openQuery_expired (log : List RequestEvent) (ts : List TransactionID)
    (t : TransactionID) :
    openQuery (log ++ ts.map .expired) t = if t ∈ ts then none else openQuery log t := by
  rw [openQuery_append]
  generalize openQuery log t = query
  induction ts generalizing query with
  | nil => rfl
  | cons t' ts ih =>
    rw [List.map_cons, List.foldl_cons, ih]
    by_cases ht : t = t'
    · simp [RequestEvent.track, ht]
    · simp [RequestEvent.track, ht, Ne.symm ht]

/-- The table has an entry for each open query, and one that is not yet sent is being sent. -/
structure Tracked (s : AttributionState) : Prop where
  inv : s.core.requests.Inv
  table : ∀ t, (openQuery s.log t).map Prod.fst =
    (s.core.requests.getPeersRequests.lookup t).map GetPeersEntry.infoHash
  sending : ∀ t infoHash, openQuery s.log t = some (infoHash, false) → s.core.sending = some t

/-- What the expiry of entries does to the open queries. -/
theorem Tracked.expire {s : AttributionState} (h : Tracked s) (now : Int)
    {order : List ((_ : TransactionID) × GetPeersEntry)}
    (horder : order.Perm s.core.requests.getPeersRequests.entries) :
    Tracked ⟨⟨s.core.requests.expireOldGetPeersRequestsLocked now order, s.core.sending⟩,
      s.log ++ expiredEvents s.core.requests
        (s.core.requests.expireOldGetPeersRequestsLocked now order)⟩ := by
  obtain ⟨hinv, hlookup⟩ := h.inv.expire now horder
  have hkeep : ∀ t, openQuery (s.log ++ expiredEvents s.core.requests
      (s.core.requests.expireOldGetPeersRequestsLocked now order)) t =
      if (s.core.requests.expireOldGetPeersRequestsLocked now order).getPeersRequests.lookup t = none
        then none else openQuery s.log t := by
    intro t
    rw [expiredEvents, openQuery_expired]
    simp only [List.mem_filter, Option.isNone_iff_eq_none]
    by_cases hkey : t ∈ s.core.requests.getPeersRequests.keys
    · simp only [hkey, true_and]
    · have hnone : s.core.requests.getPeersRequests.lookup t = none := AList.lookup_eq_none.2 hkey
      have hopen := h.table t
      rw [hnone, Option.map_none, Option.map_eq_none_iff] at hopen
      simp [hkey, hopen]
  refine ⟨hinv, fun t => ?_, fun t infoHash hopen => ?_⟩
  · rw [hkeep]
    cases he : (s.core.requests.expireOldGetPeersRequestsLocked now order).getPeersRequests.lookup t with
    | none => rfl
    | some e =>
      have hbefore := ((hlookup t e).1 he).1
      simpa [hbefore] using h.table t
  · rw [hkeep] at hopen
    split_ifs at hopen
    exact h.sending t infoHash hopen

/-- What the first section of `requestPeers` does to the table. -/
theorem requestPeersLocked_table {s s' : Requests} {infoHash : Bytes} {now : Int}
    {order : List ((_ : TransactionID) × GetPeersEntry)} {t : Option TransactionID}
    (h : s.requestPeersLocked infoHash now order = some (s', t)) :
    s'.getPeersRequests = match t with
      | none => (s.expireOldGetPeersRequestsLocked now order).getPeersRequests
      | some t => (s.expireOldGetPeersRequestsLocked now order).getPeersRequests.insert t
          ⟨infoHash, now⟩ := by
  unfold Requests.requestPeersLocked at h
  dsimp only at h
  split_ifs at h
  · cases h
    rfl
  · cases h
    rfl
  · split at h
    · cases h
    · cases h
      rfl

theorem lookup_rollback_eq (s : Requests) (t t' : TransactionID) :
    (s.rollbackLocked t).getPeersRequests.lookup t' =
      if t' = t then none else s.getPeersRequests.lookup t' := by
  unfold Requests.rollbackLocked
  cases ht : s.getPeersRequests.lookup t with
  | none =>
    dsimp only
    split_ifs with heq
    · rw [heq, ht]
    · rfl
  | some e => exact Requests.lookup_remove s t e t'

theorem RequestsStep.tracked {network : Bytes} {s s' : AttributionState}
    {a : RequestsAction × List AddrPort} (hstep : (attributionSystem network).step s a s')
    (h : Tracked s) : Tracked s' := by
  obtain ⟨⟨requests, sending⟩, log⟩ := s
  obtain ⟨core', log'⟩ := s'
  obtain ⟨hcore, hlog⟩ := hstep
  obtain ⟨a, values⟩ := a
  dsimp only at hcore hlog
  subst hlog
  have hinv := hcore.inv h.inv
  cases hcore with
  | @requestPeers s s' t infoHash now order horder hreq =>
    have htable := requestPeersLocked_table hreq
    have hexp := h.expire now horder
    simp only [requestEvents, ← List.append_assoc]
    cases t with
    | none =>
      rw [List.append_nil]
      refine ⟨hinv, fun t => ?_, hexp.sending⟩
      rw [htable]
      exact hexp.table t
    | some t₀ =>
      refine ⟨hinv, fun t => ?_, fun t infoHash' hopen => ?_⟩
      · rw [htable, openQuery_append, AList.lookup_insert_eq_ite]
        by_cases ht : t = t₀
        · simp [RequestEvent.track, ht]
        · simpa [RequestEvent.track, ht, Ne.symm ht] using hexp.table t
      · rw [openQuery_append] at hopen
        by_cases ht : t = t₀
        · rw [ht]
        · have hold : openQuery (log ++ expiredEvents requests
              (requests.expireOldGetPeersRequestsLocked now order)) t = some (infoHash', false) := by
            simpa [RequestEvent.track, Ne.symm ht] using hopen
          cases hexp.sending t infoHash' hold
  | @sent s t₀ =>
    refine ⟨hinv, fun t => ?_, fun t infoHash hopen => ?_⟩
    · simp only [requestEvents, openQuery_append, List.foldl_cons, List.foldl_nil,
        RequestEvent.track]
      rw [← h.table t]
      split_ifs
      · simp [Function.comp_def]
      · rfl
    · simp only [requestEvents, openQuery_append, List.foldl_cons, List.foldl_nil,
        RequestEvent.track] at hopen
      split_ifs at hopen with ht
      · obtain ⟨q, -, hq⟩ := Option.map_eq_some_iff.1 hopen
        cases hq
      · cases h.sending t infoHash hopen
        exact (ht rfl).elim
  | @refused s t₀ =>
    refine ⟨hinv, fun t => ?_, fun t infoHash hopen => ?_⟩
    · simp only [requestEvents, openQuery_append, List.foldl_cons, List.foldl_nil,
        RequestEvent.track, lookup_rollback_eq]
      by_cases ht : t = t₀
      · simp [ht]
      · simpa [ht, Ne.symm ht] using h.table t
    · simp only [requestEvents, openQuery_append, List.foldl_cons, List.foldl_nil,
        RequestEvent.track] at hopen
      split_ifs at hopen with ht
      cases h.sending t infoHash hopen
      exact (ht rfl).elim
  | @response s msgT =>
    cases he : requests.getPeersRequests.lookup (TransactionID.ofBytes msgT) with
    | none =>
      have hnone : requests.onGetPeersResponseLocked msgT = (requests, none) := by
        rw [Requests.onGetPeersResponseLocked, he]
      simp only [requestEvents, hnone]
      refine ⟨h.inv, fun t => ?_, fun t infoHash hopen => ?_⟩
      · rw [openQuery_append]
        simpa [RequestEvent.track] using h.table t
      · rw [openQuery_append] at hopen
        exact h.sending t infoHash (by simpa [RequestEvent.track] using hopen)
    | some e =>
      have hsome : requests.onGetPeersResponseLocked msgT =
          (requests.removeGetPeersRequestLocked (TransactionID.ofBytes msgT) e, some e) := by
        rw [Requests.onGetPeersResponseLocked, he]
      rw [hsome] at hinv
      simp only [requestEvents, hsome]
      refine ⟨hinv, fun t => ?_, fun t infoHash hopen => ?_⟩
      · rw [openQuery_append, Requests.lookup_remove]
        by_cases ht : t = TransactionID.ofBytes msgT
        · simp [RequestEvent.track, ht]
        · simpa [RequestEvent.track, ht, Ne.symm ht] using h.table t
      · rw [openQuery_append] at hopen
        simp only [List.foldl_cons, List.foldl_nil, RequestEvent.track] at hopen
        split_ifs at hopen
        exact h.sending t infoHash hopen
  | @expire s p now order horder => exact h.expire now horder

theorem tracked_of_reachable {network : Bytes} {s : AttributionState}
    (h : (attributionSystem network).Reachable s) : Tracked s := by
  refine Transition.System.invariant (P := Tracked) ?_ ?_ h
  · rintro _ rfl
    exact ⟨Requests.newRequests_inv, fun t => rfl, fun t infoHash hopen => by cases hopen⟩
  · intro s a s' _ hs hstep
    exact RequestsStep.tracked hstep hs

/-- While nothing is being sent, each entry of the table is for an outstanding query. -/
theorem Tracked.outstanding {s : AttributionState} (h : Tracked s) (hidle : s.core.sending = none)
    {t : TransactionID} {e : GetPeersEntry}
    (he : s.core.requests.getPeersRequests.lookup t = some e) :
    Outstanding s.log t e.infoHash := by
  have hopen := h.table t
  rw [he, Option.map_some] at hopen
  obtain ⟨⟨infoHash, wasSent⟩, hquery, heq⟩ := Option.map_eq_some_iff.1 hopen
  dsimp only at heq
  subst heq
  cases wasSent with
  | true =>
    obtain ⟨past, since, hlog, hsent, hsince⟩ := openQuery_spec hquery
    exact ⟨past, since, hlog, hsent rfl, hsince⟩
  | false =>
    rw [h.sending t _ hquery] at hidle
    cases hidle

/-! ## Attribution -/

theorem Attributed.append_one {log : List RequestEvent} (h : Attributed log) {e : RequestEvent}
    (he : ∀ msgT answered result, e = .response msgT answered (some result) →
      ∃ t, answered = some t ∧ msgT = t.bytes ∧ Outstanding log t result.infoHash) :
    Attributed (log ++ [e]) := by
  intro past msgT answered result since heq
  rcases List.eq_nil_or_concat since with rfl | ⟨since, e', rfl⟩
  · obtain ⟨rfl, hlast⟩ := List.append_inj' heq rfl
    exact he msgT answered result (List.cons.inj hlast).1
  · rw [List.concat_eq_append, ← List.cons_append, ← List.append_assoc] at heq
    exact h past msgT answered result since (List.append_inj' heq rfl).1

/-- Events other than responses do not call `OnResult`. -/
theorem Attributed.append {log events : List RequestEvent} (h : Attributed log)
    (hevents : ∀ e ∈ events, ∀ msgT answered result, e ≠ .response msgT answered (some result)) :
    Attributed (log ++ events) := by
  induction events using List.reverseRecOn with
  | nil => rwa [List.append_nil]
  | append_singleton events e ih =>
    rw [← List.append_assoc]
    refine (ih fun e' he' => hevents e' (List.mem_append_left _ he')).append_one ?_
    intro msgT answered result heq
    exact (hevents e (by simp) msgT answered result heq).elim

/-- An ID of two bytes is looked up as it is. -/
theorem bytes_ofBytes {msgT : Bytes} (h : msgT.length = 2) :
    (TransactionID.ofBytes msgT).bytes = msgT := by
  match msgT, h with
  | [a, b], _ => rfl

theorem Attributed.step {network : Bytes} {s s' : AttributionState}
    {a : RequestsAction × List AddrPort} (h : Attributed s.log) (htracked : Tracked s)
    (hstep : (attributionSystem network).step s a s') (hok : TwoByteIDs s a) :
    Attributed s'.log := by
  obtain ⟨⟨requests, sending⟩, log⟩ := s
  obtain ⟨core', log'⟩ := s'
  obtain ⟨hcore, hlog⟩ := hstep
  obtain ⟨a, values⟩ := a
  dsimp only at h hcore hlog
  subst hlog
  have hexpired : ∀ (r r' : Requests), ∀ e ∈ expiredEvents r r', ∀ msgT answered result,
      e ≠ .response msgT answered (some result) := by
    intro r r' e he msgT answered result heq
    obtain ⟨t, -, rfl⟩ := List.mem_map.1 he
    cases heq
  cases hcore with
  | @requestPeers s s' t infoHash now order horder hreq =>
    refine h.append ?_
    intro e he
    rcases List.mem_append.1 he with he | he
    · exact hexpired _ _ e he
    · cases t with
      | none => cases he
      | some t =>
        rw [List.mem_singleton.1 he]
        simp
  | sent => exact h.append (by simp [requestEvents])
  | refused => exact h.append (by simp [requestEvents])
  | @response s msgT =>
    cases he : requests.getPeersRequests.lookup (TransactionID.ofBytes msgT) with
    | none => exact h.append (by simp [requestEvents, Requests.onGetPeersResponseLocked, he])
    | some e =>
      have hout := htracked.outstanding rfl he
      have htwo := hok msgT rfl (by rw [he]; rfl)
      simp only [requestEvents, Requests.onGetPeersResponseLocked, he]
      refine h.append_one ?_
      intro msgT' answered result heq
      obtain ⟨rfl, rfl, hresult⟩ := RequestEvent.response.inj heq
      refine ⟨_, rfl, (bytes_ofBytes htwo).symm, ?_⟩
      unfold onResult at hresult
      split_ifs at hresult
      rw [← Option.some_inj.1 hresult]
      exact hout
  | expire => exact h.append (hexpired _ _)

theorem response_core {network : Bytes} {s s' : AttributionState} {msgT : Bytes}
    {values : List AddrPort} (h : (attributionSystem network).step s (.response msgT, values) s') :
    s.core.sending = none ∧
      s'.core.requests = (s.core.requests.onGetPeersResponseLocked msgT).1 := by
  obtain ⟨⟨requests, sending⟩, log⟩ := s
  obtain ⟨core', log'⟩ := s'
  obtain ⟨hcore, -⟩ := h
  cases hcore with
  | response => exact ⟨rfl, rfl⟩

def answeredPeer : AddrPort := ⟨.v4 #v[198, 51, 100, 9], 6881⟩

/-- A query is entered under the ID zero and sent. -/
theorem sampleQuery : ∃ s, ((attributionSystem (ascii "udp4")).restrict TwoByteIDs).Reachable s ∧
    s.core.sending = none ∧ s.log = [.entered (0, 0) [7], .sent (0, 0)] ∧
      s.core.requests.getPeersRequests.lookup (0, 0) = some ⟨[7], 0⟩ := by
  obtain ⟨r, hr⟩ : ∃ r, newRequests.requestPeersLocked [7] 0 [] = some r := ⟨_, rfl⟩
  have hentered : ((attributionSystem (ascii "udp4")).restrict TwoByteIDs).step
      ⟨⟨newRequests, none⟩, []⟩ (.requestPeers [7] 0 [], []) ⟨⟨r.1, r.2⟩, [.entered (0, 0) [7]]⟩ := by
    refine ⟨⟨.requestPeers (.refl _) hr, ?_⟩, fun _ heq => by cases heq⟩
    cases hr
    rfl
  have hsent : ((attributionSystem (ascii "udp4")).restrict TwoByteIDs).step
      ⟨⟨r.1, r.2⟩, [.entered (0, 0) [7]]⟩ (.sent, [])
      ⟨⟨r.1, none⟩, [.entered (0, 0) [7], .sent (0, 0)]⟩ := by
    cases hr
    exact ⟨⟨.sent, rfl⟩, fun _ heq => by cases heq⟩
  refine ⟨_, ((Transition.System.Reachable.init rfl).step hentered).step hsent, rfl, rfl, ?_⟩
  cases hr
  rfl

end DhtClient
