-- SUMMARY: The hub of the web server: the loop of Run with the handlers of its connections, and what each connection has been sent when.
import LazyDhtc.Lib.Bytes
import LazyDhtc.Lib.Transition
import Mathlib.Data.Finset.Basic
import Mathlib.Data.List.Infix

/-!
# The hub

One goroutine owns the map of clients. It takes connections and messages from unbuffered
channels and writes each message to all clients in turn. A connection has a handler of its
own, which registers it, reads until that fails and has it unregistered.
-/

namespace Ui

open Transition

/-- Where a handler is in `HandleWebSocket`. -/
inductive HandlerPc where
  | registering
  | reading
  | unregistering
  | done
deriving DecidableEq

/-- The calls that `Run` makes on a connection. -/
inductive ConnCall where
  | write (message : Bytes) (ok : Bool)
  | close
deriving DecidableEq

/-- A connection with its handler. -/
structure WebSocket where
  pc : HandlerPc
  /-- How many messages the hub had taken when it took the connection. -/
  joined : Option Nat
  calls : List ConnCall
deriving DecidableEq

/-- A connection that `Upgrade` has returned. -/
def WebSocket.new : WebSocket := ⟨.registering, none, []⟩

def WebSocket.call (k : WebSocket) (calls : List ConnCall) : WebSocket :=
  { k with calls := k.calls ++ calls }

/-- Where `Run` is: in its `select`, or in the loop over the clients with those it has not
    come to. -/
inductive HubPc (κ : Type) where
  | select
  | writing (message : Bytes) (left : Finset κ)

/-- The hub, the connections by their pointers, and the messages that were taken from the
    channel `broadcast`. -/
structure Hub (κ : Type) where
  clients : Finset κ
  pc : HubPc κ
  taken : List Bytes
  conns : κ → Option WebSocket

/-- `NewHub`, before any connection. -/
def newHub (κ : Type) : Hub κ := ⟨∅, .select, [], fun _ => none⟩

inductive HubAction (κ : Type) where
  | upgrade (c : κ)
  | register (c : κ)
  | readFails (c : κ)
  | unregister (c : κ)
  | broadcast (message : Bytes)
  | write (c : κ) (ok : Bool)
  | rangeEnds

variable {κ : Type} [DecidableEq κ]

namespace Hub

def setConn (h : Hub κ) (c : κ) (k : WebSocket) : Hub κ :=
  { h with conns := Function.update h.conns c (some k) }

@[simp] theorem setConn_clients (h : Hub κ) (c : κ) (k : WebSocket) :
    (h.setConn c k).clients = h.clients := rfl

@[simp] theorem setConn_pc (h : Hub κ) (c : κ) (k : WebSocket) :
    (h.setConn c k).pc = h.pc := rfl

@[simp] theorem setConn_taken (h : Hub κ) (c : κ) (k : WebSocket) :
    (h.setConn c k).taken = h.taken := rfl

/-- The case `unregister` of `Run`, for a connection. -/
def unregisters (h : Hub κ) (c : κ) (k : WebSocket) : Hub κ :=
  if c ∈ h.clients then
    { h with clients := h.clients.erase c }.setConn c ({ k with pc := .done }.call [.close])
  else h.setConn c { k with pc := .done }

/-- One pass through the loop over the clients. -/
def writes (h : Hub κ) (m : Bytes) (left : Finset κ) (c : κ) (k : WebSocket) (ok : Bool) : Hub κ :=
  if ok then
    { h with pc := .writing m (left.erase c) }.setConn c (k.call [.write m true])
  else
    { h with pc := .writing m (left.erase c), clients := h.clients.erase c }.setConn c
      (k.call [.write m false, .close])

/-- The message that the hub has taken and not yet written to this client. -/
def pending (h : Hub κ) (c : κ) : List Bytes :=
  match h.pc with
  | .select => []
  | .writing m left => if c ∈ left then [m] else []

end Hub

/-- What `ReadMessage` returns without an error makes no difference to a handler. -/
inductive HubStep : Hub κ → HubAction κ → Hub κ → Prop where
  | upgrade {h : Hub κ} {c : κ} : h.conns c = none → HubStep h (.upgrade c) (h.setConn c .new)
  | register {h : Hub κ} {c : κ} {k : WebSocket} : h.pc = .select → h.conns c = some k →
      k.pc = .registering →
      HubStep h (.register c) ({ h with clients := insert c h.clients }.setConn c
        { k with pc := .reading, joined := some h.taken.length })
  | readFails {h : Hub κ} {c : κ} {k : WebSocket} : h.conns c = some k → k.pc = .reading →
      HubStep h (.readFails c) (h.setConn c { k with pc := .unregistering })
  | unregister {h : Hub κ} {c : κ} {k : WebSocket} : h.pc = .select → h.conns c = some k →
      k.pc = .unregistering → HubStep h (.unregister c) (h.unregisters c k)
  | broadcast {h : Hub κ} {m : Bytes} : h.pc = .select →
      HubStep h (.broadcast m) { h with taken := h.taken ++ [m], pc := .writing m h.clients }
  | write {h : Hub κ} {m : Bytes} {left : Finset κ} {c : κ} {k : WebSocket} {ok : Bool} :
      h.pc = .writing m left → c ∈ left → h.conns c = some k →
      HubStep h (.write c ok) (h.writes m left c k ok)
  | rangeEnds {h : Hub κ} {m : Bytes} : h.pc = .writing m ∅ →
      HubStep h .rangeEnds { h with pc := .select }

def hubSystem (κ : Type) [DecidableEq κ] : System (Hub κ) (HubAction κ) where
  init h := h = newHub κ
  step := HubStep

/-! ## What a connection has been sent -/

/-- The message that a call has written. -/
def ConnCall.sent : ConnCall → Option Bytes
  | .write m true => some m
  | _ => none

def WebSocket.sent (k : WebSocket) : List Bytes := k.calls.filterMap ConnCall.sent

def written (ms : List Bytes) : List ConnCall := ms.map (ConnCall.write · true)

theorem written_append (ms : List Bytes) (m : Bytes) :
    written ms ++ [.write m true] = written (ms ++ [m]) := by
  simp [written]

/-- The calls on a connection that the hub has let go: after a failed write, or because the
    handler asked. -/
inductive Ended (msgs : List Bytes) : List ConnCall → Prop where
  | closed {ms : List Bytes} : ms <+: msgs → Ended msgs (written ms ++ [.close])
  | failed {ms : List Bytes} {m : Bytes} : ms ++ [m] <+: msgs →
      Ended msgs (written ms ++ [.write m false, .close])

theorem Ended.mono {msgs msgs' : List Bytes} {calls : List ConnCall} (h : Ended msgs calls)
    (hm : msgs <+: msgs') : Ended msgs' calls := by
  cases h with
  | closed hms => exact .closed (hms.trans hm)
  | failed hms => exact .failed (hms.trans hm)

/-- What the hub has done for a connection, by how far the connection has come. -/
inductive Hub.Serves (h : Hub κ) (c : κ) : WebSocket → Prop where
  | waiting : c ∉ h.clients → h.Serves c .new
  | served {pc : HandlerPc} {n : Nat} {ms : List Bytes} : c ∈ h.clients → n ≤ h.taken.length →
      pc = .reading ∨ pc = .unregistering → h.taken.drop n = ms ++ h.pending c →
      h.Serves c ⟨pc, some n, written ms⟩
  | ended {pc : HandlerPc} {n : Nat} {calls : List ConnCall} : c ∉ h.clients →
      n ≤ h.taken.length → pc ≠ .registering → Ended (h.taken.drop n) calls →
      h.Serves c ⟨pc, some n, calls⟩

/-- What holds of the hub in every run. -/
structure Hub.Inv (h : Hub κ) : Prop where
  left : ∀ m left, h.pc = .writing m left → left ⊆ h.clients
  known : ∀ c, h.conns c = none → c ∉ h.clients
  serves : ∀ c k, h.conns c = some k → h.Serves c k

/-! ## The steps -/

/-- A connection that a step does not concern: the clients change elsewhere, and what is
    pending for it stays. -/
theorem Hub.Serves.frame {h h' : Hub κ} {c : κ} {k : WebSocket} (hk : h.Serves c k)
    (hclients : c ∈ h'.clients ↔ c ∈ h.clients) (htaken : h'.taken = h.taken)
    (hpending : c ∈ h.clients → h'.pending c = h.pending c) : h'.Serves c k := by
  cases hk with
  | waiting hc => exact .waiting (by rwa [hclients])
  | served hc hn hpc hdrop =>
    refine .served (by rwa [hclients]) (by rwa [htaken]) hpc ?_
    rw [htaken, hpending hc]
    exact hdrop
  | ended hc hn hpc hcalls =>
    refine .ended (by rwa [hclients]) (by rwa [htaken]) hpc ?_
    rw [htaken]
    exact hcalls

/-- A step that concerns one connection only. -/
theorem Hub.Inv.setConn {h h' : Hub κ} {c : κ} {k : WebSocket} (hi : h.Inv)
    (hconns : h'.conns = h.conns) (htaken : h'.taken = h.taken)
    (hclients : ∀ d, d ≠ c → (d ∈ h'.clients ↔ d ∈ h.clients))
    (hpending : ∀ d, d ≠ c → h'.pending d = h.pending d)
    (hleft : ∀ m left, h'.pc = .writing m left → left ⊆ h'.clients)
    (hc : h'.Serves c k) : (h'.setConn c k).Inv where
  left := hleft
  known d hd := by
    obtain rfl | hne := eq_or_ne d c
    · simp [Hub.setConn] at hd
    · rw [Hub.setConn_clients, hclients d hne]
      refine hi.known d ?_
      simpa [Hub.setConn, hne, hconns] using hd
  serves d k' hd := by
    obtain rfl | hne := eq_or_ne d c
    · obtain rfl : k = k' := by simpa [Hub.setConn] using hd
      exact hc.frame Iff.rfl rfl fun _ => rfl
    · have hk' : h.conns d = some k' := by simpa [Hub.setConn, hne, hconns] using hd
      exact (hi.serves d k' hk').frame (hclients d hne) htaken fun _ => hpending d hne

theorem pending_select {h : Hub κ} (hpc : h.pc = .select) (c : κ) : h.pending c = [] := by
  simp [Hub.pending, hpc]

theorem pending_writing {h : Hub κ} {m : Bytes} {left : Finset κ} (hpc : h.pc = .writing m left)
    (c : κ) : h.pending c = if c ∈ left then [m] else [] := by
  simp [Hub.pending, hpc]

/-- A connection is registered while the hub has nothing to write: what it is owed starts
    after the messages taken so far. -/
theorem Hub.Inv.registers {h : Hub κ} {c : κ} {k : WebSocket} (hi : h.Inv) (hpc : h.pc = .select)
    (hk : h.conns c = some k) (hreg : k.pc = .registering) :
    ({ h with clients := insert c h.clients }.setConn c
      { k with pc := .reading, joined := some h.taken.length }).Inv := by
  obtain rfl : k = .new := by
    cases hi.serves c k hk with
    | waiting => rfl
    | served _ _ hpc' => obtain hpc' | hpc' := hpc' <;> cases hreg.symm.trans hpc'
    | ended _ _ hpc' => exact absurd hreg hpc'
  refine hi.setConn rfl rfl ?_ (fun _ _ => rfl) ?_ ?_
  · intro d hne
    simp [hne]
  · intro m left hw
    cases hpc.symm.trans hw
  · refine @Hub.Serves.served κ _ _ c .reading h.taken.length [] (Finset.mem_insert_self c _)
      le_rfl (.inl rfl) ?_
    have hnone := pending_select (h := { h with clients := insert c h.clients }) hpc c
    rw [hnone, List.drop_length]
    rfl

theorem Hub.Inv.unregisters {h : Hub κ} {c : κ} {k : WebSocket} (hi : h.Inv)
    (hpc : h.pc = .select) (hk : h.conns c = some k) (hun : k.pc = .unregistering) :
    (h.unregisters c k).Inv := by
  have hleft : ∀ {h' : Hub κ}, h'.pc = h.pc → ∀ m left, h'.pc = .writing m left →
      left ⊆ h'.clients := by
    intro h' hpc' m left hw
    cases (hpc'.trans hpc).symm.trans hw
  cases hi.serves c k hk with
  | waiting => cases hun
  | @served pc n ms hc hn _ hdrop =>
    rw [Hub.unregisters, if_pos hc]
    refine hi.setConn rfl rfl ?_ (fun _ _ => rfl) (hleft rfl) ?_
    · intro d hne
      simp [hne]
    · refine .ended (by simp) hn (by simp) (.closed ?_)
      exact ⟨h.pending c, hdrop.symm⟩
  | ended hc hn _ hcalls =>
    rw [Hub.unregisters, if_neg hc]
    exact hi.setConn rfl rfl (fun _ _ => Iff.rfl) (fun _ _ => rfl) (hleft rfl)
      (.ended hc hn (by simp) hcalls)

/-- A message is written to a client: it gets the one that is pending for it, or the hub
    lets it go. -/
theorem Hub.Inv.writes {h : Hub κ} {m : Bytes} {left : Finset κ} {c : κ} {k : WebSocket}
    (hi : h.Inv) (hpc : h.pc = .writing m left) (hc : c ∈ left) (hk : h.conns c = some k)
    (ok : Bool) : (h.writes m left c k ok).Inv := by
  have hclient : c ∈ h.clients := hi.left m left hpc hc
  cases hi.serves c k hk with
  | waiting hnot => exact absurd hclient hnot
  | ended hnot => exact absurd hclient hnot
  | @served pc n ms _ hn hhandler hdrop =>
    have howed : h.taken.drop n = ms ++ [m] := by rw [hdrop, pending_writing hpc, if_pos hc]
    have hothers : ∀ {h' : Hub κ}, h'.pc = .writing m (left.erase c) → ∀ d, d ≠ c →
        h'.pending d = h.pending d := by
      intro h' hpc' d hne
      rw [pending_writing hpc', pending_writing hpc]
      simp [hne]
    cases ok with
    | true =>
      rw [Hub.writes, if_pos rfl]
      refine hi.setConn rfl rfl (fun _ _ => Iff.rfl) (hothers rfl) ?_ ?_
      · rintro m' left' hw
        obtain ⟨rfl, rfl⟩ := HubPc.writing.inj hw
        exact (Finset.erase_subset c left).trans (hi.left m left hpc)
      · rw [WebSocket.call, written_append]
        refine .served hclient hn hhandler ?_
        rw [pending_writing (show HubPc.writing m (left.erase c) = _ from rfl)]
        simpa using howed
    | false =>
      rw [Hub.writes, if_neg Bool.false_ne_true]
      refine hi.setConn rfl rfl ?_ (hothers rfl) ?_ ?_
      · intro d hne
        simp [hne]
      · rintro m' left' hw
        obtain ⟨rfl, rfl⟩ := HubPc.writing.inj hw
        exact Finset.erase_subset_erase c (hi.left m left hpc)
      · refine .ended (by simp) hn ?_ (.failed ⟨[], ?_⟩)
        · obtain rfl | rfl := hhandler <;> simp
        · rw [List.append_nil]
          exact howed.symm

/-- A message is taken when nothing is pending: each client is owed it next. -/
theorem Hub.Inv.takes {h : Hub κ} (hi : h.Inv) (hpc : h.pc = .select) (m : Bytes) :
    { h with taken := h.taken ++ [m], pc := .writing m h.clients : Hub κ }.Inv where
  left m' left' hw := by
    obtain ⟨rfl, rfl⟩ := HubPc.writing.inj hw
    exact Finset.Subset.refl _
  known := hi.known
  serves c k hk := by
    cases hi.serves c k hk with
    | waiting hc => exact .waiting hc
    | @served pc n ms hc hn hhandler hdrop =>
      refine .served hc (by simp; omega) hhandler ?_
      rw [pending_select hpc, List.append_nil] at hdrop
      rw [pending_writing (show HubPc.writing m h.clients = _ from rfl), if_pos hc]
      simp [List.drop_append_of_le_length hn, hdrop]
    | @ended pc n calls hc hn hhandler hcalls =>
      refine .ended hc (by simp; omega) hhandler (hcalls.mono ?_)
      rw [List.drop_append_of_le_length hn]
      exact List.prefix_append _ _

theorem Hub.Inv.step {h h' : Hub κ} {a : HubAction κ} (hi : h.Inv) (hstep : HubStep h a h') :
    h'.Inv := by
  cases hstep with
  | @upgrade c hnone =>
    exact hi.setConn rfl rfl (fun _ _ => Iff.rfl) (fun _ _ => rfl) hi.left
      (.waiting (hi.known c hnone))
  | register hpc hk hreg => exact hi.registers hpc hk hreg
  | @readFails c k hk hread =>
    refine hi.setConn rfl rfl (fun _ _ => Iff.rfl) (fun _ _ => rfl) hi.left ?_
    cases hi.serves c k hk with
    | waiting => cases hread
    | served hc hn _ hdrop => exact .served hc hn (.inr rfl) hdrop
    | ended hc hn _ hcalls => exact .ended hc hn (by simp) hcalls
  | unregister hpc hk hun => exact hi.unregisters hpc hk hun
  | broadcast hpc => exact hi.takes hpc _
  | @write m left c k ok hpc hc hk => exact hi.writes hpc hc hk ok
  | @rangeEnds m hpc =>
    refine ⟨?_, hi.known, ?_⟩
    · rintro m' left' hw
      cases hw
    · intro c k hk
      refine (hi.serves c k hk).frame Iff.rfl rfl fun _ => ?_
      rw [pending_select rfl, pending_writing hpc]
      simp

theorem hub_inv {h : Hub κ} (hr : (hubSystem κ).Reachable h) : h.Inv := by
  refine System.invariant (P := Hub.Inv) ?_ (fun _ _ _ _ hi hstep => hi.step hstep) hr
  rintro h rfl
  refine ⟨?_, ?_, ?_⟩
  · rintro m left hw
    cases hw
  · intro c _
    simp [newHub]
  · intro c k hk
    simp [newHub] at hk

/-! ## What the hub promises -/

theorem sent_written (ms : List Bytes) : (written ms).filterMap ConnCall.sent = ms := by
  rw [written, List.filterMap_map]
  exact List.filterMap_some

theorem Ended.sent {msgs : List Bytes} {n : Option Nat} {pc : HandlerPc} {calls : List ConnCall}
    (h : Ended msgs calls) : (WebSocket.mk pc n calls).sent <+: msgs ∧
      (calls = written (WebSocket.mk pc n calls).sent ++ [.close] ∨
        ∃ m, calls = written (WebSocket.mk pc n calls).sent ++ [.write m false, .close]) := by
  cases h with
  | @closed ms hms =>
    have hsent : (WebSocket.mk pc n (written ms ++ [.close])).sent = ms := by
      rw [WebSocket.sent, List.filterMap_append, sent_written]
      exact List.append_nil ms
    rw [hsent]
    exact ⟨hms, .inl rfl⟩
  | @failed ms m hms =>
    have hsent : (WebSocket.mk pc n (written ms ++ [.write m false, .close])).sent = ms := by
      rw [WebSocket.sent, List.filterMap_append, sent_written]
      exact List.append_nil ms
    rw [hsent]
    exact ⟨(List.prefix_append ms [m]).trans hms, .inr ⟨m, rfl⟩⟩

/-- A client is sent the messages taken since it was registered, in their order, until a
    write to it fails or it is unregistered. -/
theorem hub_sends {h : Hub κ} (hr : (hubSystem κ).Reachable h) {c : κ} {k : WebSocket} {n : Nat}
    (hk : h.conns c = some k) (hn : k.joined = some n) :
    k.sent <+: h.taken.drop n ∧ (c ∈ h.clients → h.taken.drop n = k.sent ++ h.pending c) := by
  cases (hub_inv hr).serves c k hk with
  | waiting => cases hn
  | @served pc n' ms hc _ _ hdrop =>
    obtain rfl := Option.some.inj hn
    have hsent : (WebSocket.mk pc (some n') (written ms)).sent = ms := sent_written ms
    rw [hsent]
    exact ⟨⟨h.pending c, hdrop.symm⟩, fun _ => hdrop⟩
  | @ended pc n' calls hc _ _ hcalls =>
    obtain rfl := Option.some.inj hn
    exact ⟨hcalls.sent.1, fun hmem => absurd hmem hc⟩

/-- A connection that has left the map was closed, once and after everything else; one whose
    handler has returned has left the map. -/
theorem hub_closes {h : Hub κ} (hr : (hubSystem κ).Reachable h) {c : κ} {k : WebSocket}
    (hk : h.conns c = some k) :
    (k.pc = .registering → k.calls = []) ∧ (k.pc = .done → c ∉ h.clients) ∧
      (c ∈ h.clients → k.calls = written k.sent) ∧
      (k.pc ≠ .registering → c ∉ h.clients → k.calls = written k.sent ++ [.close] ∨
        ∃ m, k.calls = written k.sent ++ [.write m false, .close]) := by
  cases (hub_inv hr).serves c k hk with
  | waiting hc =>
    exact ⟨fun _ => rfl, fun _ => hc, fun hmem => absurd hmem hc, fun hpc => absurd rfl hpc⟩
  | @served pc n ms hc _ hhandler _ =>
    have hsent : (WebSocket.mk pc (some n) (written ms)).sent = ms := sent_written ms
    rw [hsent]
    refine ⟨?_, ?_, fun _ => rfl, fun _ hnot => absurd hc hnot⟩
    · rintro rfl
      simp at hhandler
    · rintro rfl
      simp at hhandler
  | ended hc _ hpc hcalls =>
    exact ⟨fun hreg => absurd hreg hpc, fun _ => hc, fun hmem => absurd hmem hc,
      fun _ _ => hcalls.sent.2⟩

/-- The only client could not be written to, and its handler still reads. -/
theorem hub_closes_failed : ∃ (h : Hub Unit) (k : WebSocket), h.conns () = some k ∧
    k.pc = .reading ∧ h.clients = ∅ ∧ (k.pc = .registering → k.calls = []) ∧
    (k.pc = .done → () ∉ h.clients) ∧ (() ∈ h.clients → k.calls = written k.sent) ∧
    (k.pc ≠ .registering → () ∉ h.clients → k.calls = written k.sent ++ [.close] ∨
      ∃ m, k.calls = written k.sent ++ [.write m false, .close]) := by
  have hnew : (hubSystem Unit).Reachable (newHub Unit) := .init rfl
  have hupgraded := hnew.step (@HubStep.upgrade Unit _ _ () rfl)
  have hregistered := hupgraded.step (@HubStep.register Unit _ _ () _ rfl rfl rfl)
  have htaken := hregistered.step (@HubStep.broadcast Unit _ _ [0x7B, 0x7D] rfl)
  have hfailed := htaken.step
    (@HubStep.write Unit _ _ _ _ () _ false rfl (Finset.mem_insert_self () ∅) rfl)
  have hk := hub_closes hfailed (c := ()) rfl
  exact ⟨_, _, rfl, rfl, rfl, hk⟩

end Ui
