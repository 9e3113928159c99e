-- SUMMARY: Pausing and resuming a worker from its master: what a call that returns without an error has done, while requests get lost, come late or come from others.
import LazyDhtc.Cluster.Exchange
import LazyDhtc.Cluster.Puller
import LazyDhtc.Lib.Unwinding
import LazyDhtc.Ui.ManualOverride

/-!
# Remote control

A master pauses and resumes the crawler of a worker with a request. Anyone can send requests
to the worker, and the schedule and the timers of the crawler go on meanwhile. A call of the
master may return an error while its request is still on the way.
-/

namespace Ui

open Cluster DhtClient Json Transition

/-! ## The request -/

inductive Command where
  | pause
  | resume
deriving DecidableEq

/-- The text of `action` in the request. -/
def Command.action : Command → Bytes
  | .pause => ascii "pause"
  | .resume => ascii "resume"

/-- The members of the map that `sendControl` encodes. -/
def controlMembers (action : Bytes) : List (Bytes × Value) := [(ascii "action", .str action)]

/-- The request of `sendControl`. -/
def controlRequest (token : Bytes) (command : Command) : Request :=
  ⟨.post, bearer ++ token, ascii "gzip", encode (.obj (controlMembers command.action))⟩

/-- The structure that the handler decodes: its only field is `Action`. -/
def controlFields : List (StructField Bytes) := [field "action" id (fun _ s => s) decodeString]

def decodeControl (v : Value) : Option Bytes :=
  match decodeStruct controlFields [] v with
  | (action, ok) => if ok then some action else none

/-- What the handler of a worker makes of a request: a command, or a response at once. -/
def controlHandler (token : Bytes) (r : Request) : Except Response Command :=
  if authorized token r.authorization then
    if r.method = .post then
      match (readLimited 256 r.body).bind decodeControl with
      | none => .error (badRequest "invalid request\n")
      | some action =>
        if action = ascii "pause" then .ok .pause
        else if action = ascii "resume" then .ok .resume
        else .error (badRequest "unknown action\n")
    else .error ⟨405, false, []⟩
  else .error unauthorized

/-- Its response to a command, given `Running` of the status. -/
def controlResponse (running : Bool) : Response :=
  okJson (.obj [(ascii "running", .bool running), (ascii "status", .str (ascii "ok"))])

/-- The errors of `sendControl`: the client's with its text, and "worker control returned %d". -/
inductive ControlError where
  | transport (text : Bytes)
  | returned (status : Nat)

def ControlError.text : ControlError → Bytes
  | .transport text => text
  | .returned status => ascii s!"worker control returned {status}"

/-- The error that `sendControl` makes of a response, if it makes one. -/
def controlError (resp : Response) : Option ControlError :=
  if resp.status / 100 ≠ 2 then some (.returned resp.status) else none

/-- The response to a command is no error. -/
theorem controlError_controlResponse (running : Bool) :
    controlError (controlResponse running) = none :=
  if_neg (not_not.2 (show (200 : Nat) / 100 = 2 from rfl))

theorem decodeControl_encode (command : Command) :
    decodeControl (Value.obj (controlMembers command.action)).coerce = some command.action := by
  have haction : Utf8.coerce command.action = command.action := by
    cases command <;> decide
  have hdecode : decodeStruct controlFields [] (Value.obj (controlMembers command.action)).coerce =
      (command.action, true) := by
    simp only [controlMembers, Value.coerce, decodeStruct]
    rw [foldl_field controlFields rfl (decodeString_of _ command.action), haction]
    rfl
  rw [decodeControl, hdecode]
  rfl

/-- The worker reads the command that the master has sent, if it knows the token. -/
theorem controlHandler_request {token token' : Bytes} {command : Command} {req : Request}
    (h : (controlRequest token command).transmit = some req) : controlHandler token' req =
      if authorized token' req.authorization then .ok command else .error unauthorized := by
  obtain ⟨hmethod, -, hbody⟩ := transmit_body h
  have hpost : req.method = .post := hmethod
  have hdepth : (Value.obj (controlMembers command.action)).depth ≤ maxNestingDepth := by
    cases command <;> decide
  have hlen : (encode (.obj (controlMembers command.action))).length ≤ 256 := by
    cases command <;> decide
  have hread : (readLimited 256 req.body).bind decodeControl = some command.action := by
    rw [hbody, show (controlRequest token command).body =
      encode (.obj (controlMembers command.action)) from rfl, readLimited_encode hdepth,
      if_pos hlen]
    exact decodeControl_encode command
  unfold controlHandler
  rw [hread, if_pos hpost]
  cases command <;> rfl

theorem controlHandler_error {token : Bytes} {r : Request} {resp : Response}
    (h : controlHandler token r = .error resp) : resp.status / 100 = 4 := by
  unfold controlHandler at h
  split_ifs at h
  · split at h
    · cases h
      rfl
    · split_ifs at h
      cases h
      rfl
  · cases h
    rfl
  · cases h
    rfl

/-! ## The system -/

/-- Where a request is: on its way, with the handler before and after `Stop` or `Start`, or
    answered. -/
inductive ExchangePC where
  | sent
  | handling (command : Command)
  | answering
  | answered (resp : Response)

/-- A request and, if it is one of `sendControl`, its command. -/
structure Exchange where
  request : Request
  call : Option Command
  pc : ExchangePC
  /-- The call has returned. -/
  returned : Bool

/-- What happens, with the number of the exchange. -/
inductive ControlEvent where
  | called (k : Nat)
  /-- A critical section of the manager, for an exchange or for the worker itself. -/
  | acted (k : Option Nat) (a : ControlAction)
  | returned (k : Nat) (error : Option ControlError)

def ControlEvent.action : ControlEvent → Option ControlAction
  | .acted _ a => some a
  | _ => none

/-- The exchange that the critical section is for. -/
def ControlEvent.exchange : ControlEvent → Option Nat
  | .acted k _ => k
  | _ => none

/-- The critical section of a command. -/
def Command.at (command : Command) (now : Int) : ControlAction :=
  match command with
  | .pause => .stop now
  | .resume => .start now

structure RemoteControl where
  control : Control
  /-- `runWorker` has come to its server. -/
  serving : Bool
  exchanges : List Exchange
  history : List ControlEvent

inductive RemoteAction where
  | call
  | request
  | receive
  | act
  | answer
  | returns
  | fails
  | worker

/-- What `runWorker`, the schedule and the timers do by themselves. -/
def ownAction (crawler : CrawlerConfiguration) (serving : Bool) : ControlAction → Prop
  | .start _ => serving = false ∧ crawler.crawlerScheduleEnabled = false
  | .stop _ => serving = true
  | .reconcile _ | .autoStop _ _ | .leave => True

inductive RemoteStep (zone : Zone) (crawler : CrawlerConfiguration) (token : Bytes) :
    RemoteControl → RemoteAction → RemoteControl → Prop where
  /-- A master, with the token that it has, calls `sendControl`. -/
  | call {s : RemoteControl} {masterToken : Bytes} {command : Command} {req : Request} :
      (controlRequest masterToken command).transmit = some req →
      RemoteStep zone crawler token s .call { s with
        exchanges := s.exchanges ++ [⟨req, some command, .sent, false⟩]
        history := s.history ++ [.called s.exchanges.length] }
  /-- Anyone sends a request. -/
  | request {s : RemoteControl} {req : Request} :
      RemoteStep zone crawler token s .request { s with
        exchanges := s.exchanges ++ [⟨req, none, .sent, false⟩] }
  | receive {s : RemoteControl} {pre post : List Exchange} {e : Exchange} {command : Command} :
      s.serving = true → s.exchanges = pre ++ e :: post → e.pc = .sent →
      controlHandler token e.request = .ok command →
      RemoteStep zone crawler token s .receive { s with
        exchanges := pre ++ { e with pc := .handling command } :: post }
  | refuse {s : RemoteControl} {pre post : List Exchange} {e : Exchange} {resp : Response} :
      s.serving = true → s.exchanges = pre ++ e :: post → e.pc = .sent →
      controlHandler token e.request = .error resp →
      RemoteStep zone crawler token s .receive { s with
        exchanges := pre ++ { e with pc := .answered resp } :: post }
  | act {s : RemoteControl} {pre post : List Exchange} {e : Exchange} {command : Command}
      {now : Int} {control : Control} :
      s.exchanges = pre ++ e :: post → e.pc = .handling command →
      ControlStep zone s.control (command.at now) control →
      RemoteStep zone crawler token s .act { s with
        control := control
        exchanges := pre ++ { e with pc := .answering } :: post
        history := s.history ++ [.acted (some pre.length) (command.at now)] }
  | answer {s : RemoteControl} {pre post : List Exchange} {e : Exchange} :
      s.exchanges = pre ++ e :: post → e.pc = .answering →
      RemoteStep zone crawler token s .answer { s with
        exchanges := pre ++
          { e with pc := .answered (controlResponse s.control.manager.running) } :: post }
  | returns {s : RemoteControl} {pre post : List Exchange} {e : Exchange} {command : Command}
      {resp : Response} :
      s.exchanges = pre ++ e :: post → e.call = some command → e.returned = false →
      e.pc = .answered resp →
      RemoteStep zone crawler token s .returns { s with
        exchanges := pre ++ { e with returned := true } :: post
        history := s.history ++ [.returned pre.length (controlError resp)] }
  /-- The request or the response gets lost, or does not come in time. -/
  | fails {s : RemoteControl} {pre post : List Exchange} {e : Exchange} {command : Command}
      {text : Bytes} :
      s.exchanges = pre ++ e :: post → e.call = some command → e.returned = false →
      RemoteStep zone crawler token s .fails { s with
        exchanges := pre ++ { e with returned := true } :: post
        history := s.history ++ [.returned pre.length (some (.transport text))] }
  | worker {s : RemoteControl} {a : ControlAction} {control : Control} :
      ownAction crawler s.serving a → ControlStep zone s.control a control →
      RemoteStep zone crawler token s .worker { s with
        control := control
        history := s.history ++ [.acted none a] }
  | serve {s : RemoteControl} :
      s.serving = false → RemoteStep zone crawler token s .worker { s with serving := true }

/-- A worker that just started, and no requests yet. -/
def remoteSystem (zone : Zone) (crawler : CrawlerConfiguration) (token : Bytes) :
    System RemoteControl RemoteAction where
  init s := (controlSystem zone crawler).init s.control ∧ s.serving = false ∧ s.exchanges = [] ∧
    s.history = []
  step := RemoteStep zone crawler token

/-! ## Exchanges and the history -/

/-- The exchange that has acted or returned. -/
def ControlEvent.about : ControlEvent → Option Nat
  | .called _ => none
  | .acted k _ => k
  | .returned k _ => some k

theorem ControlEvent.about_of_exchange {x : ControlEvent} {k : Nat} (h : x.exchange = some k) :
    x.about = some k := by
  cases x with
  | acted => exact h
  | called | returned => cases h

theorem mem_exchange {history : List ControlEvent} {k : Nat} :
    k ∈ history.filterMap ControlEvent.exchange ↔ ∃ a, .acted (some k) a ∈ history := by
  rw [List.mem_filterMap]
  constructor
  · rintro ⟨x, hx, hk⟩
    cases x with
    | acted k' a =>
      cases hk
      exact ⟨a, hx⟩
    | called | returned => cases hk
  · rintro ⟨a, ha⟩
    exact ⟨_, ha, rfl⟩

/-- What the history says of the exchange with the number `k`. -/
structure Traced (token : Bytes) (history : List ControlEvent) (k : Nat) (e : Exchange) :
    Prop where
  waiting : e.pc = .sent ∨ (∃ command, e.pc = .handling command) → ∀ a,
    .acted (some k) a ∉ history
  handling : ∀ command, e.pc = .handling command → controlHandler token e.request = .ok command
  done : e.pc = .answering ∨ (∃ resp, e.pc = .answered resp ∧ resp.status / 100 = 2) →
    ∃ a, .acted (some k) a ∈ history
  sends : ∀ command, e.call = some command → .called k ∈ history ∧
    ∃ masterToken, (controlRequest masterToken command).transmit = some e.request
  acted : ∀ a, .acted (some k) a ∈ history → ∃ command now,
    controlHandler token e.request = .ok command ∧ a = command.at now ∧
      (e.call ≠ none → [.called k, .acted (some k) a].Sublist history)
  returned : .returned k none ∈ history →
    ∃ a, [.called k, .acted (some k) a, .returned k none].Sublist history

section

variable {token : Bytes} {history : List ControlEvent} {k : Nat} {e : Exchange}

/-- Events that are not about the exchange do not matter. -/
theorem Traced.mono (h : Traced token history k e) {events : List ControlEvent}
    (hevents : ∀ x ∈ events, x.about ≠ some k) : Traced token (history ++ events) k e := by
  have hsub : history.Sublist (history ++ events) := List.sublist_append_left _ _
  have hold : ∀ x, x.about = some k → x ∈ history ++ events → x ∈ history := by
    intro x hx hmem
    exact (List.mem_append.1 hmem).resolve_right fun hnew => hevents x hnew hx
  refine ⟨fun hpc a ha => h.waiting hpc a (hold _ rfl ha), h.handling, ?_, ?_, ?_, ?_⟩
  · intro hpc
    obtain ⟨a, ha⟩ := h.done hpc
    exact ⟨a, hsub.subset ha⟩
  · intro command hcall
    exact (h.sends command hcall).imp_left fun hcalled => hsub.subset hcalled
  · intro a ha
    obtain ⟨command, now, hhandler, heq, hafter⟩ := h.acted a (hold _ rfl ha)
    exact ⟨command, now, hhandler, heq, fun hcall => (hafter hcall).trans hsub⟩
  · intro hreturned
    obtain ⟨a, ha⟩ := h.returned (hold _ rfl hreturned)
    exact ⟨a, ha.trans hsub⟩

/-- A request that has just been sent. -/
theorem Traced.start {req : Request} {call : Option Command}
    (hnew : ∀ x ∈ history, x.about ≠ some k)
    (hcall : ∀ command, call = some command → .called k ∈ history ∧
      ∃ masterToken, (controlRequest masterToken command).transmit = some req) :
    Traced token history k ⟨req, call, .sent, false⟩ where
  waiting _ a ha := hnew _ ha rfl
  handling _ hpc := by cases hpc
  done hpc := by obtain hbad | ⟨_, hbad, -⟩ := hpc <;> cases hbad
  sends := hcall
  acted a ha := (hnew _ ha rfl).elim
  returned hreturned := (hnew _ hreturned rfl).elim

theorem Traced.receive (h : Traced token history k e) (hpc : e.pc = .sent) {command : Command}
    (hhandler : controlHandler token e.request = .ok command) :
    Traced token history k { e with pc := .handling command } where
  waiting _ := h.waiting (.inl hpc)
  handling _ heq := by
    cases heq
    exact hhandler
  done hbad := by obtain hbad | ⟨_, hbad, -⟩ := hbad <;> cases hbad
  sends := h.sends
  acted := h.acted
  returned := h.returned

theorem Traced.answered (h : Traced token history k e) {resp : Response}
    (hdone : resp.status / 100 = 2 → ∃ a, .acted (some k) a ∈ history) :
    Traced token history k { e with pc := .answered resp } where
  waiting hbad := by obtain hbad | ⟨_, hbad⟩ := hbad <;> cases hbad
  handling _ hbad := by cases hbad
  done hpc := by
    obtain hbad | ⟨_, heq, hstatus⟩ := hpc
    · cases hbad
    · cases heq
      exact hdone hstatus
  sends := h.sends
  acted := h.acted
  returned := h.returned

theorem Traced.act (h : Traced token history k e) {command : Command}
    (hpc : e.pc = .handling command) (now : Int) :
    Traced token (history ++ [.acted (some k) (command.at now)]) k { e with pc := .answering } := by
  have hsub : history.Sublist (history ++ [.acted (some k) (command.at now)]) :=
    List.sublist_append_left _ _
  have hacted := List.mem_append_right history (List.mem_singleton_self
    (ControlEvent.acted (some k) (command.at now)))
  refine ⟨fun hbad => ?_, fun _ hbad => (by cases hbad), fun _ => ⟨_, hacted⟩, ?_, ?_, ?_⟩
  · obtain hbad | ⟨_, hbad⟩ := hbad <;> cases hbad
  · intro command' hcall
    exact (h.sends command' hcall).imp_left fun hcalled => hsub.subset hcalled
  · intro a ha
    obtain hold | hnew := List.mem_append.1 ha
    · exact absurd hold (h.waiting (.inr ⟨command, hpc⟩) a)
    · cases List.mem_singleton.1 hnew
      refine ⟨command, now, h.handling command hpc, rfl, fun hcall => ?_⟩
      obtain ⟨command', hcommand'⟩ := Option.ne_none_iff_exists'.1 hcall
      have hcalled := (h.sends command' hcommand').1
      exact (List.singleton_sublist.2 hcalled).append (.refl _)
  · intro hreturned
    obtain hold | hnew := List.mem_append.1 hreturned
    · obtain ⟨a, ha⟩ := h.returned hold
      exact ⟨a, ha.trans hsub⟩
    · cases List.mem_singleton.1 hnew

/-- The call returns. Without an error, there is a response to say that it was done. -/
theorem Traced.returns (h : Traced token history k e) {error : Option ControlError}
    (hcall : e.call ≠ none) (hdone : error = none → ∃ a, .acted (some k) a ∈ history) :
    Traced token (history ++ [.returned k error]) k { e with returned := true } := by
  have hsub : history.Sublist (history ++ [.returned k error]) := List.sublist_append_left _ _
  have hold : ∀ a, .acted (some k) a ∈ history ++ [.returned k error] →
      .acted (some k) a ∈ history := by
    intro a ha
    simpa using ha
  refine ⟨fun hpc a ha => h.waiting hpc a (hold a ha), h.handling, ?_, ?_, ?_, ?_⟩
  · intro hpc
    obtain ⟨a, ha⟩ := h.done hpc
    exact ⟨a, hsub.subset ha⟩
  · intro command hcommand
    exact (h.sends command hcommand).imp_left fun hcalled => hsub.subset hcalled
  · intro a ha
    obtain ⟨command, now, hhandler, heq, hafter⟩ := h.acted a (hold a ha)
    exact ⟨command, now, hhandler, heq, fun hcall => (hafter hcall).trans hsub⟩
  · intro hreturned
    obtain hbefore | hnew := List.mem_append.1 hreturned
    · obtain ⟨a, ha⟩ := h.returned hbefore
      exact ⟨a, ha.trans hsub⟩
    · cases List.mem_singleton.1 hnew
      obtain ⟨a, ha⟩ := hdone rfl
      obtain ⟨-, -, -, -, hafter⟩ := h.acted a ha
      exact ⟨a, (hafter hcall).append (.refl [_])⟩

end

/-! ## Every run -/

theorem filterMap_snoc_none {α β : Type} {f : α → Option β} {xs : List α} {x : α} (h : f x = none) :
    (xs ++ [x]).filterMap f = xs.filterMap f := by
  rw [List.filterMap_append, List.filterMap_cons_none h, List.filterMap_nil, List.append_nil]

structure Linear (zone : Zone) (crawler : CrawlerConfiguration) (token : Bytes)
    (s : RemoteControl) : Prop where
  run : ∃ start, (controlSystem zone crawler).init start ∧
    (controlSystem zone crawler).Run start (s.history.filterMap ControlEvent.action) s.control
  once : (s.history.filterMap ControlEvent.exchange).Nodup
  about : ∀ x ∈ s.history, ∀ k, x.about = some k → k < s.exchanges.length
  traced : ∀ (k : Nat) e, s.exchanges[k]? = some e → Traced token s.history k e

section

variable {zone : Zone} {crawler : CrawlerConfiguration} {token : Bytes} {s s' : RemoteControl}

/-- One exchange goes on, with events that are about it. -/
theorem Linear.exchange (h : Linear zone crawler token s) {pre post : List Exchange}
    {e : Exchange} (hexchanges : s.exchanges = pre ++ e :: post) (events : List ControlEvent)
    (e' : Exchange) (habout : ∀ x ∈ events, x.about = some pre.length)
    (he : Traced token s.history pre.length e → Traced token (s.history ++ events) pre.length e') :
    (∀ x ∈ s.history ++ events, ∀ k, x.about = some k → k < (pre ++ e' :: post).length) ∧
      ∀ (k : Nat) x, (pre ++ e' :: post)[k]? = some x → Traced token (s.history ++ events) k x := by
  have hlen : (pre ++ e' :: post).length = s.exchanges.length := by simp [hexchanges]
  refine ⟨fun x hx k hk => ?_, fun k x hx => ?_⟩
  · rw [hlen]
    obtain hold | hnew := List.mem_append.1 hx
    · exact h.about x hold k hk
    · obtain rfl := Option.some.inj ((habout x hnew).symm.trans hk)
      rw [← hlen]
      simp
  · obtain ⟨rfl, rfl⟩ | ⟨hne, hold⟩ := getElem?_replace hexchanges hx
    · exact he (h.traced _ e (by rw [hexchanges]; simp))
    · refine (h.traced k x hold).mono fun y hy hk => hne ?_
      exact Option.some.inj (hk.symm.trans (habout y hy))

theorem Linear.step {a : RemoteAction} (h : Linear zone crawler token s)
    (hstep : RemoteStep zone crawler token s a s') : Linear zone crawler token s' := by
  obtain ⟨⟨start, hinit, hrun⟩, honce, habout, htraced⟩ := id h
  cases hstep with
  | @call masterToken command req hreq =>
    refine ⟨⟨start, hinit, by rwa [filterMap_snoc_none rfl]⟩,
      by rwa [filterMap_snoc_none rfl], fun x hx k hk => ?_, fun k x hx => ?_⟩
    · obtain hold | hnew := List.mem_append.1 hx
      · simpa using (habout x hold k hk).trans (Nat.lt_succ_self _)
      · rw [List.mem_singleton.1 hnew] at hk
        cases hk
    · obtain ⟨rfl, rfl⟩ | ⟨-, hold⟩ := getElem?_snoc hx
      · refine .start (fun y hy hk => ?_) fun _ hcall => ?_
        · obtain hold | hnew := List.mem_append.1 hy
          · exact Nat.lt_irrefl _ (habout y hold _ hk)
          · rw [List.mem_singleton.1 hnew] at hk
            cases hk
        · cases hcall
          exact ⟨by simp, masterToken, hreq⟩
      · refine (htraced k x hold).mono fun y hy hk => ?_
        rw [List.mem_singleton.1 hy] at hk
        cases hk
  | @request req =>
    refine ⟨⟨start, hinit, hrun⟩, honce, fun x hx k hk => ?_, fun k x hx => ?_⟩
    · simpa using (habout x hx k hk).trans (Nat.lt_succ_self _)
    · obtain ⟨rfl, rfl⟩ | ⟨-, hold⟩ := getElem?_snoc hx
      · refine .start (fun y hy hk => ?_) fun _ hcall => (by cases hcall)
        exact Nat.lt_irrefl _ (habout y hy _ hk)
      · exact htraced k x hold
  | @receive pre post e command _ hexchanges hpc hhandler =>
    obtain ⟨habout', htraced'⟩ := h.exchange hexchanges []
      { e with pc := .handling command } (by simp)
      fun ht => (by rw [List.append_nil]; exact ht.receive hpc hhandler)
    rw [List.append_nil] at habout' htraced'
    exact ⟨⟨start, hinit, hrun⟩, honce, habout', htraced'⟩
  | @refuse pre post e resp _ hexchanges hpc hhandler =>
    have hstatus := controlHandler_error hhandler
    obtain ⟨habout', htraced'⟩ := h.exchange hexchanges []
      { e with pc := .answered resp } (by simp)
      fun ht => (by rw [List.append_nil]; exact ht.answered fun hok => by omega)
    rw [List.append_nil] at habout' htraced'
    exact ⟨⟨start, hinit, hrun⟩, honce, habout', htraced'⟩
  | @act pre post e command now control hexchanges hpc hcontrol =>
    obtain ⟨habout', htraced'⟩ := h.exchange hexchanges
      [.acted (some pre.length) (command.at now)] { e with pc := .answering }
      (by simp [ControlEvent.about]) fun ht => ht.act hpc now
    refine ⟨⟨start, hinit, ?_⟩, ?_, habout', htraced'⟩
    · rw [List.filterMap_append]
      exact hrun.append (.single hcontrol)
    · rw [List.filterMap_append]
      refine honce.append (List.nodup_singleton _) fun k hk hnew => ?_
      rw [List.mem_singleton.1 hnew] at hk
      obtain ⟨a, ha⟩ := mem_exchange.1 hk
      exact (htraced _ e (by rw [hexchanges]; simp)).waiting (.inr ⟨command, hpc⟩) a ha
  | @answer pre post e hexchanges hpc =>
    obtain ⟨habout', htraced'⟩ := h.exchange hexchanges []
      { e with pc := .answered (controlResponse s.control.manager.running) } (by simp)
      fun ht => (by rw [List.append_nil]; exact ht.answered fun _ => ht.done (.inl hpc))
    rw [List.append_nil] at habout' htraced'
    exact ⟨⟨start, hinit, hrun⟩, honce, habout', htraced'⟩
  | @returns pre post e command resp hexchanges hcall _ hpc =>
    have hdone : Traced token s.history pre.length e → controlError resp = none →
        ∃ a, .acted (some pre.length) a ∈ s.history := by
      intro ht hnone
      refine ht.done (.inr ⟨resp, hpc, ?_⟩)
      unfold controlError at hnone
      split_ifs at hnone with hstatus
      exact not_not.1 hstatus
    obtain ⟨habout', htraced'⟩ := h.exchange hexchanges
      [.returned pre.length (controlError resp)] { e with returned := true }
      (by simp [ControlEvent.about])
      fun ht => ht.returns (by rw [hcall]; simp) (hdone ht)
    exact ⟨⟨start, hinit, by rwa [filterMap_snoc_none rfl]⟩,
      by rwa [filterMap_snoc_none rfl], habout', htraced'⟩
  | @fails pre post e command text hexchanges hcall =>
    obtain ⟨habout', htraced'⟩ := h.exchange hexchanges
      [.returned pre.length (some (.transport text))] { e with returned := true }
      (by simp [ControlEvent.about])
      fun ht => ht.returns (by rw [hcall]; simp) (fun hnone => by cases hnone)
    exact ⟨⟨start, hinit, by rwa [filterMap_snoc_none rfl]⟩,
      by rwa [filterMap_snoc_none rfl], habout', htraced'⟩
  | @worker b control _ hcontrol =>
    have hnone : ∀ x ∈ [ControlEvent.acted none b], x.about = none := by simp [ControlEvent.about]
    refine ⟨⟨start, hinit, ?_⟩, by rwa [filterMap_snoc_none rfl], fun x hx k hk => ?_,
      fun k x hx => (htraced k x hx).mono fun y hy hk => ?_⟩
    · rw [List.filterMap_append]
      exact hrun.append (.single hcontrol)
    · obtain hold | hnew := List.mem_append.1 hx
      · exact habout x hold k hk
      · rw [hnone x hnew] at hk
        cases hk
    · rw [hnone y hy] at hk
      cases hk
  | serve => exact ⟨⟨start, hinit, hrun⟩, honce, habout, htraced⟩

theorem controlHandler_authorized {r : Request} {command : Command}
    (h : controlHandler token r = .ok command) : authorized token r.authorization = true := by
  unfold controlHandler at h
  split_ifs at h with hauth
  exact hauth

theorem remoteSystem_linear (h : (remoteSystem zone crawler token).Reachable s) :
    Linear zone crawler token s := by
  refine System.invariant (P := Linear zone crawler token) ?_
    (fun _ _ _ _ hs hstep => hs.step hstep) h
  rintro s ⟨hcontrol, -, hexchanges, hhistory⟩
  refine ⟨⟨s.control, hcontrol, ?_⟩, ?_, fun x hx => ?_, fun k e he => ?_⟩
  · rw [hhistory]
    exact .nil
  · rw [hhistory]
    exact List.nodup_nil
  · rw [hhistory] at hx
    exact (List.not_mem_nil hx).elim
  · rw [hexchanges] at he
    cases he

/-- A call that has returned without an error has had its effect meanwhile. -/
theorem Linear.effect (h : Linear zone crawler token s) {k : Nat} {e : Exchange} {command : Command}
    (he : s.exchanges[k]? = some e) (hcall : e.call = some command)
    (hreturned : .returned k none ∈ s.history) : ∃ now,
      [.called k, .acted (some k) (command.at now), .returned k none].Sublist s.history := by
  obtain ⟨a, hsub⟩ := (h.traced k e he).returned hreturned
  have hacted : .acted (some k) a ∈ s.history := hsub.subset (by simp)
  obtain ⟨command', now, hhandler, rfl, -⟩ := (h.traced k e he).acted a hacted
  obtain ⟨-, masterToken, hreq⟩ := (h.traced k e he).sends command hcall
  have hauth := controlHandler_authorized hhandler
  rw [controlHandler_request hreq, if_pos hauth] at hhandler
  cases hhandler
  exact ⟨now, hsub⟩

/-- Whatever is sent to a worker, by whomever, and whatever is lost or late: there is one
    order of starts, stops, reconciliations and timers that the crawler has gone through. A
    request acts at most once, only if it has the token, and as its command says. A call that
    has returned without an error has had its effect between its beginning and its end. -/
theorem control_linearizable (h : (remoteSystem zone crawler token).Reachable s) :
    (∃ start, (controlSystem zone crawler).init start ∧
      (controlSystem zone crawler).Run start (s.history.filterMap ControlEvent.action)
        s.control) ∧
    (s.history.filterMap ControlEvent.exchange).Nodup ∧
    (∀ k a, .acted (some k) a ∈ s.history → ∃ e command now, s.exchanges[k]? = some e ∧
      authorized token e.request.authorization = true ∧
      controlHandler token e.request = .ok command ∧ a = command.at now) ∧
    ∀ (k : Nat) e command, s.exchanges[k]? = some e → e.call = some command →
      .returned k none ∈ s.history → ∃ now,
        [.called k, .acted (some k) (command.at now), .returned k none].Sublist s.history := by
  have hlinear := remoteSystem_linear h
  refine ⟨hlinear.run, hlinear.once, fun k a ha => ?_,
    fun k e command he hcall hreturned => hlinear.effect he hcall hreturned⟩
  have hlt : k < s.exchanges.length := hlinear.about _ ha k rfl
  obtain ⟨e, he⟩ : ∃ e, s.exchanges[k]? = some e := ⟨_, List.getElem?_eq_getElem hlt⟩
  obtain ⟨command, now, hhandler, heq, -⟩ := (hlinear.traced k e he).acted a ha
  exact ⟨e, command, now, he, controlHandler_authorized hhandler, hhandler, heq⟩

end

/-! ## A pause -/

/-- The request of a call arrives with a token that can be sent. -/
theorem transmit_controlRequest {token : Bytes} (h : transmissible token = true) (hne : token ≠ [])
    (command : Command) : ∃ req, (controlRequest token command).transmit = some req ∧
      controlHandler token req = .ok command := by
  obtain ⟨req, hreq, hauth⟩ := (authorized_transmit hne .post (ascii "gzip")
    (encode (.obj (controlMembers command.action)))).2 h
  exact ⟨req, hreq, by rw [controlHandler_request hreq, if_pos hauth]⟩

/-- A worker that has been paused at six in the evening. -/
def pausedHistory : List ControlEvent :=
  [.called 0, .acted (some 0) (.stop (hours 18)), .returned 0 none]

theorem reachable_paused : ∃ s, (remoteSystem 0 (nightCrawler 0) (ascii "secret")).Reachable s ∧
    s.history = pausedHistory ∧ ∃ e, s.exchanges = [e] ∧ e.call = some .pause := by
  obtain ⟨req, hreq, hhandler⟩ :=
    @transmit_controlRequest (ascii "secret") (by decide) (by decide) .pause
  have hlate : 0 ≤ hours 18 := by decide
  let sys := remoteSystem 0 (nightCrawler 0) (ascii "secret")
  have hinit : sys.Reachable ⟨newControl (nightCrawler 0), false, [], []⟩ :=
    .init ⟨init_newControl 0 _, rfl, rfl, rfl⟩
  have hserving := hinit.step (.serve rfl)
  have hcalled := hserving.step (.call hreq)
  have hreceived := hcalled.step (@RemoteStep.receive _ _ _ _ [] [] _ _ rfl rfl rfl hhandler)
  have hacted := hreceived.step
    (@RemoteStep.act _ _ _ _ [] [] _ .pause (hours 18) _ rfl rfl (.stop hlate))
  have hanswered := hacted.step (@RemoteStep.answer _ _ _ _ [] [] _ rfl rfl)
  have hreturned := hanswered.step
    (@RemoteStep.returns _ _ _ _ [] [] _ .pause _ rfl rfl rfl rfl)
  refine ⟨_, hreturned, ?_, _, rfl, rfl⟩
  rw [controlError_controlResponse]
  rfl

theorem control_linearizable_paused : ∃ s : RemoteControl, s.history = pausedHistory ∧
    ∃ now, [ControlEvent.called 0, .acted (some 0) (.stop now), .returned 0 none].Sublist
      s.history := by
  obtain ⟨s, hreach, hhistory, e, hexchanges, hcall⟩ := reachable_paused
  obtain ⟨-, -, -, hreturned⟩ := control_linearizable hreach
  have hlast : ControlEvent.returned 0 none ∈ s.history := by
    rw [hhistory]
    simp [pausedHistory]
  exact ⟨s, hhistory, hreturned 0 e .pause (by rw [hexchanges]; rfl) hcall hlast⟩

end Ui
