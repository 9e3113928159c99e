-- SUMMARY: Runs of the transport: each queue delivers in order and apart from the others, a failing socket is read ever more slowly, and Terminate ends everything.
import LazyDhtc.DhtClient.Transport

/-!
# Runs of the transport

What is written is always an initial part of what was taken, queue by queue. While nothing
is shut down, the rest is still on its way.
-/

namespace DhtClient

open Transition.System

variable {rateLimit : Int64}

/-! ## Order -/

/-- The request that the goroutine holds will not be written. -/
def SendPC.Blocked (done : Bool) : SendPC → Prop
  | .limited _ late => late = true ∨ done = true
  | .checking _ => done = true
  | .writing _ => False
  | _ => True

def SendPC.inWait : SendPC → Bool
  | .limited _ _ => true
  | _ => false

/-- The requests that were taken have been written, or then dropped, or are held or queued;
    once one has been dropped, none is written any more. -/
structure Sender.Ordered (limiters : Bool) (q : Queue) (room : Nat) (done cancelled : Bool)
    (k : Sender) : Prop where
  bounded : k.queue.length ≤ room
  own : ∀ req ∈ k.taken, queueOf req.msg = q
  waits : k.pc.inWait = true → limiters = true
  split : ∃ dropped, k.taken = k.written ++ (dropped ++ (k.pc.held ++ k.queue)) ∧
    (dropped = [] ∨
      (done = true ∨ limiters = true ∧ cancelled = true) ∧ k.pc.Blocked done)

theorem SendPC.Blocked.mono {pc : SendPC} {done done' : Bool} (h : pc.Blocked done)
    (hdone : done = true → done' = true) : pc.Blocked done' := by
  cases pc with
  | limited req late => exact h.imp id hdone
  | checking req => exact hdone h
  | writing req => exact h
  | selecting | returned => exact h

theorem Sender.Ordered.mono {limiters : Bool} {q : Queue} {room : Nat}
    {done done' cancelled cancelled' : Bool} {k : Sender}
    (h : k.Ordered limiters q room done cancelled) (hdone : done = true → done' = true)
    (hcancelled : cancelled = true → cancelled' = true) :
    k.Ordered limiters q room done' cancelled' where
  bounded := h.bounded
  own := h.own
  waits := h.waits
  split := by
    obtain ⟨dropped, htaken, hdropped⟩ := h.split
    refine ⟨dropped, htaken, hdropped.imp id ?_⟩
    rintro ⟨hshut, hblocked⟩
    exact ⟨hshut.imp hdone (And.imp id hcancelled), hblocked.mono hdone⟩

theorem Sender.Ordered.step {limiters : Bool} {q : Queue} {room : Nat} {done cancelled : Bool}
    {k k' : Sender} {a : SendAction} (h : k.Ordered limiters q room done cancelled)
    (hstep : SenderStep limiters room done cancelled k a k')
    (hput : ∀ req, a = .put req → queueOf req.msg = q) :
    k'.Ordered limiters q room done cancelled := by
  obtain ⟨hbounded, hown, hwaits, dropped, htaken, hdropped⟩ := h
  cases hstep with
  | @put req hroom =>
    refine ⟨by simpa using hroom, ?_, hwaits, dropped, by simp [htaken], hdropped⟩
    intro req' hreq'
    rcases List.mem_append.1 hreq' with hreq' | hreq'
    · exact hown req' hreq'
    · rw [List.mem_singleton.1 hreq']
      exact hput req rfl
  | refuse => exact ⟨hbounded, hown, hwaits, dropped, htaken, hdropped⟩
  | @take req rest hpc hqueue =>
    rw [hqueue] at hbounded
    refine ⟨Nat.le_of_succ_le hbounded, hown, ?_, dropped, ?_, hdropped.imp id ?_⟩
    · cases limiters with
      | true => exact fun _ => rfl
      | false => exact id
    · rw [htaken, hpc, hqueue]
      cases limiters <;> rfl
    · rintro ⟨hshut, -⟩
      refine ⟨hshut, ?_⟩
      cases limiters with
      | true => exact hshut.symm.imp And.right id
      | false => exact hshut.resolve_right (by simp)
  | @granted req hpc =>
    rw [hpc] at htaken hdropped
    refine ⟨hbounded, hown, by simp [SendPC.inWait], dropped, htaken,
      hdropped.imp id (And.imp id ?_)⟩
    exact fun hblocked => hblocked.resolve_left (by simp)
  | @failed req late hpc hcancelled =>
    rw [hpc] at htaken hwaits
    exact ⟨hbounded, hown, by simp [SendPC.inWait], dropped ++ [req],
      by simp [htaken, SendPC.held], .inr ⟨.inr ⟨hwaits rfl, hcancelled⟩, trivial⟩⟩
  | @checkClosed req hpc hdone =>
    rw [hpc] at htaken
    exact ⟨hbounded, hown, by simp [SendPC.inWait], dropped ++ [req],
      by simp [htaken, SendPC.held], .inr ⟨.inl hdone, trivial⟩⟩
  | @checkOpen req hpc hdone =>
    rw [hpc] at htaken hdropped
    refine ⟨hbounded, hown, by simp [SendPC.inWait], dropped, htaken,
      .inl (hdropped.resolve_right ?_)⟩
    rintro ⟨-, hblocked⟩
    exact Bool.false_ne_true (hdone.symm.trans hblocked)
  | @write req hpc =>
    rw [hpc] at htaken hdropped
    obtain rfl : dropped = [] := hdropped.resolve_right fun hshut => hshut.2
    exact ⟨hbounded, hown, by simp [SendPC.inWait], [], by simp [htaken, SendPC.held], .inl rfl⟩
  | @leave hpc hdone =>
    rw [hpc] at htaken
    exact ⟨hbounded, hown, by simp [SendPC.inWait], dropped, htaken,
      hdropped.imp id fun hshut => ⟨hshut.1, trivial⟩⟩

theorem Sender.Ordered.new (q : Queue) :
    newSender.Ordered (hasLimiters rateLimit) q (capacity rateLimit q) false false where
  bounded := Nat.zero_le _
  own _ hreq := (List.not_mem_nil hreq).elim
  waits h := (Bool.false_ne_true h).elim
  split := ⟨[], rfl, .inl rfl⟩

/-- Every queue of the transport is in order. -/
def Transport.Ordered (rateLimit : Int64) (s : Transport) : Prop :=
  ∀ q, (s.senders q).Ordered (hasLimiters rateLimit) q (capacity rateLimit q) s.done s.cancelled

theorem Transport.Ordered.update {s : Transport} (h : s.Ordered rateLimit) {q : Queue} {k : Sender}
    (hk : k.Ordered (hasLimiters rateLimit) q (capacity rateLimit q) s.done s.cancelled) :
    Transport.Ordered rateLimit { s with senders := Function.update s.senders q k } := by
  intro q'
  by_cases hq : q' = q
  · subst hq
    simpa using hk
  · simpa [Function.update_of_ne hq] using h q'

theorem Transport.Ordered.step {s s' : Transport} {a : TransportAction} (h : s.Ordered rateLimit)
    (hstep : TransportStep rateLimit s a s') : s'.Ordered rateLimit := by
  cases hstep with
  | @writeMessages msg addr accepted k hk =>
    refine h.update ((h _).step hk ?_)
    cases accepted with
    | true =>
      intro req hreq
      obtain rfl : ⟨msg, addr⟩ = req := by simpa [sendAction] using hreq
      rfl
    | false => exact fun req hreq => by simp [sendAction] at hreq
  | sender hown hk =>
    refine h.update ((h _).step hk ?_)
    rintro req rfl
    simp [SendAction.own] at hown
  | reader | closeSocket | terminate => exact h
  | close => exact fun q => (h q).mono (fun _ => rfl) id
  | cancel => exact fun q => (h q).mono id fun _ => rfl

/-! ## A short run -/

def replyMessage : Message := newBasicResponse (ascii "aa") []

def peersQuery : Message := newGetPeersQuery [] [] []

def packetAddr : AddrPort := ⟨.v4 (Vector.replicate 4 3), 6881⟩

def replyRun : List TransportAction :=
  [.writeMessages peersQuery packetAddr true, .writeMessages replyMessage packetAddr true,
    .sender .responseChan .take, .sender .responseChan .check, .sender .responseChan .write]

theorem run_replyRun : ∃ s, (transportSystem 0).Run newTransport replyRun s ∧
    (s.senders .responseChan).written = [⟨replyMessage, packetAddr⟩] ∧ s.done = false := by
  refine ⟨_, .cons (.writeMessages (.put ?_)) (.cons (.writeMessages (.put ?_))
    (.cons (.sender rfl (.take rfl rfl)) (.cons (.sender rfl (.checkOpen rfl rfl))
      (.cons (.sender rfl (.write rfl)) .nil)))), rfl, rfl⟩
  · decide
  · decide

/-- What the queue has made of the messages that `WriteMessages` has put into it. -/
structure Delivers (rateLimit : Int64) (s : Transport) (q : Queue) : Prop where
  bounded : (s.senders q).queue.length ≤ capacity rateLimit q
  own : ∀ req ∈ (s.senders q).taken, queueOf req.msg = q
  inOrder : (s.senders q).written <+: (s.senders q).taken
  complete : s.done = false → s.cancelled = false →
    (s.senders q).taken = (s.senders q).written ++ ((s.senders q).pc.held ++ (s.senders q).queue)

/-- In every interleaving, each queue holds only messages of its own kind, and no more than it
    has room for; they are written in the order in which they were accepted, each once and
    without gaps, also while the transport shuts down; and until it does, what has not been
    written is still on its way. -/
theorem transport_delivers {s : Transport} (h : (transportSystem rateLimit).Reachable s)
    (q : Queue) : Delivers rateLimit s q := by
  have hs : s.Ordered rateLimit := by
    refine invariant ?_ (fun _ _ _ _ hs hstep => hs.step hstep) h
    rintro s rfl q
    exact .new q
  obtain ⟨dropped, htaken, hdropped⟩ := (hs q).split
  refine ⟨(hs q).bounded, (hs q).own, ⟨_, htaken.symm⟩, fun hdone hcancelled => ?_⟩
  obtain rfl : dropped = [] := hdropped.resolve_right (by simp [hdone, hcancelled])
  exact htaken

theorem transport_delivers_reply : ∃ s : Transport,
    (s.senders .responseChan).written = [⟨replyMessage, packetAddr⟩] ∧
      Delivers 0 s .responseChan := by
  obtain ⟨s, hrun, hwritten, -⟩ := run_replyRun
  exact ⟨s, hwritten, transport_delivers (hrun.reachable (.init rfl)) .responseChan⟩

/-! ## Isolation -/

/-- Actions on the queue, and what ends all of them. -/
def TransportAction.concerns (q : Queue) : TransportAction → Bool
  | .writeMessages msg _ _ => queueOf msg = q
  | .sender q' _ => q' = q
  | .close => true
  | .cancel => true
  | _ => false

/-- A queue, with the two flags that its goroutine looks at. -/
def Transport.view (q : Queue) (s : Transport) : Sender × Bool × Bool :=
  (s.senders q, s.done, s.cancelled)

theorem view_update {s : Transport} {q q' : Queue} (hq : q' ≠ q) (k : Sender) :
    Transport.view q { s with senders := Function.update s.senders q' k } = s.view q := by
  simp [Transport.view, Function.update_of_ne hq.symm]

theorem view_update_self (s : Transport) (q : Queue) (k : Sender) :
    Transport.view q { s with senders := Function.update s.senders q k } =
      (k, s.done, s.cancelled) := by
  simp [Transport.view]

theorem transport_unwinds (q : Queue) :
    (transportSystem rateLimit).Unwinds (fun a => a.concerns q = false) (Transport.view q) where
  silent s a s' hstep ha := by
    cases hstep with
    | writeMessages => exact view_update (by simpa [TransportAction.concerns] using ha) _
    | sender => exact view_update (by simpa [TransportAction.concerns] using ha) _
    | reader | closeSocket | terminate => rfl
    | close | cancel => simp [TransportAction.concerns] at ha
  decides s t a s' hview hstep ha := by
    simp only [Transport.view, Prod.mk.injEq] at hview
    obtain ⟨hq, hdone, hcancelled⟩ := hview
    cases hstep with
    | @writeMessages msg addr accepted k hk =>
      obtain rfl : queueOf msg = q := by simpa [TransportAction.concerns] using ha
      rw [← hq, ← hdone, ← hcancelled] at hk
      refine ⟨_, .writeMessages hk, ?_⟩
      rw [view_update_self, view_update_self, hdone, hcancelled]
    | @sender q' a k hown hk =>
      obtain rfl : q' = q := by simpa [TransportAction.concerns] using ha
      rw [← hq, ← hdone, ← hcancelled] at hk
      refine ⟨_, .sender hown hk, ?_⟩
      rw [view_update_self, view_update_self, hdone, hcancelled]
    | close hopen =>
      refine ⟨_, .close (hdone.trans hopen), ?_⟩
      simp [Transport.view, hq, hcancelled]
    | cancel => exact ⟨_, .cancel, by simp [Transport.view, hq, hdone]⟩
    | reader | closeSocket | terminate => simp [TransportAction.concerns] at ha

/-- The queues do not disturb each other: take any run and erase all that does not concern one
    of them, such as a flood of `get_peers` queries from a run of replies. What is left is a
    run of the transport in which `WriteMessages` accepts and refuses the same messages for
    that queue, and its goroutine has written the same ones at the end. -/
theorem queues_isolated (q : Queue) {s s' : Transport} {as : List TransportAction}
    (hrun : (transportSystem rateLimit).Run s as s') :
    ∃ t, (transportSystem rateLimit).Run s (as.filter fun a => a.concerns q) t ∧
      t.senders q = s'.senders q := by
  obtain ⟨t, ht, hview⟩ := (transport_unwinds q).erase hrun (Eq.refl (s.view q))
  refine ⟨t, ?_, congrArg Prod.fst hview⟩
  simpa using ht

theorem queues_isolated_reply : ∃ t, (transportSystem 0).Run newTransport
    [.writeMessages replyMessage packetAddr true, .sender .responseChan .take,
      .sender .responseChan .check, .sender .responseChan .write] t ∧
    (t.senders .responseChan).written = [⟨replyMessage, packetAddr⟩] := by
  obtain ⟨s, hrun, hwritten, -⟩ := run_replyRun
  obtain ⟨t, ht, hsender⟩ := queues_isolated .responseChan hrun
  refine ⟨t, ht, ?_⟩
  rw [hsender]
  exact hwritten

/-! ## Backing off -/

/-- The delay after the `n`-th read in a row that fails. -/
def delayAfter : Nat → Int
  | 0 => 0
  | n + 1 => nextDelay (delayAfter n)

/-- The delays after the first `n` reads in a row that fail. -/
def totalDelay : Nat → Int
  | 0 => 0
  | n + 1 => totalDelay n + delayAfter (n + 1)

theorem delayAfter_add (n : Nat) : delayAfter (n + 8) = seconds 1 := by
  induction n with
  | zero => decide
  | succ n ih => exact (congrArg nextDelay ih).trans (by decide)

theorem totalDelay_add (n : Nat) : totalDelay (n + 7) = milliseconds 1270 + seconds n := by
  induction n with
  | zero => decide
  | succ n ih =>
    have hdelay : delayAfter (n + 1 + 7) = seconds 1 := delayAfter_add n
    have htotal : totalDelay (n + 1 + 7) = totalDelay (n + 7) + delayAfter (n + 1 + 7) := rfl
    rw [htotal, hdelay, ih]
    simp only [seconds, Nat.cast_add, Nat.cast_one]
    omega

theorem seconds_le_totalDelay (n : Nat) : seconds n ≤ totalDelay n + milliseconds 5730 := by
  rcases Nat.lt_or_ge n 7 with hn | hn
  · interval_cases n <;> decide
  · obtain ⟨n, rfl⟩ := Nat.exists_eq_add_of_le' hn
    rw [totalDelay_add]
    simp only [seconds, milliseconds, Nat.cast_add]
    omega

theorem delayAfter_le (n : Nat) : delayAfter n ≤ seconds 1 := by
  rcases Nat.lt_or_ge n 8 with hn | hn
  · interval_cases n <;> decide
  · obtain ⟨n, rfl⟩ := Nat.exists_eq_add_of_le' hn
    exact (delayAfter_add n).le

theorem le_delayAfter {n : Nat} (hn : 0 < n) : milliseconds 10 ≤ delayAfter n := by
  rcases Nat.lt_or_ge n 8 with h | h
  · interval_cases n <;> decide
  · obtain ⟨n, rfl⟩ := Nat.exists_eq_add_of_le' h
    rw [delayAfter_add]
    decide

/-- The delays of `n` failed reads in a row are over. -/
def Reader.BacksOff (r : Reader) (n : Nat) : Prop :=
  r.waited = totalDelay n ∧
    match r.pc with
    | .reading | .handling _ _ => r.failures = n ∧ r.retryDelay = delayAfter n
    | .failed => r.failures = n + 1 ∧ r.retryDelay = delayAfter n
    | .waiting => r.failures = n + 1 ∧ r.retryDelay = delayAfter (n + 1)
    | .returned => r.failures = n + 1

theorem Reader.BacksOff.step {done closed : Bool} {r r' : Reader} {a : ReadAction} {n : Nat}
    (h : r.BacksOff n) (hstep : ReaderStep done closed r a r') : ∃ n, r'.BacksOff n := by
  obtain ⟨hwaited, hpc'⟩ := h
  cases hstep with
  | receive hpc =>
    exact ⟨0, rfl, rfl, rfl⟩
  | ignore hpc =>
    refine ⟨0, rfl, ?_⟩
    rw [hpc]
    exact ⟨rfl, rfl⟩
  | fail hpc =>
    rw [hpc] at hpc'
    exact ⟨n, hwaited, congrArg (· + 1) hpc'.1, hpc'.2⟩
  | leaveFailed hpc =>
    rw [hpc] at hpc'
    exact ⟨n, hwaited, hpc'.1⟩
  | delay hpc =>
    rw [hpc] at hpc'
    exact ⟨n, hwaited, hpc'.1, congrArg nextDelay hpc'.2⟩
  | wake hpc =>
    rw [hpc] at hpc'
    refine ⟨n + 1, ?_, hpc'.1, hpc'.2⟩
    exact congrArg₂ (· + ·) hwaited hpc'.2
  | leaveWaiting hpc =>
    rw [hpc] at hpc'
    exact ⟨n, hwaited, hpc'.1⟩
  | handled hpc =>
    rw [hpc] at hpc'
    exact ⟨n, hwaited, hpc'⟩

theorem transport_backsOff {s : Transport} (h : (transportSystem rateLimit).Reachable s) :
    ∃ n, s.reader.BacksOff n := by
  refine invariant (P := fun s => ∃ n, s.reader.BacksOff n) ?_ ?_ h
  · rintro s rfl
    exact ⟨0, rfl, rfl, rfl⟩
  · rintro s a s' - ⟨n, hn⟩ hstep
    cases hstep with
    | reader hr => exact hn.step hr
    | writeMessages | sender | close | cancel | closeSocket | terminate => exact ⟨n, hn⟩

/-- Once it is shut down, the goroutine of a queue can be brought to its end. -/
theorem sender_ends {s : Transport} (hdone : s.done = true) (hcancelled : s.cancelled = true)
    (q : Queue) : ∃ k, (transportSystem rateLimit).Steps s
      { s with senders := Function.update s.senders q k } ∧ k.pc = .returned := by
  have hleave : ∀ k : Sender, k.pc = .selecting → (transportSystem rateLimit).Steps
      { s with senders := Function.update s.senders q k }
      { s with senders := Function.update s.senders q { k with pc := .returned } } := by
    intro k hpc
    have hstep := @TransportStep.sender rateLimit
      { s with senders := Function.update s.senders q k } q .leave { k with pc := .returned } rfl
    simp only [Function.update_self, Function.update_idem] at hstep
    exact .single (hstep (.leave hpc hdone))
  have hstart : ∀ (a : SendAction) (k : Sender), a.own = true →
      SenderStep (hasLimiters rateLimit) (capacity rateLimit q) s.done s.cancelled (s.senders q) a k →
      k.pc = .selecting → ∃ k, (transportSystem rateLimit).Steps s
        { s with senders := Function.update s.senders q k } ∧ k.pc = .returned :=
    fun a k hown hk hpc => ⟨_, .head (TransportStep.sender hown hk) (hleave k hpc), rfl⟩
  cases hpc : (s.senders q).pc with
  | selecting => exact ⟨_, .single (TransportStep.sender rfl (.leave hpc hdone)), rfl⟩
  | limited req late => exact hstart .failed _ rfl (.failed hpc hcancelled) rfl
  | checking req => exact hstart .check _ rfl (.checkClosed hpc hdone) rfl
  | writing req => exact hstart .write _ rfl (.write hpc) rfl
  | returned =>
    refine ⟨s.senders q, ?_, hpc⟩
    rw [Function.update_eq_self]
    exact .refl s

/-- Once `done` is closed, `readMessages` can be brought to its end. -/
theorem reader_ends {s : Transport} (hdone : s.done = true) :
    ∃ r, (transportSystem rateLimit).Steps s { s with reader := r } ∧ r.pc = .returned := by
  have hreading : ∀ r : Reader, r.pc = .reading → ∃ r', (transportSystem rateLimit).Steps
      { s with reader := r } { s with reader := r' } ∧ r'.pc = .returned := by
    intro r hpc
    have hfail := @TransportStep.reader rateLimit { s with reader := r } _ _ (.fail hpc)
    have hleave := @TransportStep.reader rateLimit
      { s with reader := { r with pc := .failed, failures := r.failures + 1 } } _ _
      (.leaveFailed rfl hdone)
    exact ⟨_, .head hfail (.single hleave), rfl⟩
  cases hpc : s.reader.pc with
  | reading => exact hreading s.reader hpc
  | handling msg addr =>
    obtain ⟨r', hsteps, hr'⟩ := hreading
      { s.reader with pc := .reading, handled := s.reader.handled ++ [(msg, addr)] } rfl
    exact ⟨r', .head (TransportStep.reader (.handled hpc)) hsteps, hr'⟩
  | failed => exact ⟨_, .single (TransportStep.reader (.leaveFailed hpc hdone)), rfl⟩
  | waiting => exact ⟨_, .single (TransportStep.reader (.leaveWaiting hpc hdone)), rfl⟩
  | returned => exact ⟨s.reader, .refl s, hpc⟩

/-- All goroutines of the transport have ended. -/
def Transport.Ended (s : Transport) : Prop :=
  (∀ q, (s.senders q).pc = .returned) ∧ s.reader.pc = .returned

theorem Transport.ends {s : Transport} (hdone : s.done = true) :
    ∃ t, (transportSystem rateLimit).Steps s t ∧ t.done = true ∧ t.cancelled = true ∧ t.Ended := by
  obtain ⟨k₁, hsteps₁, hk₁⟩ := @sender_ends rateLimit { s with cancelled := true } hdone rfl .sendChan
  obtain ⟨k₂, hsteps₂, hk₂⟩ := @sender_ends rateLimit
    { s with cancelled := true, senders := Function.update s.senders .sendChan k₁ } hdone rfl
    .controlChan
  obtain ⟨k₃, hsteps₃, hk₃⟩ := @sender_ends rateLimit
    { s with
      cancelled := true
      senders := Function.update (Function.update s.senders .sendChan k₁) .controlChan k₂ }
    hdone rfl .responseChan
  obtain ⟨r, hsteps₄, hr⟩ := @reader_ends rateLimit
    { s with
      cancelled := true
      senders := Function.update (Function.update (Function.update s.senders .sendChan k₁)
        .controlChan k₂) .responseChan k₃ } hdone
  refine ⟨_, .head TransportStep.cancel (hsteps₁.trans (hsteps₂.trans (hsteps₃.trans hsteps₄))),
    hdone, rfl, ?_, hr⟩
  intro q
  cases q <;> simp [Function.update, hk₁, hk₂, hk₃]

/-- What is left to happen when all goroutines have ended: callers are still served. -/
theorem Transport.Ended.step {s s' : Transport} {a : TransportAction} (h : s.Ended)
    (hstep : TransportStep rateLimit s a s') :
    s'.Ended ∧ (∀ q, (s'.senders q).written = (s.senders q).written) ∧
      s'.reader.handled = s.reader.handled := by
  obtain ⟨hsenders, hreader⟩ := h
  cases hstep with
  | @writeMessages msg addr accepted k hk =>
    have hsame : k.pc = (s.senders (queueOf msg)).pc ∧
        k.written = (s.senders (queueOf msg)).written := by
      cases accepted with
      | true => cases hk; exact ⟨rfl, rfl⟩
      | false => cases hk; exact ⟨rfl, rfl⟩
    refine ⟨⟨fun q => ?_, hreader⟩, fun q => ?_, rfl⟩
    · by_cases hq : q = queueOf msg
      · subst hq
        simpa using hsame.1.trans (hsenders _)
      · simpa [Function.update_of_ne hq] using hsenders q
    · by_cases hq : q = queueOf msg
      · subst hq
        simpa using hsame.2
      · simp [Function.update_of_ne hq]
  | @sender q a k hown hk =>
    have hpc := hsenders q
    cases hk <;> simp_all [SendAction.own]
  | reader hr => cases hr <;> simp_all
  | close | cancel | closeSocket | terminate => exact ⟨⟨hsenders, hreader⟩, fun _ => rfl, rfl⟩

/-- `Terminate` cannot hang: once it has closed `done`, every interleaving can be continued to
    its return. And it ends everything: when it has returned, no packet is written any more and
    no message handed to the protocol, whatever is still called. -/
theorem terminate_ends_transport {s : Transport} (h : (transportSystem rateLimit).Reachable s)
    (hdone : s.done = true) :
    (∃ t, (transportSystem rateLimit).Steps s t ∧ t.terminated = true) ∧
      (s.terminated = true → ∀ t, (transportSystem rateLimit).Steps s t →
        (∀ q, (t.senders q).written = (s.senders q).written) ∧
          t.reader.handled = s.reader.handled) := by
  refine ⟨?_, fun hterminated t ht => ?_⟩
  · obtain ⟨t, hsteps, htdone, htcancelled, hsenders, hreader⟩ := s.ends hdone
    refine ⟨_, (hsteps.tail (TransportStep.closeSocket htdone htcancelled)).tail
      (TransportStep.terminate rfl hsenders hreader), rfl⟩
  · have hended : s.Ended := by
      refine invariant (P := fun s => s.terminated = true → s.Ended) ?_ ?_ h hterminated
      · rintro s rfl hterm
        exact (Bool.false_ne_true hterm).elim
      · intro s a s' _ hs hstep hterm
        have hkeep : s.terminated = true → s'.Ended := fun hterm => ((hs hterm).step hstep).1
        cases hstep with
        | terminate _ hsenders hreader => exact ⟨hsenders, hreader⟩
        | _ => exact hkeep hterm
    have hkept : t.Ended ∧ (∀ q, (t.senders q).written = (s.senders q).written) ∧
        t.reader.handled = s.reader.handled := by
      refine ht.preserves (P := fun t => t.Ended ∧
        (∀ q, (t.senders q).written = (s.senders q).written) ∧
          t.reader.handled = s.reader.handled) ?_ ⟨hended, fun _ => rfl, rfl⟩
      rintro u a u' ⟨hu, hwritten, hhandled⟩ hstep
      obtain ⟨hu', hwritten', hhandled'⟩ := hu.step hstep
      exact ⟨hu', fun q => (hwritten' q).trans (hwritten q), hhandled'.trans hhandled⟩
    exact hkept.2

theorem terminate_ends_replies : ∃ t : Transport,
    (transportSystem 0).Steps { newTransport with done := true } t ∧ t.terminated = true := by
  have hclose : (transportSystem 0).step newTransport .close { newTransport with done := true } :=
    .close rfl
  exact (terminate_ends_transport ((Reachable.init rfl).step hclose) rfl).1

end DhtClient
