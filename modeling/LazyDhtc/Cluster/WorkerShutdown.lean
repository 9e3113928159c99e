-- SUMMARY: The shutdown of a worker in push mode: which records the cache file has when runWorker returns.
import LazyDhtc.Cluster.Delivery
import LazyDhtc.Cluster.Snapshot

/-!
# Shutdown of a worker

When the signal context is cancelled, the flush loop saves the queue a last time, while
`runWorker` stops the crawler, waits for the loop and shuts down the server. `Stop` only
closes the stop channel: a crawl goroutine that is about to deliver metadata still calls
`Enqueue`, and one that selects may still take metadata instead of the stop.
-/

namespace Cluster

open DhtClient Json Transition

/-! ## The goroutines -/

/-- The flush loop: it selects, is in `saveToCache`, for the last time or not, or has
    closed `flushDone`. -/
inductive LoopPC where
  | selecting
  | saving (final : Bool)
  | done
deriving DecidableEq

/-- `runWorker`: it waits for the context, for the flush loop, for the server, or has
    returned. -/
inductive MainPC where
  | waiting
  | stoppingFlush
  | shuttingDown
  | returned
deriving DecidableEq

inductive CrawlerPC where
  | selecting
  | delivering (md : Metadata)
  | gone

/-- A crawl goroutine and whether its stop channel is closed. -/
structure Crawler where
  stop : Bool
  pc : CrawlerPC

structure WorkerProcess where
  save : SaveState
  cancelled : Bool
  loop : LoopPC
  main : MainPC
  crawlers : List Crawler
  /-- The records for which `Enqueue` has returned true. -/
  accepted : List Record

inductive WorkerAction where
  | cancel
  | startCrawl
  | takeMetadata (md : Metadata)
  | takeStop
  | deliver (md : Metadata)
  | ack (ids : List UInt64)
  | tick
  | finish
  | save (a : SaveAction)
  | stop
  | stopFlush
  | shutdown

/-- Where the flush loop goes on after `saveToCache`. -/
def LoopPC.after : Bool → LoopPC
  | true => .done
  | false => .selecting

inductive WorkerStep (workerID : Bytes) (limit : Int) (cachePath : Bytes) :
    WorkerProcess → WorkerAction → WorkerProcess → Prop where
  /-- A signal, or the server has failed. -/
  | cancel {s : WorkerProcess} :
      WorkerStep workerID limit cachePath s .cancel { s with cancelled := true }
  | startCrawl {s : WorkerProcess} :
      WorkerStep workerID limit cachePath s .startCrawl
        { s with crawlers := s.crawlers ++ [⟨false, .selecting⟩] }
  | takeMetadata {s : WorkerProcess} {pre post : List Crawler} {stop : Bool} {md : Metadata} :
      s.crawlers = pre ++ ⟨stop, .selecting⟩ :: post →
      WorkerStep workerID limit cachePath s (.takeMetadata md)
        { s with crawlers := pre ++ ⟨stop, .delivering md⟩ :: post }
  | takeStop {s : WorkerProcess} {pre post : List Crawler} :
      s.crawlers = pre ++ ⟨true, .selecting⟩ :: post →
      WorkerStep workerID limit cachePath s .takeStop
        { s with crawlers := pre ++ ⟨true, .gone⟩ :: post }
  | deliver {s : WorkerProcess} {pre post : List Crawler} {stop : Bool} {md : Metadata}
      {save : SaveState} : s.crawlers = pre ++ ⟨stop, .delivering md⟩ :: post →
      SaveStep workerID limit cachePath s.save (.enqueue md) save →
      WorkerStep workerID limit cachePath s (.deliver md) { s with
        crawlers := pre ++ ⟨stop, .selecting⟩ :: post
        save := save
        accepted := if (s.save.queue.enqueue md).2 then
          s.accepted ++ [⟨s.save.queue.nextID + 1, md⟩] else s.accepted }
  /-- The flush loop or the handler acknowledges. -/
  | ack {s : WorkerProcess} {ids : List UInt64} {save : SaveState} :
      SaveStep workerID limit cachePath s.save (.ack ids) save →
      WorkerStep workerID limit cachePath s (.ack ids) { s with save := save }
  | tickClean {s : WorkerProcess} : s.loop = .selecting → s.save.queue.cacheDirty = false →
      WorkerStep workerID limit cachePath s .tick s
  | tickDirty {s : WorkerProcess} {save : SaveState} : s.loop = .selecting →
      SaveStep workerID limit cachePath s.save .swap save →
      WorkerStep workerID limit cachePath s .tick
        { s with loop := .saving false, save := save }
  | finishClean {s : WorkerProcess} : s.loop = .selecting → s.cancelled = true →
      s.save.queue.cacheDirty = false →
      WorkerStep workerID limit cachePath s .finish { s with loop := .done }
  | finishDirty {s : WorkerProcess} {save : SaveState} : s.loop = .selecting →
      s.cancelled = true → SaveStep workerID limit cachePath s.save .swap save →
      WorkerStep workerID limit cachePath s .finish
        { s with loop := .saving true, save := save }
  /-- A step of `saveToCache`. -/
  | save {s : WorkerProcess} {final : Bool} {a : SaveAction} {save : SaveState} :
      s.loop = .saving final → a = .copy ∨ a = .marshal ∨ a = .write →
      SaveStep workerID limit cachePath s.save a save →
      WorkerStep workerID limit cachePath s (.save a) { s with save := save }
  /-- Its last step. -/
  | saved {s : WorkerProcess} {final : Bool} {a : SaveAction} {save : SaveState} :
      s.loop = .saving final → a = .rename ∨ a = .fail →
      SaveStep workerID limit cachePath s.save a save →
      WorkerStep workerID limit cachePath s (.save a)
        { s with loop := .after final, save := save }
  | stop {s : WorkerProcess} : s.main = .waiting → s.cancelled = true →
      WorkerStep workerID limit cachePath s .stop { s with
        main := .stoppingFlush
        crawlers := s.crawlers.map fun c => { c with stop := true } }
  | stopFlush {s : WorkerProcess} : s.main = .stoppingFlush → s.loop = .done →
      WorkerStep workerID limit cachePath s .stopFlush { s with main := .shuttingDown }
  | shutdown {s : WorkerProcess} : s.main = .shuttingDown →
      WorkerStep workerID limit cachePath s .shutdown { s with main := .returned }

/-- A worker in push mode has just been set up. -/
def workerSystem (cfg : WorkerConfig) : System WorkerProcess WorkerAction where
  init s := cfg.masterURL ≠ [] ∧
    (∃ files, s.save.queue = runWorker cfg files ∧ s.save.file = files cfg.cacheDir) ∧
    s.save.saving = .idle ∧ s.cancelled = false ∧ s.loop = .selecting ∧ s.main = .waiting ∧
    s.crawlers = [] ∧ s.accepted = []
  step := WorkerStep cfg.workerID cfg.workerQueue cfg.cacheDir

/-- The last `saveToCache` has copied the queue, or has found it clean. -/
def LastSaveTaken (s : WorkerProcess) : Prop :=
  s.loop = .done ∨ s.loop = .saving true ∧ s.save.saving ≠ .swapped

/-- No record is accepted once the last save has taken the queue, and no write fails. -/
def EnqueuesBeforeLastSave (s : WorkerProcess) : WorkerAction → Prop
  | .deliver md => (s.save.queue.enqueue md).2 = true → ¬ LastSaveTaken s
  | .save .fail => False
  | _ => True

/-! ## The invariant -/

/-- The file is a snapshot that has the record. -/
def InFile (file : Option Bytes) (r : Record) : Prop :=
  ∃ items, file = some (encodeRecords items) ∧ r ∈ items

/-- The record was accepted by this process, and no acknowledgement has removed it. -/
def WorkerProcess.Queued (s : WorkerProcess) (r : Record) : Prop :=
  r ∈ s.accepted ∧ r ∈ s.save.queue.items

/-- What is being written encodes the copy. -/
def SaveState.EncodesCopy (s : SaveState) : Prop :=
  match s.saving with
  | .idle | .swapped | .copied _ => True
  | .marshalled items data => data = encodeRecords items
  | .written items => s.temporary = some (encodeRecords items)

structure Preserved (s : WorkerProcess) : Prop where
  idle : s.loop = .selecting → s.save.saving = .idle
  copy : s.save.EncodesCopy
  clean : s.save.queue.cacheDirty = false → s.save.saving = .idle →
    ∀ r, s.Queued r → InFile s.save.file r
  held : s.save.queue.cacheDirty = false ∨ s.loop = .saving true →
    ∀ items, s.save.saving.phase = .holding items → ∀ r, s.Queued r → r ∈ items
  last : s.loop = .done → ∀ r, s.Queued r → InFile s.save.file r
  main : s.main = .shuttingDown ∨ s.main = .returned → s.loop = .done

theorem enqueue_sets_dirty {q : WorkerQueue} {md : Metadata} (h : (q.enqueue md).2 = true) :
    (q.enqueue md).1.cacheDirty = true := by
  simp only [WorkerQueue.enqueue] at h ⊢
  split_ifs at h ⊢
  · rfl
  · rfl

theorem Preserved.deliver {s : WorkerProcess} {md : Metadata} (h : Preserved s)
    (hok : EnqueuesBeforeLastSave s (.deliver md)) (crawlers : List Crawler) :
    Preserved { s with
      crawlers := crawlers
      save := { s.save with
        queue := (s.save.queue.enqueue md).1
        moments := s.save.moments ++ [(s.save.queue.enqueue md).1.items] }
      accepted := if (s.save.queue.enqueue md).2 then
        s.accepted ++ [⟨s.save.queue.nextID + 1, md⟩] else s.accepted } := by
  cases hresult : (s.save.queue.enqueue md).2 with
  | true =>
    have hdirty := enqueue_sets_dirty hresult
    have hnot := hok hresult
    refine ⟨h.idle, h.copy, ?_, ?_, ?_, h.main⟩
    · simp only [hdirty]
      exact fun hclean => by cases hclean
    · simp only [hdirty]
      rintro (hclean | hfinal) items hphase
      · cases hclean
      · refine absurd (.inr ⟨hfinal, ?_⟩) hnot
        intro hswapped
        rw [hswapped] at hphase
        cases hphase
    · exact fun hdone => absurd (.inl hdone) hnot
  | false =>
    obtain ⟨-, heq⟩ | ⟨htrue, -⟩ := s.save.queue.enqueue_cases md
    · simp only [heq, Bool.false_eq_true, if_false]
      exact ⟨h.idle, h.copy, h.clean, h.held, h.last, h.main⟩
    · rw [hresult] at htrue
      cases htrue

theorem Preserved.ack {s : WorkerProcess} (h : Preserved s) (ids : List UInt64) :
    Preserved { s with save := { s.save with
      queue := (s.save.queue.ack ids).1
      moments := s.save.moments ++ [(s.save.queue.ack ids).1.items] } } := by
  have hdirty := (ack_dirty s.save.queue ids).1
  have hqueued : ∀ r, r ∈ s.accepted ∧ r ∈ (s.save.queue.ack ids).1.items → s.Queued r := by
    intro r ⟨haccepted, hin⟩
    rw [WorkerQueue.ack_items] at hin
    exact ⟨haccepted, List.mem_of_mem_filter hin⟩
  refine ⟨h.idle, h.copy, ?_, ?_, ?_, h.main⟩
  · simp only [hdirty]
    exact fun hclean => by cases hclean
  · simp only [hdirty]
    rintro (hclean | hfinal) items hphase r hr
    · cases hclean
    · exact h.held (.inr hfinal) items hphase r (hqueued r hr)
  · exact fun hdone r hr => h.last hdone r (hqueued r hr)

/-- The flush loop swaps the flag. -/
theorem Preserved.swap {s : WorkerProcess} (h : Preserved s) (hloop : s.loop = .selecting)
    (final : Bool) :
    Preserved { s with
      loop := .saving final
      save := { s.save with
        saving := .swapped, queue := { s.save.queue with cacheDirty := false } } } := by
  refine ⟨?_, trivial, ?_, ?_, ?_, ?_⟩
  · exact fun hselecting => by cases hselecting
  · exact fun _ hidle => by cases hidle
  · exact fun _ items hphase => by cases hphase
  · exact fun hdone => by cases hdone
  · intro hmain
    have hdone := h.main hmain
    rw [hloop] at hdone
    cases hdone

/-- A step of `saveToCache` other than its last. -/
theorem Preserved.save {workerID : Bytes} {limit : Int} {cachePath : Bytes} {s : WorkerProcess}
    {final : Bool} {a : SaveAction} {save : SaveState} (h : Preserved s)
    (hloop : s.loop = .saving final) (ha : a = .copy ∨ a = .marshal ∨ a = .write)
    (hstep : SaveStep workerID limit cachePath s.save a save) :
    Preserved { s with save := save } := by
  have hidle : s.loop = .selecting → save.saving = .idle := by
    rw [hloop]
    exact fun hselecting => by cases hselecting
  have hcopy := h.copy
  have hheld := h.held
  unfold SaveState.EncodesCopy at hcopy
  cases hstep with
  | copy hpc =>
    refine ⟨hidle, trivial, ?_, ?_, h.last, h.main⟩
    · exact fun _ hbusy => by cases hbusy
    · intro _ items hphase r hr
      cases hphase
      exact hr.2
  | marshal hpc =>
    rw [hpc] at hheld
    exact ⟨hidle, rfl, fun _ hbusy => by (cases hbusy), hheld, h.last, h.main⟩
  | write hpc =>
    rw [hpc] at hheld hcopy
    exact ⟨hidle, congrArg some hcopy, fun _ hbusy => by (cases hbusy), hheld, h.last, h.main⟩
  | enqueue | ack | swap | rename | failEncoding | failWrite | failRename | crash => simp at ha

/-- The rename, which ends a save. -/
theorem Preserved.saved {workerID : Bytes} {limit : Int} {cachePath : Bytes} {s : WorkerProcess}
    {final : Bool} {save : SaveState} (h : Preserved s) (hloop : s.loop = .saving final)
    (hstep : SaveStep workerID limit cachePath s.save .rename save) :
    Preserved { s with loop := .after final, save := save } := by
  have hcopy := h.copy
  have hheld := h.held
  unfold SaveState.EncodesCopy at hcopy
  cases hstep with
  | rename hpc =>
    rw [hpc] at hcopy hheld
    have hin : s.save.queue.cacheDirty = false ∨ s.loop = .saving true →
        ∀ r, s.Queued r → InFile s.save.temporary r := by
      intro hsafe r hr
      exact ⟨_, hcopy, hheld hsafe _ rfl r hr⟩
    refine ⟨fun _ => rfl, trivial, fun hclean _ => hin (.inl hclean), ?_, ?_, ?_⟩
    · exact fun _ items hphase => by cases hphase
    · intro hdone
      cases final with
      | true => exact hin (.inr hloop)
      | false => cases hdone
    · intro hmain
      have hdone := h.main hmain
      rw [hloop] at hdone
      cases hdone

theorem Preserved.step {workerID : Bytes} {limit : Int} {cachePath : Bytes}
    {s s' : WorkerProcess} {a : WorkerAction} (h : Preserved s)
    (hstep : WorkerStep workerID limit cachePath s a s') (hok : EnqueuesBeforeLastSave s a) :
    Preserved s' := by
  cases hstep with
  | cancel | startCrawl | takeMetadata | takeStop =>
    exact ⟨h.idle, h.copy, h.clean, h.held, h.last, h.main⟩
  | deliver _ hsave =>
    cases hsave
    exact h.deliver hok _
  | ack hsave =>
    cases hsave
    exact h.ack _
  | tickClean => exact h
  | tickDirty hloop hsave =>
    cases hsave
    exact h.swap hloop false
  | finishClean hloop _ hclean =>
    refine ⟨?_, h.copy, h.clean, ?_, fun _ => h.clean hclean (h.idle hloop), fun _ => rfl⟩
    · exact fun hselecting => by cases hselecting
    · intro _ items hphase
      simp only [h.idle hloop] at hphase
      cases hphase
  | finishDirty hloop _ hsave =>
    cases hsave
    exact h.swap hloop true
  | save hloop ha hsave => exact h.save hloop ha hsave
  | saved hloop ha hsave =>
    obtain rfl | rfl := ha
    · exact h.saved hloop hsave
    · exact hok.elim
  | stop hmain =>
    refine ⟨h.idle, h.copy, h.clean, h.held, h.last, ?_⟩
    rintro (hbad | hbad)
    · cases hbad
    · cases hbad
  | stopFlush _ hdone => exact ⟨h.idle, h.copy, h.clean, h.held, h.last, fun _ => hdone⟩
  | shutdown hmain =>
    exact ⟨h.idle, h.copy, h.clean, h.held, h.last, fun _ => h.main (.inl hmain)⟩

theorem Preserved.init {cfg : WorkerConfig} {s : WorkerProcess} (h : (workerSystem cfg).init s) :
    Preserved s := by
  obtain ⟨-, -, hidle, -, hloop, hmain, -, haccepted⟩ := h
  have hnone : ∀ r, ¬ s.Queued r := by
    intro r ⟨hr, _⟩
    rw [haccepted] at hr
    cases hr
  refine ⟨fun _ => hidle, ?_, fun _ _ r hr => (hnone r hr).elim, fun _ _ _ r hr => (hnone r hr).elim,
    fun _ r hr => (hnone r hr).elim, ?_⟩
  · unfold SaveState.EncodesCopy
    rw [hidle]
    trivial
  · rw [hmain]
    rintro (hbad | hbad)
    · cases hbad
    · cases hbad

/-! ## The file when runWorker returns -/

/-- As long as no record is accepted after the last save has taken the queue, and no write
    fails, the cache file has every unacknowledged record when `runWorker` returns. -/
theorem shutdown_saves_accepted {cfg : WorkerConfig} {s : WorkerProcess}
    (h : ((workerSystem cfg).restrict EnqueuesBeforeLastSave).Reachable s)
    (hreturned : s.main = .returned) :
    ∀ r ∈ s.accepted, r ∈ s.save.queue.items → InFile s.save.file r := by
  have hinv : Preserved s := System.invariant (fun _ hinit => .init hinit)
    (fun _ _ _ _ hs hstep => hs.step hstep.1 hstep.2) h
  intro r haccepted hin
  exact hinv.last (hinv.main (.inr hreturned)) r ⟨haccepted, hin⟩

/-! ## A delivery during the shutdown -/

def pushWorker : WorkerConfig where
  workerID := ascii "w"
  workerQueue := 2
  masterURL := ascii "http://master"
  clusterToken := ascii "t"
  workerBatch := 1
  workerCacheDir := ascii "c"
  address := []

def pushStart : WorkerProcess where
  save := ⟨runWorker pushWorker fun _ => none, .idle, none, none, []⟩
  cancelled := false
  loop := .selecting
  main := .waiting
  crawlers := []
  accepted := []

theorem init_pushStart : (workerSystem pushWorker).init pushStart :=
  ⟨by decide, ⟨fun _ => none, rfl, rfl⟩, rfl, rfl, rfl, rfl, rfl, rfl⟩

theorem not_lastSaveTaken {s : WorkerProcess} (h : s.loop = .selecting) : ¬ LastSaveTaken s := by
  simp [LastSaveTaken, h]

/-- A record is accepted before the context is cancelled, and the last save writes it. -/
theorem shutdown_saves_accepted_record : ∃ s : WorkerProcess, s.main = .returned ∧
    s.accepted = [⟨1, torrentNamed (ascii "a")⟩] ∧
    InFile s.save.file ⟨1, torrentNamed (ascii "a")⟩ := by
  let sys := (workerSystem pushWorker).restrict EnqueuesBeforeLastSave
  let md := torrentNamed (ascii "a")
  have hinit : sys.Reachable pushStart := .init init_pushStart
  have htaken := (hinit.step ⟨.startCrawl, trivial⟩).step
    ⟨@WorkerStep.takeMetadata _ _ _ _ [] [] false md rfl, trivial⟩
  have hdelivered := htaken.step
    ⟨@WorkerStep.deliver _ _ _ _ [] [] false md _ rfl .enqueue, fun _ => not_lastSaveTaken rfl⟩
  have hcancelled := hdelivered.step ⟨.cancel, trivial⟩
  have hswapped := hcancelled.step ⟨.finishDirty rfl rfl (.swap rfl (by decide) rfl), trivial⟩
  have hcopied := hswapped.step ⟨.save rfl (.inl rfl) (.copy rfl), trivial⟩
  have hmarshalled := hcopied.step ⟨.save rfl (.inr (.inl rfl)) (.marshal rfl), trivial⟩
  have hwritten := hmarshalled.step ⟨.save rfl (.inr (.inr rfl)) (.write rfl), trivial⟩
  have hsaved := hwritten.step ⟨.saved rfl (.inl rfl) (.rename rfl), trivial⟩
  have hstopped := (hsaved.step ⟨.stop rfl rfl, trivial⟩).step ⟨.stopFlush rfl rfl, trivial⟩
  have hreturned := hstopped.step ⟨.shutdown rfl, trivial⟩
  exact ⟨_, rfl, rfl, shutdown_saves_accepted hreturned rfl _ (by decide) (by decide)⟩

/-- The crawl goroutine has taken metadata from `Drain` when the context is cancelled; the
    loop finds the queue clean, and only then the record is accepted. -/
theorem shutdown_loses_record : ∃ s r, (workerSystem pushWorker).Reachable s ∧
    s.main = .returned ∧ r ∈ s.accepted ∧ r ∈ s.save.queue.items ∧ ¬ InFile s.save.file r := by
  let md := torrentNamed (ascii "a")
  have hinit : (workerSystem pushWorker).Reachable pushStart := .init init_pushStart
  have htaken := (hinit.step .startCrawl).step
    (@WorkerStep.takeMetadata _ _ _ _ [] [] false md rfl)
  have hsaved := (htaken.step .cancel).step (.finishClean rfl rfl rfl)
  have hstopped := (hsaved.step (.stop rfl rfl)).step (.stopFlush rfl rfl)
  have hdelivered := hstopped.step (@WorkerStep.deliver _ _ _ _ [] [] true md _ rfl .enqueue)
  refine ⟨_, ⟨1, md⟩, hdelivered.step (.shutdown rfl), rfl, by decide, by decide, ?_⟩
  rintro ⟨items, hfile, -⟩
  cases hfile

end Cluster
