-- SUMMARY: Where the torrents that a node stores come from: each says what an info dictionary says whose hash is its info hash.
import LazyDhtc.Cluster.Transfer
import LazyDhtc.Ui.CrawlShutdown
import LazyDhtc.Ui.Saved

/-!
# Provenance

A node stores what its downloads have reported, and a download reports only what it has
verified. In between the metadata are in the hands of download goroutines, of the `drain`
channel, of a crawl and of a call of `IngestMetadata`, while peers send what they like.
-/

namespace Ui

open Cache Db DhtClient Transition

/-! ## Metadata of a dictionary -/

/-- The metadata say what this info dictionary says, and it is the one of their info hash. -/
structure ReadFrom (p : Packages) (dictionary : Bytes) (md : Metadata) : Prop where
  sum : Client.metadataSum p md.infoHash dictionary = md.infoHash
  info : ∃ info, p.unmarshalInfo dictionary = .ok info ∧ Client.validateInfo p info = .ok () ∧
    md.name = info.name ∧ md.files = Client.filesOf p info ∧
    Client.sumSizes (Client.filesOf p info) 0 = .ok md.totalSize

def Verified (p : Packages) (md : Metadata) : Prop := ∃ dictionary, ReadFrom p dictionary md

theorem Verified.withFamily {p : Packages} {md : Metadata} (h : Verified p md) (family : Int64) :
    Verified p { md with family := family } := by
  obtain ⟨dictionary, hsum, hinfo⟩ := h
  exact ⟨dictionary, hsum, hinfo⟩

/-- A dictionary determines what metadata say that are read from it. -/
theorem ReadFrom.unique {p : Packages} {dictionary : Bytes} {md md' : Metadata}
    (h : ReadFrom p dictionary md) (h' : ReadFrom p dictionary md') :
    md.name = md'.name ∧ md.files = md'.files ∧ md.totalSize = md'.totalSize := by
  obtain ⟨info, hinfo, -, hname, hfiles, hsize⟩ := h.info
  obtain ⟨info', hinfo', -, hname', hfiles', hsize'⟩ := h'.info
  obtain rfl : info = info' := Except.ok.inj (hinfo.symm.trans hinfo')
  exact ⟨hname.trans hname'.symm, hfiles.trans hfiles'.symm,
    Except.ok.inj (hsize.symm.trans hsize')⟩

theorem verify_verified {p : Packages} {c : Client} {md : Metadata} (h : c.verify p = .ok md) :
    Verified p md := by
  obtain ⟨hsum, info, hinfo, hvalid, hsizes, -⟩ := Client.verify_ok h
  have hmd := Except.ok.inj (h.symm.trans (Client.verify_eq hsum hinfo hvalid hsizes))
  have hinfoHash : md.infoHash = c.infoHash := congrArg Metadata.infoHash hmd
  exact ⟨c.metadata, hinfoHash ▸ hsum, info, hinfo, hvalid, congrArg Metadata.name hmd,
    congrArg Metadata.files hmd, hsizes⟩

/-- `Do` has reported the metadata, for some peer and at some time. -/
def Reports (p : Packages) (infoHash : Bytes) (result : Metadata) : Prop :=
  ∃ now clientID conn,
    ((newClient infoHash clientID).do { p with unixNow := now } conn).2 = .onSuccess result

theorem Reports.verified {p : Packages} {infoHash : Bytes} {result : Metadata}
    (h : Reports p infoHash result) : Verified p result := by
  obtain ⟨now, clientID, conn, hdo⟩ := h
  obtain ⟨c', -, hverify⟩ := Client.do_onSuccess hdo
  obtain ⟨dictionary, hsum, hinfo⟩ := verify_verified hverify
  exact ⟨dictionary, hsum, hinfo⟩

/-! ## On the way to the database -/

/-- All metadata in the hands of the sink have the property. -/
structure SinkCarries (P : Metadata → Prop) (s : SinkRun) : Prop where
  downloads : ∀ d ∈ s.downloads, ∀ result, d.phase.result = some result → P result
  drain : ∀ md ∈ s.sink.drain, P md

/-- And those in the hands of the crawl. -/
structure CrawlCarries (P : Metadata → Prop) (s : CrawlState) : Prop where
  run : SinkCarries P s.run
  delivering : ∀ md, s.pc = .delivering md → P md

section

variable {P : Metadata → Prop}

/-- What a goroutine's step leaves behind, in goroutines and in `drain`. -/
theorem DownloadStep.carries {ms ms' : Sink} {others ds : List Download} {d : Download}
    {a : DownloadAction} (hfamily : ∀ md family, P md → P { md with family := family })
    (hsuccess : ∀ result, a = .onSuccess result → P result)
    (hd : ∀ result, d.phase.result = some result → P result) (hdrain : ∀ md ∈ ms.drain, P md)
    (hstep : DownloadStep ms others d a ms' ds) :
    (∀ d' ∈ ds, ∀ result, d'.phase.result = some result → P result) ∧ ∀ md ∈ ms'.drain, P md := by
  cases hstep with
  | start | acquire | onError | check | abandonFlush | abandonError =>
    simp only [List.mem_singleton, forall_eq]
    exact ⟨fun _ h => (by cases h), hdrain⟩
  | abandonStart | release => exact ⟨fun _ h => (List.not_mem_nil h).elim, hdrain⟩
  | onPeers =>
    simp only [List.mem_singleton, forall_eq, Sink.drain_onPeers]
    exact ⟨fun _ h => (by cases h), hdrain⟩
  | onSuccess =>
    simp only [List.mem_singleton, forall_eq]
    refine ⟨fun result h => ?_, hdrain⟩
    cases h
    exact hsuccess _ rfl
  | lock =>
    simp only [List.mem_singleton, forall_eq]
    refine ⟨fun result h => ?_, hdrain⟩
    cases h
    exact hd _ rfl
  | take =>
    simp only [List.mem_singleton, forall_eq]
    refine ⟨fun result h => ?_, hdrain⟩
    cases h
    exact hfamily _ _ (hd _ rfl)
  | send =>
    simp only [List.mem_singleton, forall_eq, List.mem_append]
    refine ⟨fun _ h => (by cases h), fun md hmd => ?_⟩
    rcases hmd with hold | rfl
    · exact hdrain md hold
    · exact hd _ rfl
  | @retry infoHash _ _ _ herr =>
    have hsame := ms.drain_onLeechErrorLocked infoHash
    rw [herr] at hsame
    rw [hsame]
    refine ⟨fun d' hd' result h => ?_, hdrain⟩
    simp only [List.mem_cons, List.not_mem_nil, or_false] at hd'
    rcases hd' with rfl | rfl <;> cases h
  | @discard infoHash _ _ herr =>
    have hsame := ms.drain_onLeechErrorLocked infoHash
    rw [herr] at hsame
    rw [hsame]
    simp only [List.mem_singleton, forall_eq]
    exact ⟨fun _ h => (by cases h), hdrain⟩

theorem SinkCarries.step {s s' : SinkRun} {a : SinkAction} (h : SinkCarries P s)
    (hfamily : ∀ md family, P md → P { md with family := family })
    (hsuccess : ∀ infoHash result, a = .download infoHash (.onSuccess result) → P result)
    (hstep : SinkStep s a s') : SinkCarries P s' := by
  cases hstep with
  | @accept res ms peer hsink =>
    have hdrain := s.sink.drain_sink res
    rw [hsink] at hdrain
    refine ⟨fun d hd result hresult => ?_, hdrain ▸ h.drain⟩
    rcases List.mem_cons.1 hd with rfl | hold
    · cases hresult
    · exact h.downloads d hold result hresult
  | @refuse res ms hsink =>
    have hdrain := s.sink.drain_sink res
    rw [hsink] at hdrain
    exact ⟨h.downloads, hdrain ▸ h.drain⟩
  | addPeers hadd => exact ⟨h.downloads, (Sink.drain_addPeers hadd).symm ▸ h.drain⟩
  | receive hdrain =>
    exact ⟨h.downloads, fun md hmd => h.drain md (hdrain ▸ List.mem_cons_of_mem _ hmd)⟩
  | terminate => exact ⟨h.downloads, h.drain⟩
  | @download pre post ds d a ms hdownloads hdownload =>
    have hall := h.downloads
    rw [hdownloads] at hall
    obtain ⟨hds, hdrain⟩ := DownloadStep.carries hfamily
      (fun result ha => hsuccess _ result (by rw [ha]))
      (hall d (List.mem_append_right _ List.mem_cons_self)) h.drain hdownload
    refine ⟨fun d' hd' => ?_, hdrain⟩
    rw [List.append_assoc] at hd'
    rcases List.mem_append.1 hd' with hpre | hrest
    · exact hall d' (List.mem_append_left _ hpre)
    · rcases List.mem_append.1 hrest with hnew | hpost
      · exact hds d' hnew
      · exact hall d' (List.mem_append_right _ (List.mem_cons_of_mem _ hpost))

theorem SinkCarries.received {s s' : SinkRun} {md : Metadata} (h : SinkCarries P s)
    (hstep : SinkStep s (.receive md) s') : P md := by
  cases hstep with
  | receive hdrain => exact h.drain md (hdrain ▸ List.mem_cons_self)

theorem CrawlCarries.step {db : Bool} {s s' : CrawlState} {a : CrawlAction} (h : CrawlCarries P s)
    (hfamily : ∀ md family, P md → P { md with family := family })
    (hsuccess : ∀ infoHash result, a = .download infoHash (.onSuccess result) → P result)
    (hstep : CrawlStep db s a s') : CrawlCarries P s' := by
  cases hstep with
  | requestStop | expireAfter | manager => exact ⟨h.run, h.delivering⟩
  | takeStop | takeNew | takeKnown | remove | finish => exact ⟨h.run, fun _ hpc => (by cases hpc)⟩
  | sinkAccepts _ _ hrun | sinkRefuses _ _ hrun | addPeers _ hrun | terminateSink _ hrun =>
    exact ⟨h.run.step hfamily (fun _ _ ha => (by cases ha)) hrun, fun _ hpc => (by cases hpc)⟩
  | takeMetadata _ hrun =>
    refine ⟨h.run.step hfamily (fun _ _ ha => (by cases ha)) hrun, fun md hpc => ?_⟩
    cases hpc
    exact h.run.received hrun
  | deliver =>
    refine ⟨h.run, fun md hpc => ?_⟩
    dsimp only at hpc
    split at hpc <;> cases hpc
  | download hrun =>
    refine ⟨h.run.step hfamily (fun infoHash result ha => ?_) hrun, h.delivering⟩
    cases ha
    exact hsuccess _ _ rfl

end

/-! ## The node -/

/-- A download that succeeds has a report of `Do`. -/
def Performed (p : Packages) : NodeAction → Prop
  | .crawl (.download infoHash (.onSuccess result)) => Reports p infoHash result
  | _ => True

/-- The runs of a node whose downloads are those of the client. -/
def performedNode (p : Packages) (env : Db.Environment) : System NodeState NodeAction :=
  (nodeSystem env).restrict fun _ a => Performed p a

/-- The torrent is stored from metadata with this property. -/
def StoredFrom (P : Metadata → Prop) (t : Torrent) : Prop :=
  ∃ md categories, P md ∧ t = .ofMetadata t.id md categories

/-- All metadata in the hands of a node have the property, and all torrents but the old ones
    come from such metadata. -/
structure NodeCarries (P : Metadata → Prop) (old : List Torrent) (s : NodeState) : Prop where
  crawls : ∀ n ∈ s.crawls, CrawlCarries P n.state
  calls : ∀ n ∈ s.crawls, ∀ call, n.call = some call → P call.md
  stored : ∀ t ∈ s.db.torrents, t ∈ old ∨ StoredFrom P t

theorem CallStep.md {env : Db.Environment} {db db' : Database} {c c' : Call} {a : CallAction}
    (h : CallStep env db c a db' c') : c'.md = c.md := by
  cases h <;> rfl

theorem CallStep.stored {P : Metadata → Prop} {old : List Torrent} {env : Db.Environment}
    {db db' : Database} {c c' : Call} {a : CallAction} (hc : P c.md)
    (hdb : ∀ t ∈ db.torrents, t ∈ old ∨ StoredFrom P t) (h : CallStep env db c a db' c') :
    ∀ t ∈ db'.torrents, t ∈ old ∨ StoredFrom P t := by
  rcases CallStep.torrents h with
    ⟨hsame, -⟩ | ⟨categories, -, -, -, hnew, -⟩ | ⟨gone, -, -, -, hrest, -⟩
  · rwa [hsame]
  · intro t ht
    rw [hnew] at ht
    rcases List.mem_append.1 ht with hold | ht
    · exact hdb t hold
    · rw [List.mem_singleton.1 ht]
      exact .inr ⟨c.md, categories, hc, rfl⟩
  · intro t ht
    rw [hrest] at ht
    exact hdb t (List.mem_filter.1 ht).1

theorem clearDataPost_torrents (b : Backend) (confirm : Bytes) (outcome : ClearOutcome)
    (db : Database) : (clearDataPost b confirm outcome db).1.torrents ⊆ db.torrents := by
  unfold clearDataPost
  split
  · exact List.Subset.refl _
  · cases outcome with
    | cleared => exact List.nil_subset _
    | torrentsFail => exact List.Subset.refl _
    | statsFail => cases b with
      | clover => exact List.nil_subset _
      | gorm => exact List.Subset.refl _

/-- One crawl of a node takes a step. -/
theorem forall_replace {α : Type} {P : α → Prop} {xs pre post : List α} {x y : α}
    (hxs : xs = pre ++ x :: post) (h : ∀ z ∈ xs, P z) (hy : P x → P y) :
    ∀ z ∈ pre ++ y :: post, P z := by
  intro z hz
  rw [hxs] at h
  rcases List.mem_append.1 hz with hpre | hcons
  · exact h z (List.mem_append_left _ hpre)
  · rcases List.mem_cons.1 hcons with rfl | hpost
    · exact hy (h x (List.mem_append_right _ List.mem_cons_self))
    · exact h z (List.mem_append_right _ (List.mem_cons_of_mem _ hpost))

theorem mem_crawls {xs pre post : List NodeCrawl} {n : NodeCrawl} (h : xs = pre ++ n :: post) :
    n ∈ xs := h ▸ List.mem_append_right _ List.mem_cons_self

theorem NodeCarries.step {P : Metadata → Prop} {old : List Torrent} {env : Db.Environment}
    {s s' : NodeState} {a : NodeAction} (h : NodeCarries P old s)
    (hfamily : ∀ md family, P md → P { md with family := family })
    (hsuccess : ∀ infoHash result, a = .crawl (.download infoHash (.onSuccess result)) → P result)
    (hstep : NodeStep env s a s') : NodeCarries P old s' := by
  cases hstep with
  | @startCrawl cfg =>
    refine ⟨fun n hn => ?_, fun n hn call hcall => ?_, h.stored⟩
    · rcases List.mem_append.1 hn with hold | hn
      · exact h.crawls n hold
      · rw [List.mem_singleton.1 hn]
        exact ⟨⟨fun _ hd => (List.not_mem_nil hd).elim, fun _ hd => (List.not_mem_nil hd).elim⟩,
          fun _ hpc => (by cases hpc)⟩
    · rcases List.mem_append.1 hn with hold | hn
      · exact h.calls n hold call hcall
      · rw [List.mem_singleton.1 hn] at hcall
        cases hcall
  | @crawl pre post n a c hcrawls _ hcrawl =>
    have hn := h.crawls n (mem_crawls hcrawls)
    have hnext : CrawlCarries P c := CrawlCarries.step (s := { n.state with cache := s.cache })
      ⟨hn.run, hn.delivering⟩ hfamily
      (fun infoHash result ha => hsuccess infoHash result (ha ▸ rfl)) hcrawl
    exact ⟨forall_replace hcrawls h.crawls fun _ => hnext,
      forall_replace hcrawls h.calls fun hcalls => hcalls, h.stored⟩
  | @ingest pre post c md hcrawls hpc =>
    have hc := h.crawls _ (mem_crawls hcrawls)
    refine ⟨forall_replace hcrawls h.crawls fun hc => hc,
      forall_replace hcrawls h.calls fun _ call hcall => ?_, h.stored⟩
    cases hcall
    exact hc.delivering md hpc
  | @statement pre post c call call' a db hcrawls hcall =>
    have hmd := h.calls _ (mem_crawls hcrawls) call rfl
    refine ⟨forall_replace hcrawls h.crawls fun hc => hc,
      forall_replace hcrawls h.calls fun _ call'' hcall'' => ?_, CallStep.stored hmd h.stored hcall⟩
    cases hcall''
    rw [CallStep.md hcall]
    exact hmd
  | @deliver pre post c c' call inserted hcrawls _ hcrawl =>
    have hc := h.crawls _ (mem_crawls hcrawls)
    have hnext : CrawlCarries P c' := CrawlCarries.step (s := { c with cache := s.cache })
      ⟨hc.run, hc.delivering⟩ hfamily (fun _ _ ha => (by cases ha)) hcrawl
    refine ⟨forall_replace hcrawls h.crawls fun _ => hnext,
      forall_replace hcrawls h.calls fun _ call hcall => ?_, h.stored⟩
    cases hcall
  | configure => exact ⟨h.crawls, h.calls, h.stored⟩
  | clear =>
    exact ⟨h.crawls, h.calls, fun t ht => h.stored t (clearDataPost_torrents _ _ _ _ ht)⟩

theorem node_carries {p : Packages} {env : Db.Environment} {s₀ s : NodeState}
    (hinit : s₀.crawls = []) (h : (performedNode p env).Steps s₀ s) :
    NodeCarries (Verified p) s₀.db.torrents s := by
  refine h.preserves (fun s a s' hs hstep => ?_) ⟨?_, ?_, fun t ht => .inl ht⟩
  · obtain ⟨hnode, hperformed⟩ := hstep
    refine hs.step (fun md family hmd => hmd.withFamily family) (fun infoHash result ha => ?_) hnode
    subst ha
    exact hperformed.verified
  · rw [hinit]
    exact fun n hn => (List.not_mem_nil hn).elim
  · rw [hinit]
    exact fun n hn => (List.not_mem_nil hn).elim

/-- Nothing that peers send gets into the database unverified: over every run of a node, each
    torrent that was not there when it started has the info hash of some info dictionary, and
    it is stored with the name, the files and the size that this dictionary says. -/
theorem stored_verified {p : Packages} {env : Db.Environment} {s₀ s : NodeState}
    (hinit : (performedNode p env).init s₀) (h : (performedNode p env).Steps s₀ s) :
    ∀ t ∈ s.db.torrents, t ∈ s₀.db.torrents ∨ ∃ infoHash dictionary info,
      t.infoHash = encodeToString infoHash ∧ Client.metadataSum p infoHash dictionary = infoHash ∧
      p.unmarshalInfo dictionary = .ok info ∧ Client.validateInfo p info = .ok () ∧
      t.name = info.name ∧ t.files = Client.filesOf p info ∧
      Client.sumSizes t.files 0 = .ok t.totalSize := by
  intro t ht
  refine ((node_carries hinit.1 h).stored t ht).imp id fun hstored => ?_
  obtain ⟨md, categories, ⟨dictionary, hsum, info, hinfo, hvalid, hname, hfiles, hsize⟩, heq⟩ :=
    hstored
  refine ⟨md.infoHash, dictionary, info, ?_, hsum, hinfo, hvalid, ?_, ?_, ?_⟩
  · rw [heq]
    rfl
  · rw [heq]
    exact hname
  · rw [heq]
    exact hfiles
  · rw [heq]
    simp only [Torrent.ofMetadata]
    rw [hfiles]
    exact hsize

theorem encodeToString_injective {a b : Bytes} (h : encodeToString a = encodeToString b) : a = b :=
  Option.some.inj ((Hex.decode_encode a).symm.trans ((congrArg Hex.decode h).trans
    (Hex.decode_encode b)))

/-- Two info dictionaries with the same sum for this info hash. -/
def Collision (p : Packages) (infoHash : Bytes) : Prop :=
  ∃ dictionary dictionary', dictionary ≠ dictionary' ∧
    Client.metadataSum p infoHash dictionary = infoHash ∧
    Client.metadataSum p infoHash dictionary' = infoHash

/-- Peers cannot make nodes disagree: if two nodes, or one node at two times, store torrents
    with the same info hash, whatever peers each of them got it from, then these have the
    same name, files and size, or the peers have found a collision of the hash function. -/
theorem nodes_agree {p : Packages} {env env' : Db.Environment} {s₀ s t₀ t : NodeState}
    (hs₀ : (performedNode p env).init s₀) (hs : (performedNode p env).Steps s₀ s)
    (ht₀ : (performedNode p env').init t₀) (ht : (performedNode p env').Steps t₀ t)
    {a b : Torrent} (ha : a ∈ s.db.torrents) (hnew : a ∉ s₀.db.torrents)
    (hb : b ∈ t.db.torrents) (hnew' : b ∉ t₀.db.torrents) (heq : a.infoHash = b.infoHash) :
    (a.name = b.name ∧ a.files = b.files ∧ a.totalSize = b.totalSize) ∨
      ∃ infoHash, a.infoHash = encodeToString infoHash ∧ Collision p infoHash := by
  obtain ⟨md, categories, ⟨dictionary, hread⟩, hmd⟩ :=
    ((node_carries hs₀.1 hs).stored a ha).resolve_left hnew
  obtain ⟨md', categories', ⟨dictionary', hread'⟩, hmd'⟩ :=
    ((node_carries ht₀.1 ht).stored b hb).resolve_left hnew'
  have hinfoHash : md.infoHash = md'.infoHash := by
    rw [hmd, hmd'] at heq
    exact encodeToString_injective heq
  by_cases hsame : dictionary = dictionary'
  · subst hsame
    rw [hmd, hmd']
    exact .inl (hread.unique hread')
  · refine .inr ⟨md.infoHash, by rw [hmd]; rfl, dictionary, dictionary', hsame, hread.sum, ?_⟩
    rw [hinfoHash]
    exact hread'.sum

/-! ## A torrent -/

/-- The only crawl of a node takes a step. -/
theorem crawl_alone {p : Packages} {env : Db.Environment} {s : NodeState} {c c' : CrawlState}
    {a : CrawlAction} (hs : s.crawls = [⟨c, none⟩])
    (h : CrawlStep true { c with cache := s.cache } a c') (ha : a.plain = true)
    (hperformed : Performed p (.crawl a)) :
    (performedNode p env).Steps s { s with
      cache := c'.cache
      crawls := [⟨c', none⟩]
      history := s.history ++ crawlEvents { c with cache := s.cache } a } :=
  .single ⟨@NodeStep.crawl env s [] [] ⟨c, none⟩ a c' hs ha h, hperformed⟩

/-- So does its only download. -/
theorem download_crawl {c : CrawlState} {d : Download} {a : DownloadAction} {ms : Sink}
    {ds : List Download} (hd : c.run.downloads = [d])
    (hstep : DownloadStep c.run.sink [] d a ms ds) :
    CrawlStep true c (.download d.infoHash a) { c with
      run := ⟨ms, [] ++ ds ++ [], c.run.log ++ a.events d.infoHash, c.run.sent ++ a.sent⟩
      cache := cacheAfter c.cache d.infoHash a } :=
  .download (@SinkStep.download c.run [] [] ds d a ms hd hstep)

/-- A statement of the only call. -/
theorem statement_alone {p : Packages} {env : Db.Environment} {s : NodeState} {c : CrawlState}
    {call call' : Call} {a : CallAction} {db : Database} (hs : s.crawls = [⟨c, some call⟩])
    (h : CallStep env s.db call a db call') :
    (performedNode p env).Steps s { s with db := db, crawls := [⟨c, some call'⟩] } :=
  .single ⟨@NodeStep.statement env s [] [] c call call' a db hs h, trivial⟩

def gbkResult : Result := ⟨Client.gbkHash, [samplePeer], 4⟩

theorem reports_gbk : Reports Client.gbkPackages Client.gbkHash Client.gbkMetadata :=
  ⟨1700000000, [], Client.gbkConn, Client.do_gbk⟩

/-- A node finds a torrent, downloads its metadata and stores it. -/
theorem run_gbk : ∃ s, (performedNode Client.gbkPackages plainNode).Steps (startedNode []) s ∧
    ∃ categories, s.db.torrents =
      [.ofMetadata 2 { Client.gbkMetadata with family := 4 } categories] := by
  have hstart : (performedNode Client.gbkPackages plainNode).Steps (startedNode []) _ :=
    .single ⟨.startCrawl (show sampleConfig.hasDatabase = true from rfl), trivial⟩
  have htake := hstart.trans (crawl_alone rfl
    (@CrawlStep.takeNew _ _ gbkResult 0 _ rfl rfl) rfl trivial)
  have haccept := htake.trans (crawl_alone rfl (.sinkAccepts rfl rfl (.accept rfl)) rfl trivial)
  have hspawned := haccept.trans (crawl_alone rfl (download_crawl rfl (.start rfl)) rfl trivial)
  have hacquired := hspawned.trans (crawl_alone rfl
    (download_crawl rfl (.acquire Nat.one_pos)) rfl trivial)
  have hsuccess := hacquired.trans (crawl_alone rfl
    (download_crawl rfl (@DownloadStep.onSuccess _ _ _ _ Client.gbkMetadata rfl)) rfl reports_gbk)
  have hfree : ∀ d ∈ ([] : List Download), d.phase.holdsDrainMx = false := fun d hd =>
    (List.not_mem_nil hd).elim
  have hlocked := hsuccess.trans (crawl_alone rfl (download_crawl rfl (.lock hfree)) rfl trivial)
  have htaken := hlocked.trans (crawl_alone rfl (download_crawl rfl (.take rfl)) rfl trivial)
  have hsent := htaken.trans (crawl_alone rfl
    (download_crawl rfl (.send (by decide))) rfl trivial)
  have hreceived := hsent.trans (crawl_alone rfl (.takeMetadata rfl (.receive rfl)) rfl trivial)
  have hingest := hreceived.tail
    (show (performedNode Client.gbkPackages plainNode).step _ (.ingest _) _ from
      ⟨@NodeStep.ingest plainNode _ [] [] _ _ rfl rfl, trivial⟩)
  have hpassed := hingest.trans (statement_alone rfl (.pass rfl rfl))
  have hinserted := hpassed.trans (statement_alone rfl (.insert rfl (by decide) (.refl _)))
  exact ⟨_, hinserted, _, rfl⟩

/-- The torrent is what the dictionary says. -/
theorem stored_verified_gbk : ∃ s, (performedNode Client.gbkPackages plainNode).Steps
    (startedNode []) s ∧ ∃ t ∈ s.db.torrents, ∃ infoHash dictionary,
      t.infoHash = encodeToString infoHash ∧
      Client.metadataSum Client.gbkPackages infoHash dictionary = infoHash := by
  obtain ⟨s, hsteps, categories, htorrents⟩ := run_gbk
  have hmem : Torrent.ofMetadata 2 { Client.gbkMetadata with family := 4 } categories ∈
      s.db.torrents := htorrents ▸ List.mem_singleton_self _
  obtain hold | ⟨infoHash, dictionary, -, hhash, hsum, -⟩ :=
    stored_verified ⟨rfl, .inl ⟨0, rfl, rfl⟩⟩ hsteps _ hmem
  · exact (List.not_mem_nil hold).elim
  · exact ⟨s, hsteps, _, hmem, infoHash, dictionary, hhash, hsum⟩

/-- The torrent of a node, compared with itself. -/
theorem nodes_agree_gbk : ∃ s, (performedNode Client.gbkPackages plainNode).Steps
    (startedNode []) s ∧ ∃ t ∈ s.db.torrents,
      (t.name = t.name ∧ t.files = t.files ∧ t.totalSize = t.totalSize) ∨
        ∃ infoHash, t.infoHash = encodeToString infoHash ∧
          Collision Client.gbkPackages infoHash := by
  obtain ⟨s, hsteps, categories, htorrents⟩ := run_gbk
  have hmem : Torrent.ofMetadata 2 { Client.gbkMetadata with family := 4 } categories ∈
      s.db.torrents := htorrents ▸ List.mem_singleton_self _
  have hinit : (performedNode Client.gbkPackages plainNode).init (startedNode []) :=
    ⟨rfl, .inl ⟨0, rfl, rfl⟩⟩
  exact ⟨s, hsteps, _, hmem, nodes_agree hinit hsteps hinit hsteps hmem List.not_mem_nil hmem
    List.not_mem_nil rfl⟩

end Ui
