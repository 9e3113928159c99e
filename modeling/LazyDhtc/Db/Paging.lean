-- SUMMARY: Walks through the pages of the latest torrents or of a search while torrents are ingested and pruned: which ones they cannot miss.
import LazyDhtc.Db.Pruning
import LazyDhtc.Lib.Paging

/-!
# Paging

The pages of `GetLatest` and `Search` are cut out of the torrents by descending time, each
by a query of its own. In between torrents are stored and pruned, so that the others change
their places.
-/

namespace Db

open DhtClient Transition

/-- What is listed: the latest torrents, or those that a search selects. -/
inductive Listing where
  | latest
  | search (key searchType searchInput : Bytes) (filters : SearchFilters)

/-- The torrents that `GetLatest` or `Search` takes a page of. -/
def Backend.listed (b : Backend) (torrents : List Torrent) : Listing → List Torrent
  | .latest => torrents
  | .search key searchType searchInput filters =>
    match b with
    | .clover => cloverSearch torrents key searchType searchInput filters
    | .gorm e => gormSearch e torrents key searchType searchInput filters

/-- The condition for a torrent to be listed. -/
def Backend.lists (b : Backend) : Listing → Torrent → Bool
  | .latest, _ => true
  | .search key searchType searchInput filters, t =>
    match b with
    | .clover => matchTorrent t key searchType searchInput && filters.admits t
    | .gorm e => gormSearchCondition e key searchType searchInput t && filters.admits t

theorem Backend.listed_eq (b : Backend) (torrents : List Torrent) (listing : Listing) :
    b.listed torrents listing = torrents.filter (b.lists listing) := by
  cases listing with
  | latest => exact (List.filter_eq_self.2 fun t _ => rfl).symm
  | search =>
    cases b with
    | clover => rfl
    | gorm e => rfl

/-- `parsePagination`, given the numbers that `Atoi` has returned: the page, the limit and
    the offset. -/
def parsePagination (page limit : Int64) : Int64 × Int64 × Int64 :=
  let page := if page < 1 then 1 else page
  let limit := if limit < 1 then 50 else limit
  (page, limit, (page - 1) * limit)

/-! ## A reader -/

/-- Someone who asks for page after page, from the first one on. -/
structure Browsing where
  repository : RepositoryState
  /-- How many pages were read. -/
  read : Nat
  seen : List Torrent
  /-- A page was not full. -/
  ended : Bool

inductive BrowseAction where
  | repository (a : RepositoryAction)
  | page

inductive BrowseStep (env : Environment) (listing : Listing) (limit : Int64) :
    Browsing → BrowseAction → Browsing → Prop where
  | repository {s : Browsing} {a : RepositoryAction} {repository : RepositoryState} :
      RepositoryStep env s.repository a repository →
      BrowseStep env listing limit s (.repository a) { s with repository := repository }
  /-- The next page, as long as its number and its offset are no larger than an `int`. -/
  | page {s : Browsing} {page page' limit' offset : Int64} {result : List Torrent} :
      page.toInt = s.read + 1 → parsePagination page limit = (page', limit', offset) →
      offset.toInt = s.read * limit'.toInt →
      IsPage Torrent.rank (env.backend.listed s.repository.db.torrents listing)
        limit'.toInt.toNat offset.toInt.toNat result →
      BrowseStep env listing limit s .page { s with
        read := s.read + 1
        seen := s.seen ++ result
        ended := s.ended || result.length < limit'.toInt.toNat }

/-- A reader starts while no prune is between its `SELECT` and its `DELETE`. -/
def browseSystem (env : Environment) (start : List Torrent → Prop) (listing : Listing)
    (limit : Int64) : System Browsing BrowseAction where
  init s := (repositorySystem env start).Reachable s.repository ∧
    (∀ c ∈ s.repository.calls, c.pc.selected = []) ∧ s.read = 0 ∧ s.seen = [] ∧ s.ended = false
  step := BrowseStep env listing limit

/-- No prune selects the torrent, and at each page no other listed torrent has its time. -/
def SparesAlone (env : Environment) (listing : Listing) (t : Torrent) (s : Browsing) :
    BrowseAction → Prop
  | .repository (.call _ (.select selected)) => t ∉ selected
  | .repository _ => True
  | .page => Alone Torrent.rank (env.backend.listed s.repository.db.torrents listing) t

/-- How many torrents a full page has. -/
def pageLimit (limit : Int64) : Nat := (if limit < 1 then 50 else limit).toInt.toNat

/-- The limit is positive, so that it is the number of torrents of a page. -/
theorem limit_of_parsePagination {page limit page' limit' offset : Int64}
    (h : parsePagination page limit = (page', limit', offset)) :
    limit'.toInt = pageLimit limit := by
  obtain rfl : (if limit < 1 then 50 else limit) = limit' := congrArg (fun r => r.2.1) h
  refine (Int.toNat_of_nonneg ?_).symm
  split_ifs with hsmall
  · decide
  · have hone : (1 : Int64).toInt ≤ limit.toInt :=
      Int64.le_iff_toInt_le.1 (Int64.not_lt.1 hsmall)
    exact Int.le_trans (by decide) hone

/-! ## The places of a torrent -/

/-- The torrent is stored, and no prune is about to delete it or a newer one. -/
structure Shown (env : Environment) (listing : Listing) (limit : Int64) (t : Torrent)
    (s : Browsing) : Prop where
  identified : Identified s.repository
  stored : t ∈ s.repository.db.torrents
  older : ∀ d ∈ pending s.repository.calls, d.rank ≤ t.rank ∧ d ≠ t
  covered : Covered Torrent.rank (pageLimit limit)
    (env.backend.listed s.repository.db.torrents listing) s.read s.seen t
  ended : s.ended = true → t ∈ s.seen

/-- A statement of a call keeps the torrent, and does not move it to an earlier place. -/
theorem CallStep.keeps {env : Environment} {db db' : Database} {c c' : Call} {a : CallAction}
    {t : Torrent} (h : CallStep env db c a db' c') (ht : t ∈ db.torrents)
    (hsame : ∀ d ∈ c.pc.selected, ∀ u ∈ db.torrents, u.id = d.id → u = d)
    (holder : ∀ d ∈ c.pc.selected, d.rank ≤ t.rank ∧ d ≠ t)
    (hspares : ∀ selected, a = .select selected → t ∉ selected) (listing : Listing) :
    t ∈ db'.torrents ∧ (∀ d ∈ c'.pc.selected, d.rank ≤ t.rank ∧ d ≠ t) ∧
      above Torrent.rank (env.backend.listed db.torrents listing) t ≤
        above Torrent.rank (env.backend.listed db'.torrents listing) t := by
  obtain ⟨heq, -, hsub⟩ | ⟨categories, heq, -, hnil⟩ | ⟨gone, heq, -, hgone, hsub⟩ |
    ⟨count, selected, rfl, -, rfl, hold, hpc'⟩ := h.selected
  · rw [heq]
    exact ⟨ht, fun d hd => holder d (hsub hd), Nat.le_refl _⟩
  · rw [heq, hnil]
    refine ⟨List.mem_append_left _ ht, fun d hd => (List.not_mem_nil hd).elim, ?_⟩
    rw [Backend.listed_eq, Backend.listed_eq, List.filter_append]
    exact above_append _ _ _
  · have hmem := fun u => @mem_deleteByIDs db.torrents gone
      (fun d hd => hsame d (hgone hd)) u
    rw [heq]
    refine ⟨(hmem t).2 ⟨ht, fun hin => (holder t (hgone hin)).2 rfl⟩,
      fun d hd => holder d (hsub hd), ?_⟩
    rw [Backend.listed_eq, Backend.listed_eq, deleteByIDs, List.filter_comm]
    refine (above_filter ?_).ge
    intro u hu hlt
    have hstays : u ∈ deleteByIDs db.torrents gone := by
      refine (hmem u).2 ⟨List.mem_of_mem_filter hu, fun hin => ?_⟩
      exact absurd hlt (not_lt_of_ge (holder u (hgone hin)).1)
    exact (List.mem_filter.1 hstays).2
  · refine ⟨ht, ?_, Nat.le_refl _⟩
    have hnot := hspares selected rfl
    rw [hpc']
    intro d hd
    refine ⟨Int64.le_iff_toInt_le.1 (hold.oldest d hd t ht hnot), ?_⟩
    rintro rfl
    exact hnot hd

theorem Shown.repository {env : Environment} {listing : Listing} {limit : Int64} {t : Torrent}
    {s : Browsing} {a : RepositoryAction} {repository : RepositoryState}
    (h : Shown env listing limit t s) (hstep : RepositoryStep env s.repository a repository)
    (hspares : SparesAlone env listing t s (.repository a)) :
    Shown env listing limit t { s with repository := repository } := by
  have hidentified := h.identified.step hstep
  cases hstep with
  | ingest =>
    refine ⟨hidentified, h.stored, ?_, h.covered, h.ended⟩
    intro d hd
    refine h.older d ?_
    simpa [pending, Call.start, CallPC.selected] using hd
  | configure => exact ⟨hidentified, h.stored, h.older, h.covered, h.ended⟩
  | @call pre post c c' a db hcalls hcall =>
    have holder := h.older
    have hsame := h.identified.same
    rw [hcalls] at holder hsame
    have hown : ∀ d ∈ c.pc.selected, d ∈ pending (pre ++ c :: post) := fun d hd =>
      mem_pending_call.2 (.inl hd)
    obtain ⟨hstored, hselected, habove⟩ := hcall.keeps h.stored
      (fun d hd => hsame d (hown d hd)) (fun d hd => holder d (hown d hd))
      (fun selected ha => by subst ha; exact hspares) listing
    refine ⟨hidentified, hstored, ?_, h.covered.change habove, h.ended⟩
    intro d hd
    obtain hsel | hothers := mem_pending_call.1 hd
    · exact hselected d hsel
    · exact holder d (mem_pending_call.2 (.inr hothers))

theorem Shown.step {env : Environment} {listing : Listing} {limit : Int64} {t : Torrent}
    {s s' : Browsing} {a : BrowseAction} (hlisted : env.backend.lists listing t = true)
    (h : Shown env listing limit t s) (hstep : BrowseStep env listing limit s a s')
    (hspares : SparesAlone env listing t s a) : Shown env listing limit t s' := by
  cases hstep with
  | repository hstep => exact h.repository hstep hspares
  | @page page page' limit' offset result hpage hparse hoffset hresult =>
    have hlimit : limit'.toInt.toNat = pageLimit limit := by
      rw [limit_of_parsePagination hparse, Int.toNat_natCast]
    have hplace : offset.toInt.toNat = s.read * pageLimit limit := by
      rw [hoffset, limit_of_parsePagination hparse, ← Int.natCast_mul, Int.toNat_natCast]
    rw [hlimit, hplace] at hresult
    have hnodup : (env.backend.listed s.repository.db.torrents listing).Nodup := by
      rw [Backend.listed_eq]
      exact (nodup_of_ids h.identified.nodup).filter _
    have hin : t ∈ env.backend.listed s.repository.db.torrents listing := by
      rw [Backend.listed_eq]
      exact List.mem_filter.2 ⟨h.stored, hlisted⟩
    refine ⟨h.identified, h.stored, h.older, h.covered.page hresult hnodup hin hspares, ?_⟩
    rw [hlimit]
    intro hended
    obtain hbefore | hshort := (Bool.or_eq_true _ _).mp hended
    · exact List.mem_append_left _ (h.ended hbefore)
    · exact h.covered.ends hresult hnodup hin hspares (of_decide_eq_true hshort)

/-- A reader who starts between two prunes and has come to a page that is not full has seen
    every listed torrent that was stored all the while, unless another one has its time. -/
theorem browse_sees_all {env : Environment} {start : List Torrent → Prop} {listing : Listing}
    {limit : Int64} {t : Torrent} {s₀ s : Browsing}
    (hinit : (browseSystem env start listing limit).init s₀)
    (ht : t ∈ s₀.repository.db.torrents) (hlisted : env.backend.lists listing t = true)
    (hrun : ((browseSystem env start listing limit).restrict (SparesAlone env listing t)).Steps
      s₀ s) (hended : s.ended = true) : t ∈ s.seen := by
  obtain ⟨hreachable, hquiet, hread, hseen, hopen⟩ := hinit
  have hshown : Shown env listing limit t s := by
    refine hrun.preserves (fun _ _ _ hs hstep => hs.step hlisted hstep.1 hstep.2) ?_
    refine ⟨identified hreachable, ht, ?_, ?_, ?_⟩
    · intro d hd
      obtain ⟨c, hc, hin⟩ := List.mem_flatMap.1 hd
      rw [hquiet c hc] at hin
      cases hin
    · rw [hread, hseen]
      exact .start _ _ _
    · rw [hopen]
      exact fun hended => by cases hended
  exact hshown.ended hended

/-- A page of one torrent each, while a second torrent is stored before the first page. -/
theorem browse_sees_all_pushed : ∃ s : Browsing, s.ended = true ∧
    s.seen = [rowAt 2, rowAt 1] ∧ rowAt 1 ∈ s.seen := by
  let sys := (browseSystem keepOne (fun torrents => torrents.length ≤ 1) .latest 1).restrict
    (SparesAlone keepOne .latest (rowAt 1))
  let start : Browsing := ⟨oneTorrent, 0, [], false⟩
  have hinit : (browseSystem keepOne (fun torrents => torrents.length ≤ 1) .latest 1).init start :=
    ⟨.init init_oneTorrent, fun c hc => (List.not_mem_nil hc).elim, rfl, rfl, rfl⟩
  have hcall : sys.Steps start _ :=
    .single ⟨.repository (@RepositoryStep.ingest keepOne _ (torrentAt 2)), trivial⟩
  have hpassed := hcall.tail ⟨.repository (RepositoryStep.last (.pass rfl rfl)), trivial⟩
  have hinserted := hpassed.tail ⟨.repository (RepositoryStep.last
    (.insert rfl (by decide +kernel) (categorize_torrentAt 2))), trivial⟩
  have halone : Alone Torrent.rank [rowAt 1, rowAt 2] (rowAt 1) := by
    intro t ht hsame
    obtain rfl | hin := List.mem_cons.1 ht
    · rfl
    · obtain rfl := List.mem_singleton.1 hin
      exact absurd hsame (by decide +kernel)
  have nextPage := fun {s : Browsing} (page : Int64) {page' limit' offset : Int64}
    {result : List Torrent} => @BrowseStep.page keepOne .latest 1 s page page' limit' offset result
  have hpage : ∀ offset, IsPage Torrent.rank [rowAt 1, rowAt 2] 1 offset
      (([rowAt 2, rowAt 1].drop offset).take 1) := by
    intro offset
    exact ⟨_, .swap _ _ _, by decide +kernel, rfl⟩
  have hfirst := hinserted.tail ⟨nextPage 1 rfl rfl rfl (hpage 0), halone⟩
  have hsecond := hfirst.tail ⟨nextPage 2 rfl rfl rfl (hpage 1), halone⟩
  have hthird := hsecond.tail ⟨nextPage 3 rfl rfl rfl (hpage 2), halone⟩
  exact ⟨_, rfl, rfl, browse_sees_all hinit (List.mem_singleton_self _) rfl hthird rfl⟩

/-- Two torrents of one second: each query breaks the tie its own way, and the reader never
    gets to see the second one. -/
theorem tie_hides_torrent : ∃ s₀ s : Browsing,
    (browseSystem keepOne (fun _ => True) .latest 1).init s₀ ∧
      (browseSystem keepOne (fun _ => True) .latest 1).Steps s₀ s ∧ s.ended = true ∧
      ∃ t ∈ s₀.repository.db.torrents, t ∈ s.repository.db.torrents ∧ t ∉ s.seen := by
  let twin : Torrent := { rowAt 1 with id := 2, infoHash := [] }
  let start : Browsing := ⟨⟨⟨[rowAt 1, twin], 3, [], []⟩, []⟩, 0, [], false⟩
  have hinit : (repositorySystem keepOne fun _ => True).init start.repository :=
    ⟨by decide +kernel, by decide +kernel, trivial, rfl⟩
  have nextPage := fun {s : Browsing} (page : Int64) {page' limit' offset : Int64}
    {result : List Torrent} => @BrowseStep.page keepOne .latest 1 s page page' limit' offset result
  have hfirst : (browseSystem keepOne (fun _ => True) .latest 1).Steps start _ :=
    .single (nextPage 1 rfl rfl rfl ⟨[rowAt 1, twin], .refl _, by decide +kernel, rfl⟩)
  have hsecond := hfirst.tail
    (nextPage 2 rfl rfl rfl ⟨[twin, rowAt 1], .swap _ _ _, by decide +kernel, rfl⟩)
  have hthird := hsecond.tail
    (nextPage 3 rfl rfl rfl ⟨[rowAt 1, twin], .refl _, by decide +kernel, rfl⟩)
  refine ⟨start, _, ⟨.init hinit, fun c hc => (List.not_mem_nil hc).elim, rfl, rfl, rfl⟩, hthird,
    rfl, twin, List.mem_cons_of_mem _ (List.mem_singleton_self _),
    List.mem_cons_of_mem _ (List.mem_singleton_self _), ?_⟩
  decide +kernel

end Db
