-- SUMMARY: Edits of the blacklist while torrents are ingested: what it keeps out from when on, and that it lists nothing twice.
import LazyDhtc.Db.Ingest
import LazyDhtc.Lib.Unwinding

/-!
# The blacklist

`AddToBlacklist` looks for each of its filters and inserts those that are not there, one
statement after the other. Entries are deleted in between, and torrents ingested. A query of
the blacklist that fails finds nothing.
-/

namespace Db

open DhtClient Transition

/-- Whether an entry with this filter and type rejects a torrent with this name and these
    files. -/
def rejects (compile : Compile) (filter type name : Bytes) (files : List File) : Bool :=
  match compile filter with
  | none => false
  | some matchString =>
    if type = ascii "0" then matchString name
    else if type = ascii "1" then files.any fun f => matchString f.path
    else false

/-- How the engine compares texts. -/
def Backend.same : Backend → Bytes → Bytes → Bool
  | .clover, x, y => x = y
  | .gorm e, x, y => e.eq x y

/-- Clover, SQLite and PostgreSQL tell all texts apart, MySQL does by a binary collation only. -/
def Backend.Exact (b : Backend) : Prop := ∀ x y, b.same x y = true ↔ x = y

/-- `isInBlacklist` of Clover, and the count of GORM. -/
def Backend.isInBlacklist (b : Backend) (entries : List BlacklistEntry) (filter type : Bytes) :
    Bool :=
  entries.any fun e => b.same e.filter filter && b.same e.type type

/-- There is an entry with this filter and type. -/
def Lists (entries : List BlacklistEntry) (filter type : Bytes) : Prop :=
  ∃ e ∈ entries, e.filter = filter ∧ e.type = type

theorem Backend.Exact.isInBlacklist {b : Backend} (h : b.Exact) {entries : List BlacklistEntry}
    {filter type : Bytes} :
    b.isInBlacklist entries filter type = true ↔ Lists entries filter type := by
  simp [Backend.isInBlacklist, Lists, h _ _]

theorem isBlacklisted_eq (compile : Compile) (entries : List BlacklistEntry) (md : Metadata) :
    isBlacklisted compile entries md =
      entries.any fun e => rejects compile e.filter e.type md.name md.files := rfl

theorem filtered_of_lists {env : Environment} {entries : List BlacklistEntry}
    {filter type : Bytes} {md : Metadata} (henabled : env.cfg.enableBlacklist = true)
    (hlists : Lists entries filter type)
    (hrejects : rejects env.compile filter type md.name md.files = true) :
    filtered env.cfg env.compile entries md = true := by
  obtain ⟨e, he, rfl, rfl⟩ := hlists
  have hlisted : isBlacklisted env.compile entries md = true := by
    rw [isBlacklisted_eq]
    exact List.any_eq_true.2 ⟨e, he, hrejects⟩
  rw [filtered, henabled, hlisted, Bool.and_self, Bool.or_true]

/-! ## AddToBlacklist -/

inductive AdditionPC where
  | checking
  | inserting
  | returned (result : Bool)
deriving DecidableEq

/-- A call of `AddToBlacklist`. -/
structure Addition where
  type : Bytes
  /-- The filters it has been through. -/
  done : List Bytes
  /-- The filters to come. -/
  filters : List Bytes
  rVal : Bool
  pc : AdditionPC

def Addition.start (filters : List Bytes) (type : Bytes) : Addition :=
  ⟨type, [], filters, false, .checking⟩

/-- Go on with the next filter. -/
def Addition.advance (a : Addition) (filter : Bytes) (filters : List Bytes) (rVal : Bool) :
    Addition :=
  { a with done := a.done ++ [filter], filters := filters, rVal := rVal, pc := .checking }

inductive AdditionAction where
  | check
  | checkFails
  | insert
  | insertFails
  | finish

inductive AdditionStep (b : Backend) :
    List BlacklistEntry → Addition → AdditionAction → List BlacklistEntry → Addition → Prop where
  | found {entries : List BlacklistEntry} {a : Addition} {filter : Bytes} {filters : List Bytes} :
      a.pc = .checking → a.filters = filter :: filters →
      b.isInBlacklist entries filter a.type = true →
      AdditionStep b entries a .check entries (a.advance filter filters a.rVal)
  | missing {entries : List BlacklistEntry} {a : Addition} {filter : Bytes} {filters : List Bytes} :
      a.pc = .checking → a.filters = filter :: filters →
      b.isInBlacklist entries filter a.type = false →
      AdditionStep b entries a .check entries { a with pc := .inserting }
  /-- The error is ignored, and what was not found is inserted. -/
  | checkFails {entries : List BlacklistEntry} {a : Addition} {filter : Bytes}
      {filters : List Bytes} : a.pc = .checking → a.filters = filter :: filters →
      AdditionStep b entries a .checkFails entries { a with pc := .inserting }
  | insert {entries : List BlacklistEntry} {a : Addition} {id filter : Bytes}
      {filters : List Bytes} : a.pc = .inserting → a.filters = filter :: filters →
      id ∉ entries.map BlacklistEntry.id →
      AdditionStep b entries a .insert (entries ++ [⟨id, filter, a.type⟩])
        (a.advance filter filters true)
  | insertFails {entries : List BlacklistEntry} {a : Addition} {filter : Bytes}
      {filters : List Bytes} : a.pc = .inserting → a.filters = filter :: filters →
      AdditionStep b entries a .insertFails entries (a.advance filter filters false)
  /-- Clover tells how the last insertion went, GORM always says `true`. -/
  | finish {entries : List BlacklistEntry} {a : Addition} : a.pc = .checking → a.filters = [] →
      AdditionStep b entries a .finish entries { a with
        pc := .returned (match b with
          | .clover => a.rVal
          | .gorm _ => true) }

/-! ## The repository with its blacklist -/

structure BlacklistState where
  repository : RepositoryState
  additions : List Addition

def BlacklistState.entries (s : BlacklistState) : List BlacklistEntry := s.repository.db.blacklist

def BlacklistState.setEntries (s : BlacklistState) (entries : List BlacklistEntry) :
    BlacklistState :=
  { s with repository := { s.repository with
      db := { s.repository.db with blacklist := entries } } }

inductive BlacklistAction where
  | repository (a : RepositoryAction)
  | lookupFails (c : Call)
  | add (filters : List Bytes) (type : Bytes)
  | addition (a : Addition) (b : AdditionAction)
  | delete (id : Bytes)
  | deleteWhere (kept : List BlacklistEntry)
  | editWatches

inductive BlacklistStep (env : Environment) :
    BlacklistState → BlacklistAction → BlacklistState → Prop where
  | call {s : BlacklistState} {a : RepositoryAction} {repository : RepositoryState} :
      RepositoryStep env s.repository a repository → a ≠ .configure →
      BlacklistStep env s (.repository a) { s with repository := repository }
  /-- `IsBlacklisted` gets an error and no entries. -/
  | lookupFails {s : BlacklistState} {pre post : List Call} {c : Call} :
      s.repository.calls = pre ++ c :: post → c.pc = .filtering →
      filtered env.cfg env.compile [] c.md = false →
      BlacklistStep env s (.lookupFails c) { s with
        repository := { s.repository with calls := pre ++ { c with pc := .inserting } :: post } }
  | add {s : BlacklistState} {filters : List Bytes} {type : Bytes} :
      BlacklistStep env s (.add filters type)
        { s with additions := s.additions ++ [.start filters type] }
  | addition {s : BlacklistState} {pre post : List Addition} {a a' : Addition}
      {b : AdditionAction} {entries : List BlacklistEntry} : s.additions = pre ++ a :: post →
      AdditionStep env.backend s.entries a b entries a' →
      BlacklistStep env s (.addition a b)
        { s.setEntries entries with additions := pre ++ a' :: post }
  | delete {s : BlacklistState} {id : Bytes} :
      BlacklistStep env s (.delete id) (s.setEntries (s.entries.filter fun e => e.id ≠ id))
  /-- GORM takes an ID that is no number for a condition. -/
  | deleteWhere {s : BlacklistState} {e : SqlEngine} {kept : List BlacklistEntry} :
      env.backend = .gorm e → kept.Sublist s.entries →
      BlacklistStep env s (.deleteWhere kept) (s.setEntries kept)
  | editWatches {s : BlacklistState} {watches : List WatchEntry} :
      BlacklistStep env s .editWatches { s with repository := { s.repository with
        db := { s.repository.db with watches := watches } } }

/-- The entries as far as they are told apart. -/
def pairs (entries : List BlacklistEntry) : List (Bytes × Bytes) :=
  entries.map fun e => (e.filter, e.type)

/-- The repository is opened with a blacklist that lists nothing twice. -/
def blacklistSystem (env : Environment) (start : List Torrent → Prop) :
    System BlacklistState BlacklistAction where
  init s := (repositorySystem env start).init s.repository ∧ (pairs s.entries).Nodup ∧
    s.additions = []
  step := BlacklistStep env

@[simp] theorem entries_setEntries (s : BlacklistState) (entries : List BlacklistEntry) :
    (s.setEntries entries).entries = entries := rfl

theorem mem_pairs {entries : List BlacklistEntry} {filter type : Bytes} :
    (filter, type) ∈ pairs entries ↔ Lists entries filter type := by
  simp [pairs, Lists]

/-! ## Steps -/

/-- The statements of calls leave the blacklist alone. -/
theorem RepositoryStep.blacklist {env : Environment} {s s' : RepositoryState} {a : RepositoryAction}
    (h : RepositoryStep env s a s') (ha : a ≠ .configure) : s'.db.blacklist = s.db.blacklist := by
  cases h with
  | configure => exact absurd rfl ha
  | ingest => rfl
  | call _ hcall => cases hcall <;> rfl

/-- Where the torrents of a repository come from. -/
theorem RepositoryStep.torrents {env : Environment} {s s' : RepositoryState} {a : RepositoryAction}
    (h : RepositoryStep env s a s') : ∀ t ∈ s'.db.torrents, t ∈ s.db.torrents ∨
      ∃ c ∈ s.calls, c.pc = .inserting ∧ ∃ id categories, t = .ofMetadata id c.md categories := by
  intro t ht
  cases h with
  | configure => exact .inl ht
  | ingest => exact .inl ht
  | @call pre post c c' a db hcalls hcall =>
    obtain ⟨heq, -⟩ | ⟨categories, -, hpc, -, heq, -⟩ | ⟨gone, rest, -, -, heq, -⟩ := hcall.torrents
    · exact .inl (heq ▸ ht)
    · rw [show db.torrents = _ from heq, List.mem_append, List.mem_singleton] at ht
      refine ht.imp_right fun hnew => ⟨c, ?_, hpc, s.db.nextID, categories, hnew⟩
      rw [hcalls]
      exact List.mem_append_right _ List.mem_cons_self
    · rw [show db.torrents = _ from heq] at ht
      exact .inl (List.mem_of_mem_filter ht)

/-- A call that is to insert has passed the filters with this statement, if it has not been
    to insert before it. -/
theorem CallStep.inserting {env : Environment} {db db' : Database} {c c' : Call} {a : CallAction}
    (h : CallStep env db c a db' c') (hpc : c'.pc = .inserting) :
    filtered env.cfg env.compile db.blacklist c.md = false ∧ c'.md = c.md := by
  cases h with
  | pass _ hpassed => exact ⟨hpassed, rfl⟩
  | deleteOne | deleteOneFails => cases hpc
  | _ => cases hpc

/-- An addition only adds entries. -/
theorem AdditionStep.subset {b : Backend} {entries entries' : List BlacklistEntry}
    {a a' : Addition} {act : AdditionAction} (h : AdditionStep b entries a act entries' a') :
    entries ⊆ entries' := by
  cases h with
  | insert => exact List.subset_append_left _ _
  | _ => exact List.Subset.refl _

/-! ## What the blacklist keeps out -/

/-- No entry of this type for one of the filters is deleted, none fails to be inserted, and
    the blacklist can be read. -/
def Spares (filters : List Bytes) (type : Bytes) (s : BlacklistState) : BlacklistAction → Prop
  | .delete id => ∀ e ∈ s.entries, e.type = type → e.filter ∈ filters → e.id ≠ id
  | .deleteWhere kept => ∀ e ∈ s.entries, e.type = type → e.filter ∈ filters → e ∈ kept
  | .addition a .insertFails => a.type = type → ∀ f ∈ a.filters.head?, f ∉ filters
  | .lookupFails _ => False
  | _ => True

section

variable {env : Environment} {start : List Torrent → Prop} {filters : List Bytes} {type : Bytes}
  {s s' : BlacklistState} {a : BlacklistAction}

theorem Lists.step {f : Bytes} (h : Lists s.entries f type) (hf : f ∈ filters)
    (hstep : BlacklistStep env s a s') (hok : Spares filters type s a) :
    Lists s'.entries f type := by
  obtain ⟨e, he, rfl, rfl⟩ := h
  suffices hmem : e ∈ s'.entries from ⟨e, hmem, rfl, rfl⟩
  cases hstep with
  | @call _ repository hrepository ha =>
    show e ∈ repository.db.blacklist
    rw [hrepository.blacklist ha]
    exact he
  | lookupFails => exact he
  | add => exact he
  | addition _ haddition => exact haddition.subset he
  | delete => exact List.mem_filter.2 ⟨he, decide_eq_true (hok e he rfl hf)⟩
  | deleteWhere => exact hok e he rfl hf
  | editWatches => exact he

/-- What an addition of these filters has got done. -/
structure Entered (filters : List Bytes) (type : Bytes) (entries : List BlacklistEntry)
    (a : Addition) : Prop where
  type_eq : a.type = type
  split : a.done ++ a.filters = filters
  lists : ∀ f ∈ a.done, Lists entries f type
  ends : ∀ result, a.pc = .returned result → a.filters = []

theorem Entered.advance {entries : List BlacklistEntry} {a : Addition} {f : Bytes} {fs : List Bytes}
    (h : Entered filters type entries a) (hfilters : a.filters = f :: fs)
    {entries' : List BlacklistEntry} (hsub : entries ⊆ entries')
    (hlists : Lists entries' f type) (rVal : Bool) :
    Entered filters type entries' (a.advance f fs rVal) := by
  refine ⟨h.type_eq, ?_, ?_, fun _ hpc => by cases hpc⟩
  · rw [← h.split, hfilters]
    exact List.append_assoc _ _ _
  · intro g hg
    obtain hold | hnew := List.mem_append.1 hg
    · obtain ⟨e, he, hpair⟩ := h.lists g hold
      exact ⟨e, hsub he, hpair⟩
    · exact List.mem_singleton.1 hnew ▸ hlists

theorem AdditionStep.entered {b : Backend} (hexact : b.Exact)
    {entries entries' : List BlacklistEntry} {a a' : Addition} {act : AdditionAction}
    (hstep : AdditionStep b entries a act entries' a')
    (h : Entered filters type entries a)
    (hok : act = .insertFails → ∀ f ∈ a.filters.head?, f ∉ filters) :
    Entered filters type entries' a' := by
  cases hstep with
  | found _ hfilters hfound =>
    exact h.advance hfilters (List.Subset.refl _) (h.type_eq ▸ hexact.isInBlacklist.1 hfound) _
  | missing => exact ⟨h.type_eq, h.split, h.lists, fun _ hpc => by cases hpc⟩
  | checkFails => exact ⟨h.type_eq, h.split, h.lists, fun _ hpc => by cases hpc⟩
  | @insert id filter _ _ hfilters =>
    refine h.advance hfilters (List.subset_append_left _ _) ?_ _
    exact ⟨_, List.mem_append_right _ (List.mem_singleton_self _), rfl, h.type_eq⟩
  | @insertFails filter fs _ hfilters =>
    have hin : filter ∈ filters := by
      rw [← h.split, hfilters]
      exact List.mem_append_right _ List.mem_cons_self
    exact absurd hin (hok rfl filter (by rw [hfilters]; rfl))
  | finish _ hfilters => exact ⟨h.type_eq, h.split, h.lists, fun _ _ => hfilters⟩

/-- The `n`-th addition is one of these filters. -/
def EnteredAt (filters : List Bytes) (type : Bytes) (n : Nat) (s : BlacklistState) : Prop :=
  n < s.additions.length ∧ ∀ d, s.additions[n]? = some d → Entered filters type s.entries d

theorem enteredAt_start (s : BlacklistState) : EnteredAt filters type s.additions.length
    { s with additions := s.additions ++ [.start filters type] } := by
  refine ⟨by simp, fun d hd => ?_⟩
  obtain ⟨-, rfl⟩ | ⟨hne, -⟩ := getElem?_snoc hd
  · exact ⟨rfl, rfl, fun _ hf => (List.not_mem_nil hf).elim, fun _ hpc => by cases hpc⟩
  · exact absurd rfl hne

theorem EnteredAt.step {n : Nat} (hexact : env.backend.Exact) (henters : EnteredAt filters type n s)
    (hstep : BlacklistStep env s a s') (hok : Spares filters type s a) :
    EnteredAt filters type n s' := by
  obtain ⟨hn, h⟩ := henters
  have hlists : ∀ d, s.additions[n]? = some d → ∀ f ∈ d.done, Lists s'.entries f type := by
    intro d hd f hf
    refine ((h d hd).lists f hf).step ?_ hstep hok
    rw [← (h d hd).split]
    exact List.mem_append_left _ hf
  have hsame : ∀ d, s.additions[n]? = some d → Entered filters type s'.entries d := fun d hd =>
    ⟨(h d hd).type_eq, (h d hd).split, hlists d hd, (h d hd).ends⟩
  cases hstep with
  | add =>
    refine ⟨by rw [List.length_append]; exact Nat.lt_add_right _ hn, fun d hd => ?_⟩
    obtain ⟨rfl, -⟩ | ⟨-, hold⟩ := getElem?_snoc hd
    · exact absurd hn (Nat.lt_irrefl _)
    · exact hsame d hold
  | @addition pre post b b' act entries hadditions haddition =>
    refine ⟨by rw [hadditions] at hn; simpa using hn, fun d hd => ?_⟩
    obtain ⟨rfl, rfl⟩ | ⟨-, hold⟩ := getElem?_replace hadditions hd
    · have hb : Entered filters type s.entries b := h b (by rw [hadditions]; simp)
      refine haddition.entered hexact hb fun hfails => ?_
      subst hfails
      exact hok hb.type_eq
    · exact hsame d hold
  | _ => exact ⟨hn, hsame⟩

/-- Since `s₀` the blacklist has had these filters: what they reject was stored then, or a
    call had passed the blacklist before. -/
structure KeptOut (env : Environment) (filters : List Bytes) (type : Bytes)
    (s₀ s : BlacklistState) : Prop where
  lists : ∀ f ∈ filters, Lists s.entries f type
  calls : ∀ c ∈ s.repository.calls, c.pc = .inserting → ∀ f ∈ filters,
    rejects env.compile f type c.md.name c.md.files = true → c ∈ s₀.repository.calls
  torrents : ∀ t ∈ s.repository.db.torrents, ∀ f ∈ filters,
    rejects env.compile f type t.name t.files = true → t ∈ s₀.repository.db.torrents ∨
      ∃ c ∈ s₀.repository.calls, c.pc = .inserting ∧
        ∃ id categories, t = .ofMetadata id c.md categories

theorem KeptOut.step {s₀ : BlacklistState} (henabled : env.cfg.enableBlacklist = true)
    (h : KeptOut env filters type s₀ s) (hstep : BlacklistStep env s a s')
    (hok : Spares filters type s a) : KeptOut env filters type s₀ s' := by
  have hlists : ∀ f ∈ filters, Lists s'.entries f type := fun f hf =>
    (h.lists f hf).step hf hstep hok
  cases hstep with
  | @call _ repository hrepository _ =>
    refine ⟨hlists, ?_, ?_⟩
    · refine hrepository.forall_calls h.calls (fun _ hpc => by cases hpc) ?_
      intro c _ _ c' _ _ hcall hpc f hf hrejects
      obtain ⟨hpassed, hmd⟩ := hcall.inserting hpc
      rw [hmd] at hrejects
      have hfiltered : filtered env.cfg env.compile s.entries c.md = true :=
        filtered_of_lists henabled (h.lists f hf) hrejects
      cases hpassed.symm.trans hfiltered
    · intro t ht f hf hrejects
      obtain hold | ⟨c, hc, hpc, id, categories, rfl⟩ := hrepository.torrents t ht
      · exact h.torrents t hold f hf hrejects
      · exact .inr ⟨c, h.calls c hc hpc f hf hrejects, hpc, id, categories, rfl⟩
  | lookupFails => exact hok.elim
  | _ => exact ⟨hlists, h.calls, h.torrents⟩

/-- When `AddToBlacklist` has returned, all its filters are listed. -/
theorem listed_of_returned (hexact : env.backend.Exact) {s s₁ : BlacklistState}
    {as : List BlacklistAction} {d : Addition} {result : Bool}
    (hadd : ((blacklistSystem env start).restrict (Spares filters type)).Run s
      (.add filters type :: as) s₁)
    (hd : s₁.additions[s.additions.length]? = some d) (hreturned : d.pc = .returned result) :
    ∀ f ∈ filters, Lists s₁.entries f type := by
  have henters : EnteredAt filters type s.additions.length s₁ := by
    cases hadd with
    | cons hfirst hrest =>
      cases hfirst.1 with
      | add =>
        refine hrest.preserves (P := EnteredAt filters type _) ?_ (enteredAt_start s)
        exact fun u b u' hu hstep => hu.step hexact hstep.1 hstep.2
  have hentered := henters.2 d hd
  have hall : d.done = filters := by
    rw [← hentered.split, hentered.ends result hreturned, List.append_nil]
  exact fun f hf => hentered.lists f (hall ▸ hf)

end

/-- GORM with the blacklist on. A filter without operators, and names no longer than it. -/
def blacklisting : Environment :=
  ⟨⟨false, true, 0⟩, .gorm sqlite, fun filter => some fun text => text = filter, true⟩

theorem blacklisting_exact : blacklisting.backend.Exact := fun _ _ => decide_eq_true_iff

/-- A call has passed the blacklist. -/
def passedCall : BlacklistState :=
  ⟨⟨⟨[], 1, [], []⟩, [{ Call.start sampleMetadata with pc := .inserting }]⟩, []⟩

/-- Since then its torrent has been put on the blacklist. -/
def listedAfter : BlacklistState :=
  ⟨⟨⟨[], 1, [⟨ascii "1", ascii "Quiet", ascii "0"⟩], []⟩, passedCall.repository.calls⟩,
    [⟨ascii "0", [ascii "Quiet"], [], true, .returned true⟩]⟩

/-- The additions are made one at a time, and the blacklist can be read for them. -/
def OneAtATime (s : BlacklistState) : BlacklistAction → Prop
  | .add _ _ => ∀ a ∈ s.additions, ∃ result, a.pc = .returned result
  | .addition _ .checkFails => False
  | _ => True

/-- Nothing is listed twice, and what an addition is about to insert is not listed. -/
structure ListedOnce (s : BlacklistState) : Prop where
  nodup : (pairs s.entries).Nodup
  returned : ∀ a ∈ s.additions.dropLast, ∃ result, a.pc = .returned result
  missing : ∀ a ∈ s.additions, a.pc = .inserting → ∀ f ∈ a.filters.head?,
    ¬ Lists s.entries f a.type

theorem AdditionStep.not_returned {b : Backend} {entries entries' : List BlacklistEntry}
    {a a' : Addition} {act : AdditionAction} (h : AdditionStep b entries a act entries' a')
    (result : Bool) : a.pc ≠ .returned result := by
  intro hpc
  cases h with
  | found hchecking | missing hchecking | checkFails hchecking | finish hchecking =>
    cases hchecking.symm.trans hpc
  | insert hinserting | insertFails hinserting => cases hinserting.symm.trans hpc

/-- Entries that are fewer are still told apart. -/
theorem ListedOnce.sublist {s : BlacklistState} (h : ListedOnce s) {kept : List BlacklistEntry}
    (hsub : kept.Sublist s.entries) : ListedOnce (s.setEntries kept) where
  nodup := h.nodup.sublist (hsub.map _)
  returned := h.returned
  missing := by
    rintro a ha hpc f hf ⟨e, he, hpair⟩
    exact h.missing a ha hpc f hf ⟨e, hsub.subset he, hpair⟩

/-- The statement of the only addition that has not returned. -/
theorem AdditionStep.listedOnce {b : Backend} (hexact : b.Exact)
    {entries entries' : List BlacklistEntry} {a a' : Addition} {act : AdditionAction}
    (hstep : AdditionStep b entries a act entries' a')
    (hnodup : (pairs entries).Nodup)
    (hmissing : a.pc = .inserting → ∀ f ∈ a.filters.head?, ¬ Lists entries f a.type)
    (hok : act ≠ .checkFails) : (pairs entries').Nodup ∧
      (a'.pc = .inserting → ∀ f ∈ a'.filters.head?, ¬ Lists entries' f a'.type) := by
  cases hstep with
  | found => exact ⟨hnodup, fun hpc => by cases hpc⟩
  | @missing filter filters _ hfilters hnot =>
    refine ⟨hnodup, fun _ f hf => ?_⟩
    obtain rfl : filter = f := by simpa [hfilters] using hf
    rw [← hexact.isInBlacklist, hnot]
    exact Bool.false_ne_true
  | checkFails => exact absurd rfl hok
  | @insert id filter filters hpc hfilters =>
    refine ⟨?_, fun hpc' => by cases hpc'⟩
    have hnot : (filter, a.type) ∉ pairs entries := by
      rw [mem_pairs]
      exact hmissing hpc filter (by rw [hfilters]; rfl)
    rw [pairs, List.map_append]
    exact hnodup.append (List.nodup_singleton _) (by simpa using hnot)
  | insertFails => exact ⟨hnodup, fun hpc => by cases hpc⟩
  | finish => exact ⟨hnodup, fun hpc => by cases hpc⟩

theorem ListedOnce.step {env : Environment} (hexact : env.backend.Exact) {s s' : BlacklistState}
    {a : BlacklistAction} (h : ListedOnce s) (hstep : BlacklistStep env s a s')
    (hok : OneAtATime s a) : ListedOnce s' := by
  cases hstep with
  | @call _ repository hrepository ha =>
    have hsame : repository.db.blacklist = s.entries := hrepository.blacklist ha
    refine ⟨?_, h.returned, ?_⟩
    · show (pairs repository.db.blacklist).Nodup
      rw [hsame]
      exact h.nodup
    · show ∀ a ∈ s.additions, a.pc = .inserting → ∀ f ∈ a.filters.head?,
        ¬ Lists repository.db.blacklist f a.type
      rw [hsame]
      exact h.missing
  | lookupFails => exact ⟨h.nodup, h.returned, h.missing⟩
  | add =>
    refine ⟨h.nodup, ?_, ?_⟩
    · rw [List.dropLast_concat]
      exact hok
    · intro a ha hpc
      obtain hold | hnew := List.mem_append.1 ha
      · exact h.missing a hold hpc
      · rw [List.mem_singleton.1 hnew] at hpc
        cases hpc
  | @addition pre post d d' act entries hadditions haddition =>
    -- All additions but the last have returned, and this one has not.
    obtain rfl : post = [] := by
      by_contra hpost
      have hin : d ∈ s.additions.dropLast := by
        rw [hadditions, List.dropLast_append_of_ne_nil (List.cons_ne_nil _ _),
          List.dropLast_cons_of_ne_nil hpost]
        exact List.mem_append_right _ List.mem_cons_self
      obtain ⟨result, hpc⟩ := h.returned d hin
      exact haddition.not_returned result hpc
    have hpre : ∀ a ∈ pre, ∃ result, a.pc = .returned result := by
      have hreturned := h.returned
      rwa [hadditions, List.dropLast_concat] at hreturned
    have hfails : act ≠ .checkFails := by
      rintro rfl
      exact hok
    obtain ⟨hnodup, hmissing⟩ := haddition.listedOnce hexact h.nodup
      (h.missing d (by rw [hadditions]; simp)) hfails
    refine ⟨hnodup, ?_, ?_⟩
    · rw [List.dropLast_concat]
      exact hpre
    · intro a ha hpc
      obtain hold | hnew := List.mem_append.1 ha
      · obtain ⟨result, hreturned⟩ := hpre a hold
        cases hreturned.symm.trans hpc
      · obtain rfl := List.mem_singleton.1 hnew
        exact hmissing hpc
  | delete => exact h.sublist List.filter_sublist
  | deleteWhere _ hsub => exact h.sublist hsub
  | editWatches => exact ⟨h.nodup, h.returned, h.missing⟩

section

variable {env : Environment} {start : List Torrent → Prop}

/-- Additions that do not overlap list nothing twice, whatever is deleted in between. -/
theorem listed_once (hexact : env.backend.Exact) {s : BlacklistState}
    (h : ((blacklistSystem env start).restrict OneAtATime).Reachable s) :
    (pairs s.entries).Nodup := by
  have hinv : ListedOnce s := by
    refine System.invariant ?_ (fun _ _ _ _ hs hstep => hs.step hexact hstep.1 hstep.2) h
    rintro s ⟨-, hnodup, hadditions⟩
    refine ⟨hnodup, ?_, ?_⟩
    · rw [hadditions]
      exact fun _ ha => (List.not_mem_nil ha).elim
    · rw [hadditions]
      exact fun _ ha => (List.not_mem_nil ha).elim
  exact hinv.nodup

end

/-- A list with a repetition has been added. -/
def addedOnce : BlacklistState :=
  ⟨⟨⟨[], 1, [⟨ascii "1", ascii "Quiet", ascii "0"⟩], []⟩, []⟩,
    [⟨ascii "0", [ascii "Quiet", ascii "Quiet"], [], true, .returned true⟩]⟩

end Db
