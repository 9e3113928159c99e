-- SUMMARY: The distribution of categories in the two repositories: both count for each category the torrents that Categorize assigns to it.
import LazyDhtc.Db.Ingest
import LazyDhtc.Lib.Grouping

/-!
# Category distribution

Clover has the categories of a torrent as a list and counts them document by document. GORM
has them in one text, joined in the order in which `Categorize` happened to return them,
groups the rows by that text and takes the texts of the groups apart again.
-/

namespace Db

open DhtClient Grouping Transition

/-- `dist[cat] += n` -/
def increase (dist : GoMap Bytes Nat) (cat : Bytes) (n : Nat) : GoMap Bytes Nat :=
  dist.insert cat ((dist.lookup cat).getD 0 + n)

/-! ## Clover -/

/-- The field `Categories` of a document. An item of a `[]any` that is no string is `none`. -/
inductive CategoriesField where
  | strings (v : List Bytes)
  | anys (v : List (Option Bytes))
  | other

/-- The fields of a document that the distribution reads. The value `none` of the field
    `Category` is no string. -/
structure CategoryDocument where
  categories : Option CategoriesField
  category : Option (Option Bytes)

def CategoryDocument.list (doc : CategoryDocument) : List Bytes :=
  match doc.categories with
  | some (.strings v) => v
  | some (.anys v) => v.filterMap id
  | some .other => []
  | none =>
    match doc.category with
    | some cat => [cat.getD []]
    | none => []

/-- `CloverRepository.GetCategoryDistribution` -/
def cloverCategoryDistribution (docs : List CategoryDocument) : GoMap Bytes Nat :=
  docs.foldl (fun dist doc =>
    if doc.list.length = 0 then increase dist (ascii "unknown") 1
    else doc.list.foldl (fun dist cat => increase dist cat 1) dist) ∅

/-- How Clover returns a list of strings that it has stored. -/
structure StringLists where
  read : List Bytes → CategoriesField
  read_eq : ∀ v, read v = .strings v ∨ read v = .anys (v.map some)

def Torrent.categoryDocument (lists : StringLists) (t : Torrent) : CategoryDocument :=
  ⟨some (lists.read t.categories), none⟩

/-! ## GORM -/

def comma : UInt8 := 0x2C

/-- The column `category` of a row. -/
def Torrent.categoryColumn (t : Torrent) : Bytes := [comma].intercalate t.categories

/-- `Result` -/
structure CategoryResult where
  category : Bytes
  count : Nat

def isLetter (c : UInt8) : Bool := 0x41 ≤ c && c ≤ 0x5A || 0x61 ≤ c && c ≤ 0x7A

def foldCase (c : UInt8) : UInt8 := if 0x41 ≤ c ∧ c ≤ 0x5A then c + 0x20 else c

/-- What `GROUP BY` leaves to the engine. Rows are in one group when the collation of the
    column takes their texts for equal; of texts of letters and commas it may ignore the case. -/
structure GroupEngine where
  collate : Bytes → Bytes
  folds : ∀ a b, (∀ c ∈ a ++ b, isLetter c || c == comma) → collate a = collate b →
    a.map foldCase = b.map foldCase
  /-- the text that is selected for a group -/
  pick : List Bytes → Bytes
  pick_mem : ∀ rows, rows ≠ [] → pick rows ∈ rows
  order : List CategoryResult → List CategoryResult
  perm : ∀ results, (order results).Perm results

/-- `GormRepository.GetCategoryDistribution` -/
def gormCategoryDistribution (e : GroupEngine) (rows : List Bytes) : GoMap Bytes Nat :=
  let results := e.order (Grouping.groups e.collate (fun _ rows => ⟨e.pick rows, rows.length⟩) rows)
  results.foldl (fun dist res =>
    (res.category.splitOn comma).foldl (fun dist cat =>
      let cat := if cat = [] then ascii "unknown" else cat
      increase dist cat res.count) dist) ∅

def Backend.categoryDistribution (b : Backend) (lists : StringLists) (e : GroupEngine)
    (torrents : List Torrent) : GoMap Bytes Nat :=
  match b with
  | .clover => cloverCategoryDistribution (torrents.map (Torrent.categoryDocument lists))
  | .gorm _ => gormCategoryDistribution e (torrents.map Torrent.categoryColumn)

/-! ## Categories -/

def categoryNames : List Bytes :=
  [ascii "Unknown", ascii "Other"] ++ categoryExtensions.map Prod.fst

theorem nodup_categoryNames : categoryNames.Nodup := by decide

theorem categoryNames_letters : ∀ c ∈ categoryNames, c ≠ [] ∧ ∀ b ∈ c, isLetter b = true := by
  decide +kernel

theorem categorize_sublist (md : Metadata) :
    (categorize md).Sublist categoryNames ∧ categorize md ≠ [] := by
  unfold categorize
  split
  · exact ⟨by decide, List.cons_ne_nil _ _⟩
  · split
    · exact ⟨by decide, List.cons_ne_nil _ _⟩
    · next hnone =>
      refine ⟨?_, fun h => hnone (List.map_eq_nil_iff.1 h)⟩
      exact (List.filter_sublist.map _).trans (List.sublist_append_right _ _)

theorem nodup_categorize (md : Metadata) : (categorize md).Nodup :=
  nodup_categoryNames.sublist (categorize_sublist md).1

/-- The order of the files does not matter. -/
theorem categorize_perm {md md' : Metadata} (h : md.files.Perm md'.files) :
    categorize md = categorize md' := by
  have hext : (extensions md).Perm (extensions md') := (h.map _).filter _
  have hnil : extensions md = [] ↔ extensions md' = [] :=
    ⟨fun h => (h ▸ hext).nil_eq.symm, fun h => (h ▸ hext).eq_nil⟩
  have hany : ∀ p : Bytes → Bool, (extensions md).any p = (extensions md').any p :=
    fun p => hext.any_eq
  simp only [categorize, hnil, hany]

/-! ## Joining and splitting -/

theorem comma_not_letter : isLetter comma = false := by decide

theorem names_not_comma {names : List Bytes} (h : names ⊆ categoryNames) :
    ∀ c ∈ names, comma ∉ c := by
  intro c hc hin
  have hletter := (categoryNames_letters c (h hc)).2 comma hin
  rw [comma_not_letter] at hletter
  cases hletter

theorem splitOn_join {names : List Bytes} (h : names ⊆ categoryNames) (hne : names ≠ []) :
    ([comma].intercalate names).splitOn comma = names :=
  List.splitOn_intercalate comma (names_not_comma h) hne

/-- A joined text is made of the names and of commas. -/
theorem mem_join : ∀ {names : List Bytes} {b : UInt8}, b ∈ [comma].intercalate names →
    b = comma ∨ ∃ c ∈ names, b ∈ c
  | [], _, h => absurd h List.not_mem_nil
  | [c], b, h => .inr ⟨c, List.mem_singleton_self c, by rwa [List.intercalate_singleton] at h⟩
  | c :: c' :: names, b, h => by
    rw [List.intercalate_cons_cons, List.mem_append, List.mem_append, List.mem_singleton] at h
    rcases h with (hc | hcomma) | hrest
    · exact .inr ⟨c, List.mem_cons_self, hc⟩
    · exact .inl hcomma
    · exact (mem_join hrest).imp_right fun ⟨n, hn, hb⟩ => ⟨n, List.mem_cons_of_mem c hn, hb⟩

theorem join_letters {names : List Bytes} (h : names ⊆ categoryNames) :
    ∀ b ∈ [comma].intercalate names, isLetter b || b == comma := by
  intro b hb
  rcases mem_join hb with rfl | ⟨c, hc, hin⟩
  · decide
  · rw [(categoryNames_letters c (h hc)).2 b hin, Bool.true_or]

/-- Folding the case of a joined text folds that of the names in it. -/
theorem map_foldCase_join : ∀ names : List Bytes, ([comma].intercalate names).map foldCase =
    [comma].intercalate (names.map (List.map foldCase))
  | [] => rfl
  | [c] => by rw [List.map_singleton, List.intercalate_singleton, List.intercalate_singleton]
  | c :: c' :: names => by
    rw [List.intercalate_cons_cons, List.map_append, List.map_append,
      map_foldCase_join (c' :: names)]
    exact List.intercalate_cons_cons.symm

/-- The name that is a given text up to case. -/
def nameOf (c : Bytes) : Bytes := (categoryNames.find? fun n => n.map foldCase = c).getD []

theorem nameOf_foldCase : ∀ c ∈ categoryNames, nameOf (c.map foldCase) = c := by decide

theorem comma_notMem_foldCase : ∀ c ∈ categoryNames, comma ∉ c.map foldCase := by decide

/-- Joined names that are one text up to case are the same names. -/
theorem join_foldCase_inj {names names' : List Bytes} (h : names ⊆ categoryNames)
    (h' : names' ⊆ categoryNames) (hne : names ≠ []) (hne' : names' ≠ [])
    (heq : ([comma].intercalate names).map foldCase = ([comma].intercalate names').map foldCase) :
    names = names' := by
  have hsplit : ∀ {names : List Bytes}, names ⊆ categoryNames → names ≠ [] →
      ((([comma].intercalate names).map foldCase).splitOn comma).map nameOf = names := by
    intro names h hne
    rw [map_foldCase_join, List.splitOn_intercalate comma _ (by simpa using hne), List.map_map]
    · exact (List.map_congr_left fun c hc => nameOf_foldCase c (h hc)).trans (List.map_id _)
    · intro c hc
      obtain ⟨n, hn, rfl⟩ := List.mem_map.1 hc
      exact comma_notMem_foldCase n (h hn)
  rw [← hsplit h hne, heq, hsplit h' hne']

/-! ## Stored torrents -/

/-- `InsertMetadata` has stored the torrent, with the categories in some order. -/
def Torrent.Stores (t : Torrent) (md : Metadata) : Prop :=
  ∃ id categories, categories.Perm (categorize md) ∧ t = .ofMetadata id md categories

/-- The number of torrents to which `Categorize` assigns the category. -/
def assigned (mds : List Metadata) (cat : Bytes) : Nat :=
  mds.countP fun md => (categorize md).contains cat

namespace Torrent.Stores

variable {t : Torrent} {md : Metadata}

theorem perm (h : t.Stores md) : t.categories.Perm (categorize md) := by
  obtain ⟨id, categories, hperm, rfl⟩ := h
  exact hperm

theorem subset (h : t.Stores md) : t.categories ⊆ categoryNames :=
  List.Subset.trans h.perm.subset (categorize_sublist md).1.subset

theorem ne_nil (h : t.Stores md) : t.categories ≠ [] := fun hnil =>
  (categorize_sublist md).2 (hnil ▸ h.perm).nil_eq.symm

/-- A category occurs once among those of a torrent, or not at all. -/
theorem count (h : t.Stores md) (cat : Bytes) :
    t.categories.count cat = if cat ∈ categorize md then 1 else 0 := by
  rw [h.perm.count_eq, (nodup_categorize md).count]

theorem splitOn_column (h : t.Stores md) : t.categoryColumn.splitOn comma = t.categories :=
  splitOn_join h.subset h.ne_nil

end Torrent.Stores

/-- Summing over the stored torrents counts those that the category is assigned to. -/
theorem sum_count {torrents : List Torrent} {mds : List Metadata}
    (h : List.Forall₂ Torrent.Stores torrents mds) (cat : Bytes) :
    (torrents.map fun t => t.categories.count cat).sum = assigned mds cat := by
  induction h with
  | nil => rfl
  | @cons t md torrents mds hone _ ih =>
    rw [List.map_cons, List.sum_cons, ih, hone.count, assigned, assigned, List.countP_cons,
      Nat.add_comm]
    simp

/-! ## Counting -/

/-- The distribution has each category that some torrent is assigned, with their number. -/
def Counts (dist : GoMap Bytes Nat) (mds : List Metadata) : Prop :=
  ∀ cat, dist.lookup cat = if assigned mds cat = 0 then none else some (assigned mds cat)

/-- The text `cat` of a row, as the distribution names it. -/
def named (cat : Bytes) : Bytes := if cat = [] then ascii "unknown" else cat

/-- What a document adds to the distribution. -/
def CategoryDocument.counted (doc : CategoryDocument) : List Bytes :=
  if doc.list.length = 0 then [ascii "unknown"] else doc.list

theorem cloverCategoryDistribution_eq (docs : List CategoryDocument) :
    cloverCategoryDistribution docs =
      addUp (docs.flatMap fun doc => doc.counted.map fun cat => (cat, 1)) := by
  rw [addUp, tally, List.foldl_flatMap]
  refine congrArg (fun f => docs.foldl f ∅) (funext fun dist => funext fun doc => ?_)
  rw [List.foldl_map, CategoryDocument.counted]
  split <;> rfl

theorem gormCategoryDistribution_eq (e : GroupEngine) (rows : List Bytes) :
    gormCategoryDistribution e rows =
      addUp ((e.order (Grouping.groups e.collate (fun _ rows => ⟨e.pick rows, rows.length⟩) rows)).flatMap
        fun res => ((res.category.splitOn comma).map named).map fun cat => (cat, res.count)) := by
  rw [addUp, tally, List.foldl_flatMap]
  refine congrArg (fun f => List.foldl f ∅ _) (funext fun dist => funext fun res => ?_)
  rw [List.foldl_map, List.foldl_map]
  rfl

theorem Torrent.counted_categoryDocument (lists : StringLists) {t : Torrent} {md : Metadata}
    (h : t.Stores md) : (t.categoryDocument lists).counted = t.categories := by
  have hlist : (t.categoryDocument lists).list = t.categories := by
    rw [CategoryDocument.list, Torrent.categoryDocument]
    rcases lists.read_eq t.categories with hread | hread
    · simp only [hread]
    · simp only [hread, List.filterMap_map, Function.id_comp, List.filterMap_some]
  have hne : ¬ t.categories.length = 0 := fun hzero => h.ne_nil (List.length_eq_zero_iff.1 hzero)
  rw [CategoryDocument.counted, hlist, if_neg hne]

theorem exists_stores {torrents : List Torrent} {mds : List Metadata}
    (h : List.Forall₂ Torrent.Stores torrents mds) : ∀ t ∈ torrents, ∃ md, t.Stores md := by
  induction h with
  | nil => exact fun t ht => absurd ht List.not_mem_nil
  | @cons t md torrents mds hone _ ih => exact List.forall_mem_cons.2 ⟨⟨md, hone⟩, ih⟩

theorem clover_counts (lists : StringLists) {torrents : List Torrent} {mds : List Metadata}
    (h : List.Forall₂ Torrent.Stores torrents mds) :
    Counts (cloverCategoryDistribution (torrents.map (Torrent.categoryDocument lists))) mds := by
  intro cat
  have htotal : total ((torrents.map (Torrent.categoryDocument lists)).flatMap fun doc =>
      doc.counted.map fun cat => (cat, 1)) cat = assigned mds cat := by
    rw [total_flatMap, List.map_map, ← sum_count h]
    refine congrArg List.sum (List.map_congr_left fun t ht => ?_)
    obtain ⟨md, hstores⟩ := exists_stores h t ht
    rw [Function.comp_apply, Torrent.counted_categoryDocument lists hstores, total_map_const,
      Nat.mul_one]
  rw [cloverCategoryDistribution_eq, lookup_addUp, htotal]
  intro p hp
  obtain ⟨doc, -, hin⟩ := List.mem_flatMap.1 hp
  obtain ⟨cat, -, rfl⟩ := List.mem_map.1 hin
  exact Nat.one_pos

/-- Texts that the collation takes for equal are equal, if they were stored. -/
theorem GroupEngine.eq_of_collate (e : GroupEngine) {t t' : Torrent} {md md' : Metadata}
    (h : t.Stores md) (h' : t'.Stores md')
    (heq : e.collate t.categoryColumn = e.collate t'.categoryColumn) :
    t.categoryColumn = t'.categoryColumn := by
  have hletters : ∀ c ∈ t.categoryColumn ++ t'.categoryColumn, isLetter c || c == comma := by
    intro c hc
    exact (List.mem_append.1 hc).elim (join_letters h.subset c) (join_letters h'.subset c)
  have hnames := join_foldCase_inj h.subset h'.subset h.ne_nil h'.ne_nil
    (e.folds _ _ hletters heq)
  rw [Torrent.categoryColumn, Torrent.categoryColumn, hnames]

/-- How often a row is counted for a category. -/
def occurrences (cat row : Bytes) : Nat := ((row.splitOn comma).map named).count cat

theorem Torrent.Stores.occurrences {t : Torrent} {md : Metadata} (h : t.Stores md) (cat : Bytes) :
    occurrences cat t.categoryColumn = t.categories.count cat := by
  have hnamed : t.categories.map named = t.categories :=
    (List.map_congr_left fun c hc => if_neg (categoryNames_letters c (h.subset hc)).1).trans
      (List.map_id _)
  rw [Db.occurrences, h.splitOn_column, hnamed]

/-- The rows of a group all have the text that is selected. -/
theorem GroupEngine.occurrences_group (e : GroupEngine) {torrents : List Torrent}
    (h : ∀ t ∈ torrents, ∃ md, t.Stores md) (cat : Bytes) {k : Bytes}
    (hk : k ∈ (torrents.map Torrent.categoryColumn).map e.collate) :
    0 < ((torrents.map Torrent.categoryColumn).filter fun r => e.collate r = k).length ∧
    occurrences cat (e.pick ((torrents.map Torrent.categoryColumn).filter fun r => e.collate r = k)) *
        ((torrents.map Torrent.categoryColumn).filter fun r => e.collate r = k).length =
      (((torrents.map Torrent.categoryColumn).filter fun r => e.collate r = k).map
        (occurrences cat)).sum := by
  have hstored : ∀ r ∈ (torrents.map Torrent.categoryColumn).filter fun r => e.collate r = k,
      ∃ (t : Torrent) (md : Metadata), t.Stores md ∧ t.categoryColumn = r ∧ e.collate r = k := by
    intro r hr
    obtain ⟨hin, hkey⟩ := List.mem_filter.1 hr
    obtain ⟨t, ht, rfl⟩ := List.mem_map.1 hin
    obtain ⟨md, hmd⟩ := h t ht
    exact ⟨t, md, hmd, rfl, of_decide_eq_true hkey⟩
  obtain ⟨r, hr, hrk⟩ := List.mem_map.1 hk
  have hin : r ∈ (torrents.map Torrent.categoryColumn).filter fun r => e.collate r = k :=
    List.mem_filter.2 ⟨hr, decide_eq_true hrk⟩
  generalize (torrents.map Torrent.categoryColumn).filter (fun r => e.collate r = k) = rows at *
  obtain ⟨t, md, ht, hcolumn, hkey⟩ := hstored _ (e.pick_mem rows (List.ne_nil_of_mem hin))
  have hall : ∀ r ∈ rows, r = e.pick rows := by
    intro r hr
    obtain ⟨t', md', ht', rfl, hkey'⟩ := hstored r hr
    rw [← hcolumn] at hkey ⊢
    exact e.eq_of_collate ht' ht (hkey'.trans hkey.symm)
  refine ⟨List.length_pos_of_mem hin, ?_⟩
  have hmap : rows.map (occurrences cat) =
      List.replicate rows.length (occurrences cat (e.pick rows)) := by
    refine List.eq_replicate_iff.2 ⟨List.length_map _, fun n hn => ?_⟩
    obtain ⟨r, hr, rfl⟩ := List.mem_map.1 hn
    rw [← hall r hr]
  rw [hmap, List.sum_replicate_nat, Nat.mul_comm]

theorem gorm_counts (e : GroupEngine) {torrents : List Torrent} {mds : List Metadata}
    (h : List.Forall₂ Torrent.Stores torrents mds) :
    Counts (gormCategoryDistribution e (torrents.map Torrent.categoryColumn)) mds := by
  intro cat
  have hstored := exists_stores h
  have hgroup := fun cat k => @GroupEngine.occurrences_group e torrents hstored cat k
  rw [gormCategoryDistribution_eq]
  generalize hrows : torrents.map Torrent.categoryColumn = rows at hgroup ⊢
  have hperm := e.perm (groups e.collate (fun _ rows => ⟨e.pick rows, rows.length⟩) rows)
  generalize e.order _ = results at hperm
  have htotal : total (results.flatMap fun res =>
      ((res.category.splitOn comma).map named).map fun cat => (cat, res.count)) cat =
      assigned mds cat := by
    calc
      _ = (results.map fun res => occurrences cat res.category * res.count).sum := by
        rw [total_flatMap]
        simp only [total_map_const, occurrences]
      _ = ((rows.map e.collate).dedup.map fun k =>
          ((rows.filter fun r => e.collate r = k).map (occurrences cat)).sum).sum := by
        rw [(hperm.map _).sum_eq, Grouping.groups, List.map_map]
        exact congrArg List.sum
          (List.map_congr_left fun k hk => (hgroup cat k (List.mem_dedup.1 hk)).2)
      _ = (rows.map (occurrences cat)).sum :=
        sum_groups e.collate (occurrences cat) (List.nodup_dedup _) fun r hr =>
          List.mem_dedup.2 (List.mem_map_of_mem hr)
      _ = assigned mds cat := by
        rw [← hrows, List.map_map, ← sum_count h]
        refine congrArg List.sum (List.map_congr_left fun t ht => ?_)
        obtain ⟨md, hmd⟩ := hstored t ht
        exact hmd.occurrences cat
  rw [lookup_addUp, htotal]
  intro p hp
  obtain ⟨res, hres, hin⟩ := List.mem_flatMap.1 hp
  obtain ⟨c, -, rfl⟩ := List.mem_map.1 hin
  obtain ⟨k, hk, rfl⟩ := List.mem_map.1 (hperm.mem_iff.1 hres)
  exact (hgroup cat k (List.mem_dedup.1 hk)).1

theorem Backend.counts (b : Backend) (lists : StringLists) (e : GroupEngine)
    {torrents : List Torrent} {mds : List Metadata}
    (h : List.Forall₂ Torrent.Stores torrents mds) :
    Counts (b.categoryDistribution lists e torrents) mds := by
  cases b with
  | clover => exact clover_counts lists h
  | gorm _ => exact gorm_counts e h

/-! ## Runs -/

/-- Every torrent was stored by `InsertMetadata`. -/
def AllInserted (torrents : List Torrent) : Prop := ∀ t ∈ torrents, ∃ md, t.Stores md

theorem AllInserted.exists_metadata {torrents : List Torrent} (h : AllInserted torrents) :
    ∃ mds, List.Forall₂ Torrent.Stores torrents mds := by
  induction torrents with
  | nil => exact ⟨[], .nil⟩
  | cons t torrents ih =>
    obtain ⟨⟨md, hmd⟩, hrest⟩ := List.forall_mem_cons.1 h
    obtain ⟨mds, hmds⟩ := ih hrest
    exact ⟨md :: mds, .cons hmd hmds⟩

theorem AllInserted.deleteByIDs {torrents : List Torrent} (h : AllInserted torrents)
    (selected : List Torrent) : AllInserted (Db.deleteByIDs torrents selected) :=
  fun t ht => h t (List.mem_of_mem_filter ht)

theorem CallStep.allInserted {env : Environment} {db db' : Database} {c c' : Call} {a : CallAction}
    (hstep : CallStep env db c a db' c') (h : AllInserted db.torrents) :
    AllInserted db'.torrents := by
  cases hstep with
  | @insert categories hpc hadmits hperm =>
    intro t ht
    obtain hold | hnew := List.mem_append.1 ht
    · exact h t hold
    · rw [List.mem_singleton.1 hnew]
      exact ⟨c.md, db.nextID, categories, hperm, rfl⟩
  | deleteAll => exact h.deleteByIDs _
  | deleteOne => exact h.deleteByIDs _
  | _ => exact h

theorem allInserted_of_reachable {env : Environment} {s : RepositoryState}
    (h : (repositorySystem env AllInserted).Reachable s) : AllInserted s.db.torrents := by
  refine System.invariant (P := fun s => AllInserted s.db.torrents) ?_ ?_ h
  · rintro s ⟨-, -, hstart, -⟩
    exact hstart
  · intro s a s' _ hs hstep
    cases hstep with
    | ingest => exact hs
    | configure => exact hs
    | call _ hcall => exact hcall.allInserted hs

/-- The same torrents in any order, each with its files in any order. -/
def SameTorrents (mds mds' : List Metadata) : Prop :=
  ∃ mds'', mds.Perm mds'' ∧ List.Forall₂ (fun md md' => md.files.Perm md'.files) mds'' mds'

theorem SameTorrents.assigned_eq {mds mds' : List Metadata} (h : SameTorrents mds mds')
    (cat : Bytes) : assigned mds cat = assigned mds' cat := by
  obtain ⟨mds'', hperm, hfiles⟩ := h
  refine (hperm.countP_eq _).trans ?_
  clear hperm
  induction hfiles with
  | nil => rfl
  | cons hone _ ih =>
    rw [List.countP_cons, ih, assigned, assigned, List.countP_cons, categorize_perm hone]

/-- In every reachable state of either repository the distribution counts the stored torrents
    that `Categorize` assigns to a category, and two repositories with the same torrents have
    the same distribution. -/
theorem category_distribution {env env' : Environment} {s s' : RepositoryState}
    (h : (repositorySystem env AllInserted).Reachable s)
    (h' : (repositorySystem env' AllInserted).Reachable s') (lists lists' : StringLists)
    (e e' : GroupEngine) :
    (∃ mds, List.Forall₂ Torrent.Stores s.db.torrents mds) ∧
    (∃ mds', List.Forall₂ Torrent.Stores s'.db.torrents mds') ∧
    ∀ mds mds', List.Forall₂ Torrent.Stores s.db.torrents mds →
      List.Forall₂ Torrent.Stores s'.db.torrents mds' →
      Counts (env.backend.categoryDistribution lists e s.db.torrents) mds ∧
      Counts (env'.backend.categoryDistribution lists' e' s'.db.torrents) mds' ∧
      (SameTorrents mds mds' → ∀ cat,
        (env.backend.categoryDistribution lists e s.db.torrents).lookup cat =
          (env'.backend.categoryDistribution lists' e' s'.db.torrents).lookup cat) := by
  refine ⟨(allInserted_of_reachable h).exists_metadata,
    (allInserted_of_reachable h').exists_metadata, fun mds mds' hmds hmds' => ?_⟩
  have hcounts := env.backend.counts lists e hmds
  have hcounts' := env'.backend.counts lists' e' hmds'
  refine ⟨hcounts, hcounts', fun hsame cat => ?_⟩
  rw [hcounts cat, hcounts' cat, hsame.assigned_eq cat]

/-- Lists come back as `[]any`. -/
def anyLists : StringLists := ⟨fun v => .anys (v.map some), fun _ => .inr rfl⟩

/-- An engine that tells all texts apart. -/
def binaryEngine : GroupEngine where
  collate := id
  folds _ _ _ h := congrArg (List.map foldCase) h
  pick rows := rows.headD []
  pick_mem rows h := by
    obtain ⟨r, rows, rfl⟩ := List.exists_cons_of_ne_nil h
    exact List.mem_cons_self
  order := id
  perm := List.Perm.refl

/-- A video with its sound track. -/
def mixedMetadata : Metadata where
  infoHash := [7]
  family := 4
  name := ascii "clip"
  totalSize := 2
  discoveredOn := 0
  files := [⟨1, ascii "clip.mp4"⟩, ⟨1, ascii "clip.mp3"⟩]

/-- A repository in which it is stored with these categories. -/
def mixedRepository (categories : List Bytes) : RepositoryState :=
  ⟨⟨[.ofMetadata 0 mixedMetadata categories], 1, [], []⟩, []⟩

theorem reachable_mixedRepository (env : Environment) {categories : List Bytes}
    (h : categories.Perm (categorize mixedMetadata)) :
    (repositorySystem env AllInserted).Reachable (mixedRepository categories) := by
  refine .init ⟨List.nodup_singleton _, ?_, ?_, rfl⟩
  · intro t ht
    rw [List.mem_singleton.1 ht]
    exact Nat.zero_lt_one
  · intro t ht
    rw [List.mem_singleton.1 ht]
    exact ⟨mixedMetadata, 0, categories, h, rfl⟩

/-- An engine that knows only exact matches. -/
def plainEngine : SqlEngine := ⟨fun a b => a = b, fun a b => a = b, none⟩

theorem category_distribution_mixed :
    (Backend.clover.categoryDistribution anyLists binaryEngine
        (mixedRepository [ascii "Video", ascii "Audio"]).db.torrents).lookup (ascii "Video") =
      ((Backend.gorm plainEngine).categoryDistribution anyLists binaryEngine
        (mixedRepository [ascii "Audio", ascii "Video"]).db.torrents).lookup (ascii "Video") := by
  have hcategories : categorize mixedMetadata = [ascii "Video", ascii "Audio"] := by decide +kernel
  have hperm : [ascii "Audio", ascii "Video"].Perm (categorize mixedMetadata) := by
    rw [hcategories]
    exact List.Perm.swap _ _ _
  have hperm' : [ascii "Video", ascii "Audio"].Perm (categorize mixedMetadata) := by
    rw [hcategories]
  obtain ⟨-, -, hagree⟩ := category_distribution
    (reachable_mixedRepository ⟨⟨false, false, 0⟩, .clover, fun _ => none, false⟩ hperm')
    (reachable_mixedRepository ⟨⟨false, false, 0⟩, .gorm plainEngine, fun _ => none, false⟩ hperm)
    anyLists anyLists binaryEngine binaryEngine
  exact (hagree [mixedMetadata] [mixedMetadata] (.cons ⟨0, _, hperm', rfl⟩ .nil)
    (.cons ⟨0, _, hperm, rfl⟩ .nil)).2.2 ⟨[mixedMetadata], .refl _, .cons (.refl _) .nil⟩ _

end Db
