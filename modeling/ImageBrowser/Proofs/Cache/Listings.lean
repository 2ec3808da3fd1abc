import ImageBrowser.Proofs.Cache.Readable
import ImageBrowser.Proofs.Text.Sorting

/-!
What the entry of a class answers when it is made of records that say different things: each record
has its place in the entry, and is found there by its side, its environment and its category.
-/

namespace ImageBrowser

theorem Table.find?_map {κ ν α : Type} [DecidableEq κ] (key : α → κ) (value : α → ν)
    (items : List α) (k : κ) :
    (Table.mk (items.map fun a => (key a, value a))).find? k =
      (items.find? fun a => key a = k).map value := by
  induction items with
  | nil => rfl
  | cons a items ih =>
    unfold find? at ih ⊢
    rw [List.map_cons, List.lookup_cons, List.find?_cons]
    by_cases same : key a = k
    · simp [same]
    · rw [beq_eq_false_iff_ne.mpr (Ne.symm same), decide_eq_false same]
      exact ih

theorem Value.equals_flag (a b : Bool) : (flag a).equals (flag b) = decide (a = b) := by
  cases a <;> cases b <;> rfl

theorem Value.equals_whole (m n : Int) : (whole m).equals (whole n) = decide (m = n) := by
  simp [equals, same, canonical]

def EnvironmentCategory.key (e : EnvironmentCategory) : Value × Value × Value :=
  (.whole (if e.isMeta then 1 else 0), .whole e.environment, .text e.category)

theorem EnvironmentCategory.key_eq_iff {a b : EnvironmentCategory} :
    a.key = b.key ↔
      a.isMeta = b.isMeta ∧ a.environment = b.environment ∧ a.category = b.category := by
  have sides : (if a.isMeta then 1 else 0 : Int) = (if b.isMeta then 1 else 0) ↔
      a.isMeta = b.isMeta := by
    cases a.isMeta <;> cases b.isMeta <;> decide
  simp only [key, Prod.mk.injEq, Value.whole.injEq, Value.text.injEq, sides]

namespace EnvironmentCategory

variable {records records' : List EnvironmentCategory} {e : EnvironmentCategory} {category : String}

def ofSide (records : List EnvironmentCategory) (isMeta : Bool) (environment : Int) :
    List EnvironmentCategory :=
  records.filter fun e => e.isMeta = isMeta ∧ e.environment = environment

def selectorsOf (records : List EnvironmentCategory) (category : String) : List String :=
  (records.filter fun e => e.category = category).flatMap (·.selectors)

theorem selectorsOf_of_absent (absent : ∀ e ∈ records, e.category ≠ category) :
    selectorsOf records category = [] := by
  have none : (records.filter fun e => e.category = category) = [] :=
    List.filter_eq_nil_iff.mpr fun e mem => by simpa using absent e mem
  rw [selectorsOf, none, List.flatMap_nil]

theorem selectorsOf_of_mem (distinct : (records.map (·.category)).Nodup) (mem : e ∈ records) :
    selectorsOf records e.category = e.selectors := by
  induction records with
  | nil => contradiction
  | cons first records ih =>
    obtain ⟨apart, rest⟩ := List.nodup_cons.mp distinct
    rcases List.mem_cons.mp mem with rfl | later
    · have others : selectorsOf records e.category = [] := by
        apply selectorsOf_of_absent
        rintro a among same
        exact apart (List.mem_map.mpr ⟨a, among, same⟩)
      rw [selectorsOf] at others ⊢
      rw [List.filter_cons_of_pos (by simp), List.flatMap_cons, others, List.append_nil]
    · have other : ¬ first.category = e.category := fun same =>
        apart (List.mem_map.mpr ⟨e, later, same.symm⟩)
      rw [← ih rest later, selectorsOf, List.filter_cons_of_neg (by simpa using other)]
      rfl

theorem selectorsOf_congr (distinct : (records.map (·.category)).Nodup)
    (perm : records.Perm records') :
    selectorsOf records category = selectorsOf records' category := by
  have distinct' : (records'.map (·.category)).Nodup := (perm.map _).nodup_iff.mp distinct
  by_cases there : ∃ e ∈ records, e.category = category
  · obtain ⟨e, mem, rfl⟩ := there
    rw [selectorsOf_of_mem distinct mem, selectorsOf_of_mem distinct' (perm.mem_iff.mp mem)]
  · have absent : ∀ e ∈ records, e.category ≠ category := fun e mem same => there ⟨e, mem, same⟩
    rw [selectorsOf_of_absent absent,
      selectorsOf_of_absent fun e mem => absent e (perm.mem_iff.mpr mem)]

/-- The records after one more was read, which takes the place of the one with its key. -/
def relist (records : List EnvironmentCategory) (e : EnvironmentCategory) :
    List EnvironmentCategory :=
  if ∃ a ∈ records, a.key = e.key then records.map fun a => if a.key = e.key then e else a
  else records ++ [e]

/-- The records that are kept of those that were read: the last one of each key. -/
def current (records : List EnvironmentCategory) : List EnvironmentCategory :=
  records.foldl relist []

theorem mem_of_mem_relist {a : EnvironmentCategory} (mem : a ∈ relist records e) :
    a = e ∨ a ∈ records := by
  unfold relist at mem
  split at mem
  · obtain ⟨b, among, rfl⟩ := List.mem_map.mp mem
    split
    · exact .inl rfl
    · exact .inr among
  · exact (List.mem_append.mp mem).symm.imp_left List.mem_singleton.mp

theorem mem_of_mem_current {a : EnvironmentCategory} (mem : a ∈ current records) :
    a ∈ records := by
  have read : ∀ before, a ∈ records.foldl relist before → a ∈ before ∨ a ∈ records := by
    clear mem
    induction records with
    | nil => exact fun _ => .inl
    | cons b records ih =>
      intro before mem
      rcases ih _ mem with kept | later
      · rcases mem_of_mem_relist kept with rfl | earlier
        · exact .inr List.mem_cons_self
        · exact .inl earlier
      · exact .inr (List.mem_cons_of_mem _ later)
  exact (read [] mem).resolve_left List.not_mem_nil

theorem listing_of_key {a b : EnvironmentCategory} (same : a.key = b.key) :
    { a.listing with selectors := b.listing.selectors } = b.listing := by
  obtain ⟨side, number, named⟩ := key_eq_iff.mp same
  simp only [listing, side, number, named]

def categorized (records : List EnvironmentCategory) : List (String × String) :=
  records.flatMap fun e => e.selectors.map (·, e.category)

theorem mem_selectorsOf {selector : String} :
    selector ∈ selectorsOf records category ↔
      ∃ e ∈ records, e.category = category ∧ selector ∈ e.selectors := by
  simp [selectorsOf, and_assoc]

theorem mem_categorized {selector : String} :
    (selector, category) ∈ categorized records ↔ selector ∈ selectorsOf records category := by
  simp only [categorized, mem_selectorsOf, List.mem_flatMap, List.mem_map, Prod.mk.injEq]
  constructor
  · rintro ⟨e, mem, _, among, rfl, same⟩
    exact ⟨e, mem, same, among⟩
  · rintro ⟨e, mem, same, among⟩
    exact ⟨e, mem, selector, among, rfl, same⟩

theorem nodup_categorized (distinct : (records.map (·.category)).Nodup)
    (once : ∀ e ∈ records, e.selectors.Nodup) : (categorized records).Nodup := by
  refine List.nodup_flatMap.mpr ⟨fun e mem => ?_, ?_⟩
  · exact (once e mem).map fun _ _ same => congrArg Prod.fst same
  · refine (List.pairwise_map.mp distinct).imp fun {a b} other p inA inB => ?_
    obtain ⟨_, -, rfl⟩ := List.mem_map.mp inA
    obtain ⟨_, -, same⟩ := List.mem_map.mp inB
    exact other (congrArg Prod.snd same).symm

end EnvironmentCategory

namespace Environments

open EnvironmentCategory

variable {records : List EnvironmentCategory}

def ofRecords (records : List EnvironmentCategory) : Environments :=
  ⟨⟨records.map fun e => (e.key, e.listing)⟩⟩

def Apart (records : List EnvironmentCategory) : Prop :=
  records.Pairwise fun a b => a.key ≠ b.key

theorem keyOf_record (e : EnvironmentCategory) :
    keyOf (.flag e.isMeta) (.whole e.environment) (.text e.category) = .ok e.key := rfl

theorem keys_ofRecords (apart : Apart records) :
    ((records.map fun e => (e.key, e.listing)).map (·.1)).Nodup := by
  rw [List.map_map]
  exact List.pairwise_map.mpr apart

theorem find?_ofRecords (key : Value × Value × Value) :
    (ofRecords records).categories.find? key =
      (records.find? fun e => e.key = key).map EnvironmentCategory.listing :=
  Table.find?_map _ _ _ _

theorem add_record (e : EnvironmentCategory) :
    add (ofRecords records).categories e.listing =
      .ok (ofRecords (relist records e)).categories := by
  have keyed : keyOf e.listing.isMeta e.listing.environment e.listing.category = .ok e.key :=
    keyOf_record e
  have value : { ((ofRecords records).categories.find? e.key).getD e.listing with
      selectors := e.listing.selectors } = e.listing := by
    rw [find?_ofRecords]
    cases found : records.find? fun a => a.key = e.key with
    | none => rfl
    | some a => exact EnvironmentCategory.listing_of_key (by simpa using List.find?_some found)
  have there_iff : (ofRecords records).categories.contains e.key ↔
      ∃ a ∈ records, a.key = e.key := by
    simp [Table.contains, find?_ofRecords]
  rw [add, keyed]
  show Except.ok _ = Except.ok _
  rw [value, Table.insert, relist]
  by_cases there : ∃ a ∈ records, a.key = e.key
  · rw [if_pos (there_iff.mpr there), if_pos there]
    simp only [ofRecords, List.map_map]
    congr 2
    apply List.map_congr_left
    intro a _
    by_cases same : a.key = e.key <;> simp [same]
  · rw [if_neg (there_iff.not.mpr there), if_neg there]
    simp [ofRecords]

theorem foldlM_add (before : List EnvironmentCategory) :
    (records.map EnvironmentCategory.listing).foldlM add (ofRecords before).categories =
      .ok (ofRecords (records.foldl relist before)).categories := by
  induction records generalizing before with
  | nil => rfl
  | cons e records ih =>
    rw [List.map_cons, List.foldlM_cons, add_record]
    exact ih (relist before e)

/-- Whatever was read, the entry holds the records that are kept. -/
theorem ofListings_current (records : List EnvironmentCategory) :
    ofListings (records.map EnvironmentCategory.listing) = .ok (ofRecords (current records)) := by
  have added : (records.map EnvironmentCategory.listing).foldlM add .empty =
      .ok (ofRecords (current records)).categories := foldlM_add []
  rw [ofListings, added]
  rfl

theorem Apart.relist (apart : Apart records) (e : EnvironmentCategory) :
    Apart (relist records e) := by
  unfold EnvironmentCategory.relist
  split
  · have keys (a : EnvironmentCategory) : (if a.key = e.key then e else a).key = a.key := by
      split
      · next same => exact same.symm
      · rfl
    refine List.pairwise_map.mpr (apart.imp fun {a b} other => ?_)
    rwa [keys, keys]
  · next absent =>
    refine List.pairwise_append.mpr ⟨apart, List.pairwise_singleton _ _, ?_⟩
    rintro a mem _ (_ | ⟨_, ⟨⟩⟩) same
    exact absent ⟨a, mem, same⟩

theorem apart_current (records : List EnvironmentCategory) : Apart (current records) := by
  have kept : ∀ before, Apart before → Apart (records.foldl EnvironmentCategory.relist before) := by
    induction records with
    | nil => exact fun _ apart => apart
    | cons e records ih => exact fun before apart => ih _ (apart.relist e)
  exact kept [] .nil

theorem current_of_apart (apart : Apart records) : current records = records := by
  have all : ∀ before, Apart (before ++ records) →
      records.foldl EnvironmentCategory.relist before = before ++ records := by
    clear apart
    induction records with
    | nil => exact fun before _ => (List.append_nil before).symm
    | cons e records ih =>
      intro before apart
      have absent : ¬ ∃ a ∈ before, a.key = e.key := fun ⟨a, mem, same⟩ =>
        (List.pairwise_append.mp apart).2.2 a mem e List.mem_cons_self same
      rw [List.foldl_cons, EnvironmentCategory.relist, if_neg absent, ih _ (by simpa using apart)]
      simp
  exact all [] apart

theorem ofListings_records (apart : Apart records) :
    ofListings (records.map EnvironmentCategory.listing) = .ok (ofRecords records) := by
  rw [ofListings_current, current_of_apart apart]

/-! Any records -/

theorem category_of_ofListings {P : Value → Prop} {e : Environments}
    (made : ofListings (records.map EnvironmentCategory.listing) = .ok e)
    (named : ∀ record ∈ records, P (.text record.category)) :
    ∀ l ∈ e.categories.values, P l.category := by
  have kept := within_ofListings_of_forall (P := fun l => P l.category) named fun _ _ _ same => same
  rwa [made] at kept

theorem readable_of_ofListings {e : Environments}
    (made : ofListings (records.map EnvironmentCategory.listing) = .ok e) : e.Readable := by
  have readable := within_ofListings records
  rwa [made] at readable

theorem exists_ofListings (records : List EnvironmentCategory) :
    ∃ e, ofListings (records.map EnvironmentCategory.listing) = .ok e := by
  obtain ⟨e, made, -⟩ := (within_ofListings records).exists_ok
  exact ⟨e, made⟩

theorem Readable.exists_of_mem_categoryNames {e : Environments} {isMeta environment v : Value}
    {names : List Value} (readable : e.Readable)
    (answer : e.categoryNames isMeta environment = .ok names) (mem : v ∈ names) :
    ∃ l ∈ e.categories.values, l.category = v := by
  let here := e.categories.values.filter fun l =>
    l.isMeta.equals isMeta && l.environment.equals environment
  have areTexts : ∀ w ∈ here.map (·.category), w.IsText := by
    intro w listed
    obtain ⟨l, among, rfl⟩ := List.mem_map.mp listed
    exact (readable l (List.mem_filter.mp among).1).category
  obtain ⟨texts, same⟩ := Value.exists_texts areTexts
  have sorted : Value.sorted (here.map (·.category)) = .ok names := answer
  rw [same, Value.sorted_texts] at sorted
  obtain rfl := Except.ok.inj sorted
  have there : v ∈ here.map (·.category) := by
    obtain ⟨s, among, rfl⟩ := List.mem_map.mp mem
    exact same ▸ List.mem_map_of_mem (Text.mem_sorted.mp among)
  obtain ⟨l, among, isCategory⟩ := List.mem_map.mp there
  exact ⟨l, (List.mem_filter.mp among).1, isCategory⟩

/-! Answers -/

theorem distinct_ofSide (apart : Apart records) (isMeta : Bool) (n : Int) :
    ((ofSide records isMeta n).map (·.category)).Nodup := by
  refine List.pairwise_map.mpr ((apart.filter _).imp_of_mem fun {a b} mem_a mem_b other same => ?_)
  obtain ⟨-, at_a⟩ := List.mem_filter.mp mem_a
  obtain ⟨-, at_b⟩ := List.mem_filter.mp mem_b
  simp only [decide_eq_true_eq] at at_a at_b
  exact other (EnvironmentCategory.key_eq_iff.mpr
    ⟨at_a.1.trans at_b.1.symm, at_a.2.trans at_b.2.symm, same⟩)

theorem categoryNames_ofSide (isMeta : Bool) (n : Int) :
    (ofRecords records).categoryNames (.flag isMeta) (.whole n) =
      .ok ((Text.sorted ((ofSide records isMeta n).map (·.category))).map .text) := by
  rw [← Value.sorted_texts, categoryNames]
  congr 1
  simp only [ofSide, ofRecords, Table.values, List.map_map, List.filter_map]
  congr 1
  apply List.filter_congr
  intro e _
  simp [EnvironmentCategory.listing, Value.equals_flag, Value.equals_whole]

theorem categoryNames_ofRecords (apart : Apart records) (isMeta : Bool) (n : Int) :
    ∃ names, (ofRecords records).categoryNames (.flag isMeta) (.whole n) = .ok (names.map .text) ∧
      Text.Ascends names fun s =>
        ∃ e ∈ records, e.isMeta = isMeta ∧ e.environment = n ∧ e.category = s := by
  refine ⟨_, categoryNames_ofSide isMeta n, ?_⟩
  apply (Text.ascends_sorted (distinct_ofSide apart isMeta n)).congr
  intro s
  simp [ofSide, and_assoc]

theorem selectorsIn_of_mem (apart : Apart records) {e : EnvironmentCategory} (mem : e ∈ records) :
    (ofRecords records).selectorsIn (.flag e.isMeta) (.whole e.environment) (.text e.category) =
      .ok (Value.texts e.selectors) := by
  have found : (ofRecords records).categories.find? e.key = some e.listing :=
    Table.find?_of_mem (keys_ofRecords apart) (List.mem_map_of_mem mem)
  rw [selectorsIn, keyOf_record]
  simp [bind, Except.bind, found, pure, Except.pure, EnvironmentCategory.listing]

theorem selectorsIn_of_absent {a : EnvironmentCategory} (absent : ∀ e ∈ records, e.key ≠ a.key) :
    (ofRecords records).selectorsIn (.flag a.isMeta) (.whole a.environment) (.text a.category) =
      .ok (Value.texts []) := by
  have missing : (ofRecords records).categories.find? a.key = none := by
    apply Table.find?_of_absent
    intro entry mem
    obtain ⟨e, among, rfl⟩ := List.mem_map.mp mem
    exact absent e among
  rw [selectorsIn, keyOf_record]
  simp [bind, Except.bind, missing, pure, Except.pure, Value.texts]

theorem selectorsIn_ofSide (apart : Apart records) (isMeta : Bool) (n : Int) (category : String) :
    (ofRecords records).selectorsIn (.flag isMeta) (.whole n) (.text category) =
      .ok (Value.texts (selectorsOf (ofSide records isMeta n) category)) := by
  by_cases there : ∃ e ∈ ofSide records isMeta n, e.category = category
  · obtain ⟨e, among, rfl⟩ := there
    rw [selectorsOf_of_mem (distinct_ofSide apart isMeta n) among]
    obtain ⟨mem, at_e⟩ := List.mem_filter.mp among
    obtain ⟨rfl, rfl⟩ := of_decide_eq_true at_e
    exact selectorsIn_of_mem apart mem
  · have absent : ∀ e ∈ ofSide records isMeta n, e.category ≠ category :=
      fun e mem same => there ⟨e, mem, same⟩
    rw [selectorsOf_of_absent absent]
    refine selectorsIn_of_absent (a := ⟨isMeta, n, category, []⟩) fun e mem same => ?_
    obtain ⟨side, number, named⟩ := EnvironmentCategory.key_eq_iff.mp same
    exact absent e (List.mem_filter.mpr ⟨mem, decide_eq_true ⟨side, number⟩⟩) named

theorem selectorsWith_of_selectorsIn {e : Environments} {isMeta environment category : Value}
    {names : List String}
    (answer : e.selectorsIn isMeta environment category = .ok (Value.texts names)) :
    e.selectorsWith isMeta environment category =
      .ok (names.map fun selector => (.text selector, category)) := by
  rw [selectorsWith, answer]
  simp [bind, Except.bind, pure, Except.pure, Value.texts, Value.asItems, Value.items?]

theorem categorizedSelectors_ofSide (apart : Apart records) (isMeta : Bool) (n : Int) :
    ∃ pairs : List (String × String),
      (ofRecords records).categorizedSelectors (.flag isMeta) (.whole n) =
        .ok (pairs.map Value.textPair) ∧
      pairs.Perm (categorized (ofSide records isMeta n)) ∧
      pairs.Pairwise fun p q => toLex p ≤ toLex q := by
  let here := ofSide records isMeta n
  let listed (category : String) := (selectorsOf here category).map (·, category)
  have each (category : String) :
      (ofRecords records).selectorsWith (.flag isMeta) (.whole n) (.text category) =
        .ok ((listed category).map Value.textPair) := by
    rw [selectorsWith_of_selectorsIn (selectorsIn_ofSide apart isMeta n category), List.map_map]
    rfl
  have all (names : List String) :
      (names.map Value.text).mapM
        ((ofRecords records).selectorsWith (.flag isMeta) (.whole n)) =
          .ok (names.map fun category => (listed category).map Value.textPair) := by
    rw [List.mapM_map]
    simp only [Function.comp_def, each]
    exact List.mapM_pure
  refine ⟨Text.sortedPairs ((Text.sorted (here.map (·.category))).flatMap listed), ?_, ?_,
    Text.pairwise_sortedPairs _⟩
  · rw [categorizedSelectors, categoryNames_ofSide]
    simp only [bind, Except.bind, all]
    rw [← Value.sortedBy_textPairs, List.map_flatMap, List.flatMap_def]
  · have own : here.flatMap (fun e => listed e.category) = categorized here := by
      apply List.flatMap_congr
      intro e mem
      dsimp only [listed]
      rw [selectorsOf_of_mem (distinct_ofSide apart isMeta n) mem]
    apply (Text.sortedPairs_perm _).trans
    apply ((Text.sorted_perm _).flatMap_right listed).trans
    rw [List.flatMap_map, own]

end Environments

end ImageBrowser
