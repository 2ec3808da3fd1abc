import ImageBrowser.Proofs.Cache.Listings
import ImageBrowser.Proofs.Records.Reading

/-!
How a class is organized, as it is written by a stone and read again. Fields that are empty are left
out before the others get their meaning, so a category without a name is lost: its first selector is
taken for the category, and without selectors there is nothing to take.
-/

namespace ImageBrowser

open Text

/-- On each side of a class, and in each environment up to the last one, there are categories with the
selectors of each. -/
structure Organization where
  className : String
  last : Nat
  categories : Bool → Nat → List (String × List String)
  hasName : className ≠ ""
  unspaced : ' ' ∉ className.toList
  isField : IsField className
  distinct : ∀ isMeta n, ((categories isMeta n).map (·.1)).Nodup
  areFields : ∀ isMeta n, ∀ c ∈ categories isMeta n, IsField c.1 ∧ ∀ s ∈ c.2, IsField s ∧ s ≠ ""

namespace Organization

variable (o : Organization)

def entries : List EnvironmentCategory :=
  [true, false].flatMap fun isMeta => (List.range (o.last + 1)).flatMap fun n =>
    (o.categories isMeta n).map fun c => ⟨isMeta, n, c.1, c.2⟩

def report : String := reportOf (o.entries.map (EnvironmentCategory.row o.className))

/-- All that is asked about is answered as the class has it. -/
structure Shows (e : Environments) : Prop where
  names : ∀ isMeta, ∀ n ≤ o.last, ∃ names,
    e.categoryNames (.flag isMeta) (.whole n) = .ok (names.map .text) ∧
      Ascends names fun s => ∃ c ∈ o.categories isMeta n, c.1 = s
  selectors : ∀ isMeta, ∀ n ≤ o.last, ∀ name, ∃ selectors,
    e.selectorsIn (.flag isMeta) (.whole n) (.text name) = .ok (Value.texts selectors) ∧
      Ascends selectors fun s => ∃ c ∈ o.categories isMeta n, c.1 = name ∧ s ∈ c.2

def Named : Prop := ∀ isMeta, ∀ n ≤ o.last, ∀ c ∈ o.categories isMeta n, c.1 ≠ ""

variable {o}

theorem mem_entries_iff {e : EnvironmentCategory} :
    e ∈ o.entries ↔ ∃ n ≤ o.last, e.environment = n ∧
      ∃ c ∈ o.categories e.isMeta n, e.category = c.1 ∧ e.selectors = c.2 := by
  simp only [entries, List.mem_flatMap, List.mem_map, List.mem_range, Nat.lt_succ_iff]
  constructor
  · rintro ⟨isMeta, -, n, inside, c, mem, rfl⟩
    exact ⟨n, inside, rfl, c, mem, rfl, rfl⟩
  · rintro ⟨n, inside, same, c, mem, category, selectors⟩
    refine ⟨e.isMeta, by simp, n, inside, c, mem, ?_⟩
    cases e
    simp_all

theorem apart_entries : Environments.Apart o.entries := by
  unfold Environments.Apart entries
  simp only [List.pairwise_flatMap, List.pairwise_map]
  refine ⟨fun isMeta _ => ⟨fun n _ => ?_, ?_⟩, ?_⟩
  · refine (List.pairwise_map.mp (o.distinct isMeta n)).imp fun other same => ?_
    exact other (EnvironmentCategory.key_eq_iff.mp same).2.2
  · refine List.nodup_range.imp fun other e first e' second same => ?_
    obtain ⟨c, -, rfl⟩ := List.mem_map.mp first
    obtain ⟨c', -, rfl⟩ := List.mem_map.mp second
    have numbers := (EnvironmentCategory.key_eq_iff.mp same).2.1
    exact other (Int.ofNat_inj.mp numbers)
  · have sides : [true, false].Nodup := by decide
    refine sides.imp fun other e first e' second same => ?_
    simp only [List.mem_flatMap, List.mem_map] at first second
    obtain ⟨n, -, c, -, rfl⟩ := first
    obtain ⟨n', -, c', -, rfl⟩ := second
    exact other (EnvironmentCategory.key_eq_iff.mp same).1

end Organization

/-! Reading one row -/

namespace EnvironmentCategory

variable {className : String} {e : EnvironmentCategory}

theorem nonempty_row (hasName : className ≠ "") (named : e.category ≠ "")
    (selectors : ∀ s ∈ e.selectors, s ≠ "") :
    nonempty (e.row className) =
      (if e.isMeta then className ++ metaSuffix else className) :: ofInt e.environment ::
        e.category :: e.selectors := by
  have receiver : (if e.isMeta then className ++ metaSuffix else className) ≠ "" := by
    split
    · simp [hasName]
    · exact hasName
  have number : ofInt e.environment ≠ "" := by
    simp [ofInt, intDigits_ne_nil]
  simpa [row, nonempty, receiver, number, named] using selectors

theorem isSuffixOf_receiver (unspaced : ' ' ∉ className.toList) (isMeta : Bool) :
    metaSuffix.toList.isSuffixOf
      (if isMeta then className ++ metaSuffix else className).toList = isMeta := by
  cases isMeta with
  | true => simp
  | false =>
    rw [Bool.eq_false_iff]
    intro ends
    have suffix : metaSuffix.toList <:+ className.toList := by simpa using ends
    exact unspaced (suffix.mem (by decide))

theorem ofLine?_line (hasName : className ≠ "") (unspaced : ' ' ∉ className.toList)
    (isRow : IsRow (e.row className)) (named : e.category ≠ "")
    (selectors : ∀ s ∈ e.selectors, s ≠ "") (short : e.environment.natAbs < 10 ^ maxDigits) :
    ofLine? ("\t".intercalate (e.row className)) =
      some { e with selectors := sortedOnce e.selectors } := by
  have read : parseInt? (ofInt e.environment) = some e.environment := by
    rw [parseInt?_ofInt, if_pos short]
  rw [ofLine?, fields_intercalate (by simp [row]) isRow, nonempty_row hasName named selectors]
  simp only [read, Option.map_some, isSuffixOf_receiver unspaced]

theorem category_ne_of_ofLine? {line : String} (found : ofLine? line = some e) : e.category ≠ "" := by
  unfold ofLine? at found
  split at found
  · next receiver environment category selectors same =>
    obtain ⟨n, -, rfl⟩ := Option.map_eq_some_iff.mp found
    have mem : category ∈ nonempty (fields line) := by simp [same]
    simpa using (List.mem_filter.mp mem).2
  · contradiction

end EnvironmentCategory

/-! Whole reports -/

namespace Organization

variable {o : Organization}

theorem isRow_of_mem_entries {e : EnvironmentCategory} (mem : e ∈ o.entries) :
    IsRow (e.row o.className) := by
  obtain ⟨n, -, -, c, among, category, selectors⟩ := mem_entries_iff.mp mem
  obtain ⟨isField, areFields⟩ := o.areFields _ _ c among
  have receiver : IsField (if e.isMeta then o.className ++ metaSuffix else o.className) := by
    split
    · have suffix : IsField metaSuffix := by decide
      constructor
      · simp [o.isField.noTab, suffix.noTab]
      · simp [o.isField.noLineFeed, suffix.noLineFeed]
    · exact o.isField
  intro s part
  simp only [EnvironmentCategory.row, List.mem_append, List.mem_cons, List.not_mem_nil,
    or_false] at part
  rcases part with ((rfl | rfl | rfl) | selector) | rfl
  · exact receiver
  · exact isField_ofInt _
  · exact category ▸ isField
  · exact (areFields s (selectors ▸ selector)).1
  · exact isField_empty

theorem classEnvironmentsIn_report (named : o.Named) (short : o.last < 10 ^ maxDigits) :
    classEnvironmentsIn o.report =
      o.entries.map fun e => { e with selectors := sortedOnce e.selectors } := by
  have areRows : ∀ row ∈ o.entries.map (EnvironmentCategory.row o.className), IsRow row := by
    intro row mem
    obtain ⟨e, among, rfl⟩ := List.mem_map.mp mem
    exact isRow_of_mem_entries among
  rw [classEnvironmentsIn, report, filterMap_reportOf (by decide) areRows, List.filterMap_map,
    ← List.filterMap_eq_map]
  apply List.filterMap_congr
  intro e mem
  obtain ⟨n, inside, number, c, among, category, selectors⟩ := mem_entries_iff.mp mem
  apply EnvironmentCategory.ofLine?_line o.hasName o.unspaced (isRow_of_mem_entries mem)
  · exact category ▸ named _ n inside c among
  · intro s selector
    exact ((o.areFields _ _ c among).2 s (selectors ▸ selector)).2
  · rw [number, Int.natAbs_natCast]
    exact Nat.lt_of_le_of_lt inside short

def readEntries (o : Organization) : List EnvironmentCategory :=
  o.entries.map fun e => { e with selectors := sortedOnce e.selectors }

theorem mem_readEntries_iff {e : EnvironmentCategory} :
    e ∈ o.readEntries ↔ ∃ n ≤ o.last, e.environment = n ∧
      ∃ c ∈ o.categories e.isMeta n, e.category = c.1 ∧ e.selectors = sortedOnce c.2 := by
  unfold readEntries
  rw [List.mem_map]
  constructor
  · rintro ⟨written, mem, rfl⟩
    obtain ⟨n, inside, number, c, among, category, selectors⟩ := mem_entries_iff.mp mem
    exact ⟨n, inside, number, c, among, category, congrArg sortedOnce selectors⟩
  · rintro ⟨n, inside, number, c, among, category, selectors⟩
    exact ⟨{ e with selectors := c.2 }, mem_entries_iff.mpr ⟨n, inside, number, c, among, category, rfl⟩,
      by simp [selectors.symm]⟩

theorem apart_readEntries : Environments.Apart o.readEntries :=
  List.pairwise_map.mpr apart_entries

theorem shows_readEntries : o.Shows (.ofRecords o.readEntries) := by
  constructor
  · intro isMeta n inside
    obtain ⟨names, answer, ascends⟩ :=
      Environments.categoryNames_ofRecords (apart_readEntries (o := o)) isMeta n
    refine ⟨names, answer, ascends.congr fun s => ?_⟩
    constructor
    · rintro ⟨e, mem, rfl, number, rfl⟩
      obtain ⟨m, -, number', c, among, category, -⟩ := mem_readEntries_iff.mp mem
      obtain rfl : n = m := Int.ofNat_inj.mp (number.symm.trans number')
      exact ⟨c, among, category.symm⟩
    · rintro ⟨c, among, rfl⟩
      have mem : ⟨isMeta, n, c.1, sortedOnce c.2⟩ ∈ o.readEntries :=
        mem_readEntries_iff.mpr ⟨n, inside, rfl, c, among, rfl, rfl⟩
      exact ⟨_, mem, rfl, rfl, rfl⟩
  · intro isMeta n inside name
    by_cases known : ∃ c ∈ o.categories isMeta n, c.1 = name
    · obtain ⟨c, among, rfl⟩ := known
      have mem : ⟨isMeta, n, c.1, sortedOnce c.2⟩ ∈ o.readEntries :=
        mem_readEntries_iff.mpr ⟨n, inside, rfl, c, among, rfl, rfl⟩
      have answer := Environments.selectorsIn_of_mem apart_readEntries mem
      refine ⟨_, answer, (ascends_sortedOnce c.2).congr fun s => ?_⟩
      constructor
      · exact fun there => ⟨c, among, rfl, there⟩
      · rintro ⟨c', among', same, there⟩
        -- a class has one category of a name
        obtain rfl := List.inj_on_of_nodup_map (o.distinct isMeta n) among' among same
        exact there
    · have absent : ∀ e ∈ o.readEntries, e.key ≠ EnvironmentCategory.key ⟨isMeta, n, name, []⟩ := by
        intro e mem same
        obtain ⟨m, -, number, c, among, category, -⟩ := mem_readEntries_iff.mp mem
        obtain ⟨rfl, number', rfl⟩ := EnvironmentCategory.key_eq_iff.mp same
        obtain rfl : m = n := Int.ofNat_inj.mp (number.symm.trans number')
        exact known ⟨c, among, category.symm⟩
      have answer := Environments.selectorsIn_of_absent absent
      refine ⟨[], answer, .nil, fun s => ?_⟩
      · constructor
        · exact fun none => absurd none List.not_mem_nil
        · rintro ⟨c, among, same, -⟩
          exact absurd ⟨c, among, same⟩ known

theorem named_of_shows {e : Environments}
    (read : Environments.ofListings ((classEnvironmentsIn o.report).map EnvironmentCategory.listing) =
      .ok e) (shown : o.Shows e) : o.Named := by
  have kept : ∀ l ∈ e.categories.values, l.category ≠ .text "" := by
    apply Environments.category_of_ofListings (P := (· ≠ .text "")) read
    intro record mem same
    obtain ⟨line, -, found⟩ := List.mem_filterMap.mp mem
    exact EnvironmentCategory.category_ne_of_ofLine? found (Value.text.inj same)
  intro isMeta n inside c among unnamed
  obtain ⟨names, answer, -, areNames⟩ := shown.names isMeta n inside
  have mem : Value.text "" ∈ names.map .text :=
    List.mem_map_of_mem ((areNames "").mpr ⟨c, among, unnamed⟩)
  obtain ⟨l, listed, same⟩ :=
    (Environments.readable_of_ofListings read).exists_of_mem_categoryNames answer mem
  exact kept l listed same

/-- A class is shown as it is organized exactly if all its categories have names. -/
theorem organization_shown_iff (o : Organization) (short : o.last < 10 ^ maxDigits) :
    ∃ e, Environments.ofListings
        ((classEnvironmentsIn o.report).map EnvironmentCategory.listing) = .ok e ∧
      (o.Shows e ↔ o.Named) := by
  obtain ⟨e, read⟩ := Environments.exists_ofListings (classEnvironmentsIn o.report)
  refine ⟨e, read, named_of_shows read, fun named => ?_⟩
  rw [classEnvironmentsIn_report named short] at read
  have made := Environments.ofListings_records (apart_readEntries (o := o))
  obtain rfl := Except.ok.inj (made.symm.trans read)
  exact shows_readEntries

def orders (category : String) (isField : IsField category) : Organization where
  className := "Order"
  last := 1
  categories _ _ := [(category, ["total", "lines"])]
  hasName := by decide
  unspaced := by decide
  isField := by decide
  distinct _ _ := by simp
  areFields _ _ := by simpa using ⟨isField, by decide⟩

theorem organization_shown_of_orders :
    ∃ e, Environments.ofListings ((classEnvironmentsIn (orders "accessing" (by decide)).report).map
        EnvironmentCategory.listing) = .ok e ∧ (orders "accessing" (by decide)).Shows e := by
  have short : 1 < 10 ^ maxDigits := Nat.one_lt_pow (by decide) (by decide)
  have named : (orders "accessing" (by decide)).Named := by
    intro isMeta n _ c mem
    obtain rfl := List.mem_singleton.mp mem
    decide
  obtain ⟨e, read, shown⟩ := organization_shown_iff (orders "accessing" (by decide)) short
  exact ⟨e, read, shown.mpr named⟩

theorem organization_not_shown :
    ∃ o : Organization, ∃ e, Environments.ofListings
      ((classEnvironmentsIn o.report).map EnvironmentCategory.listing) = .ok e ∧ ¬o.Shows e := by
  obtain ⟨e, read⟩ :=
    Environments.exists_ofListings (classEnvironmentsIn (orders "" isField_empty).report)
  refine ⟨orders "" isField_empty, e, read, fun shown => ?_⟩
  have named := named_of_shows read shown
  exact named false 0 (Nat.zero_le _) _ List.mem_cons_self rfl

end Organization

end ImageBrowser
