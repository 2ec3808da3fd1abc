import ImageBrowser.Proofs.Cache.Readable
import ImageBrowser.Proofs.Text.Sorting
import Mathlib.Data.List.TakeWhile

/-!
The globals of a dictionary, sorted into the categories of its classes and other globals. Main
statement: nothing is lost, added or moved to another category, whatever the order of the records.
-/

namespace ImageBrowser

open Text

namespace Value

theorem exists_distinct_texts (names : List String) : ∃ once : List String,
    distinct (names.map text) = once.map text ∧ once.Nodup ∧ ∀ s, s ∈ once ↔ s ∈ names := by
  have collected (seen names : List String) (apart : seen.Nodup) : ∃ once : List String,
      (names.map text).foldl (fun seen v => if seen.any v.same then seen else seen ++ [v])
        (seen.map text) = once.map text ∧ once.Nodup ∧ ∀ s, s ∈ once ↔ s ∈ seen ∨ s ∈ names := by
    induction names generalizing seen with
    | nil => exact ⟨seen, rfl, apart, by simp⟩
    | cons a names ih =>
      have known : (seen.map text).any (text a).same = decide (a ∈ seen) := by
        rw [Bool.eq_iff_iff]
        simp [same_text]
      rw [List.map_cons, List.foldl_cons, known]
      by_cases there : a ∈ seen
      · obtain ⟨once, same, apart, mem⟩ := ih seen apart
        refine ⟨once, by simpa [there] using same, apart, fun s => (mem s).trans ?_⟩
        grind
      · have more : (seen ++ [a]).Nodup := by
          simpa [List.nodup_append] using ⟨apart, fun b mem same => there (same ▸ mem)⟩
        obtain ⟨once, same, apart, mem⟩ := ih (seen ++ [a]) more
        refine ⟨once, by simpa [there] using same, apart, fun s => (mem s).trans ?_⟩
        grind
  obtain ⟨once, same, apart, mem⟩ := collected [] names .nil
  exact ⟨once, same, apart, fun s => by simpa using mem s⟩

theorem dropRepeats_texts {names : List String} (inOrder : names.Pairwise (· ≤ ·)) :
    dropRepeats (names.map text) = (Text.dropRepeats names).map text := by
  induction names with
  | nil => rfl
  | cons a names ih =>
    have ascending := pairwise_dropRepeats (List.pairwise_cons.mp inOrder).2
    have rest := ih (List.pairwise_cons.mp inOrder).2
    show text a :: (dropRepeats (names.map text)).dropWhile (text a).same = _
    rw [rest, dropRepeats_cons]
    cases kept : Text.dropRepeats names with
    | nil => rfl
    | cons b more =>
      rw [kept] at ascending
      by_cases repeated : a = b
      · subst repeated
        have stop : (more.map text).dropWhile (text a).same = more.map text := by
          rw [List.dropWhile_map, List.dropWhile_eq_self_iff.mpr]
          intro inside
          have above := (List.pairwise_cons.mp ascending).1 _ (List.getElem_mem inside)
          simpa [same_text] using above.ne
        simp [same_text, stop]
      · have other : b ≠ a := fun same => repeated same.symm
        simp [same_text, repeated, other]

theorem sortedOnce_texts (names : List String) :
    sortedOnce (names.map text) = .ok ((Text.sortedOnce names).map text) := by
  have keys : (names.map text).mapM asKey = .ok (names.map text) := by
    rw [List.mapM_map]
    simp only [Function.comp_def, asKey_text]
    exact List.mapM_pure
  have defined : (names.map text).any holdsUndefined = false := by
    simp [holdsUndefined]
  rw [sortedOnce, keys]
  show (if (names.map text).any holdsUndefined then _ else _) = _
  rw [defined, if_neg Bool.false_ne_true, arranged_texts, dropRepeats_texts (pairwise_sorted names),
    sorted_texts]
  rw [← Text.sortedOnce, sorted_sortedOnce]

end Value

/-! Categories of records -/

/-- What an entry says of a dictionary: the categories of its classes, the classes of a category,
all classes, and the other globals. -/
structure Catalogue where
  categories : List String
  classesIn : String → List String
  allClasses : List String
  globals : List String

/-- Each class is in the category that its record has, and each other global is among the globals,
as often as there are such records. -/
structure Catalogue.Sorts (k : Catalogue) (entries : List DictionaryEntry) : Prop where
  categories : Ascends k.categories fun s => ∃ e ∈ entries, e.isClass ∧ e.category = s
  classesIn : ∀ category, Counts (k.classesIn category) fun s =>
    entries.countP fun e => e.isClass ∧ e.category = category ∧ e.name = s
  allClasses : Ascends k.allClasses fun s => ∃ category ∈ k.categories, s ∈ k.classesIn category
  globals : Counts k.globals fun s => entries.countP fun e => !e.isClass ∧ e.name = s

structure ClassCategories.Answers (c : ClassCategories) (k : Catalogue) : Prop where
  categoryNames : c.categoryNames = .ok (k.categories.map .text)
  classNamesIn : ∀ category,
    c.classNamesIn (.text category) = .ok ((k.classesIn category).map .text)
  allClassNames : c.allClassNames = .ok (k.allClasses.map .text)
  globals : c.globals = k.globals.map .text

namespace DictionaryEntry

variable {entries entries' : List DictionaryEntry} {category s : String}

def namesOf (entries : List DictionaryEntry) (isListed : DictionaryEntry → Bool) : List String :=
  (entries.filter isListed).map (·.name)

def isClassIn (category : String) (e : DictionaryEntry) : Bool := e.isClass && e.category = category

def catalogue (entries : List DictionaryEntry) : Catalogue where
  categories := sortedOnce ((entries.filter (·.isClass)).map (·.category))
  classesIn category := sorted (namesOf entries (isClassIn category))
  allClasses := sortedOnce (namesOf entries (·.isClass))
  globals := sorted (namesOf entries (!·.isClass))

theorem counts_namesOf (isListed : DictionaryEntry → Bool) :
    Counts (sorted (namesOf entries isListed)) fun s =>
      entries.countP fun e => isListed e ∧ e.name = s := by
  refine ⟨pairwise_sorted _, fun s => ?_⟩
  rw [(sorted_perm _).count_eq]
  simp only [namesOf, List.count, List.countP_map, List.countP_filter]
  apply List.countP_congr
  intro e _
  simp [and_comm]

theorem mem_namesOf {isListed : DictionaryEntry → Bool} :
    s ∈ namesOf entries isListed ↔ ∃ e ∈ entries, isListed e ∧ e.name = s := by
  simp [namesOf, and_assoc]

theorem namesOf_perm (perm : entries.Perm entries') (isListed : DictionaryEntry → Bool) :
    (namesOf entries isListed).Perm (namesOf entries' isListed) :=
  (perm.filter _).map _

theorem mem_classesIn_catalogue :
    s ∈ (catalogue entries).classesIn category ↔
      ∃ e ∈ entries, e.isClass ∧ e.category = category ∧ e.name = s := by
  simp [catalogue, mem_sorted, mem_namesOf, isClassIn, and_assoc]

theorem mem_categories_catalogue :
    s ∈ (catalogue entries).categories ↔ ∃ e ∈ entries, e.isClass ∧ e.category = s := by
  simp [catalogue, mem_sortedOnce, and_assoc]

theorem sorts_catalogue (entries : List DictionaryEntry) : (catalogue entries).Sorts entries where
  categories := ⟨pairwise_sortedOnce _, fun s => mem_categories_catalogue⟩
  classesIn category := by
    have counts : Counts ((catalogue entries).classesIn category) _ :=
      counts_namesOf (isClassIn category)
    simpa [isClassIn, and_assoc] using counts
  allClasses := by
    refine ⟨pairwise_sortedOnce _, fun s => mem_sortedOnce.trans (mem_namesOf.trans ?_)⟩
    constructor
    · rintro ⟨e, mem, isClass, named⟩
      exact ⟨e.category, mem_categories_catalogue.mpr ⟨e, mem, isClass, rfl⟩,
        mem_classesIn_catalogue.mpr ⟨e, mem, isClass, rfl, named⟩⟩
    · rintro ⟨category, -, listed⟩
      obtain ⟨e, mem, isClass, -, named⟩ := mem_classesIn_catalogue.mp listed
      exact ⟨e, mem, isClass, named⟩
  globals := counts_namesOf _

theorem catalogue_congr (perm : entries.Perm entries') :
    catalogue entries = catalogue entries' := by
  have categories : ((entries.filter (·.isClass)).map (·.category)).Perm
      ((entries'.filter (·.isClass)).map (·.category)) := (perm.filter _).map _
  simp only [catalogue, sorted_congr (namesOf_perm perm _),
    sortedOnce_congr fun s => (namesOf_perm perm _).mem_iff,
    sortedOnce_congr fun s => categories.mem_iff]

end DictionaryEntry

namespace ClassCategories

open DictionaryEntry

variable {entries : List DictionaryEntry} {c : ClassCategories}

theorem heading_binding (e : DictionaryEntry) : e.binding.heading = .text e.category := by
  by_cases empty : e.category = ""
  · simp [Binding.heading, DictionaryEntry.binding, empty]
  · simp [Binding.heading, DictionaryEntry.binding, Value.isTruthy, empty]

theorem ofHeading_records (classes : List DictionaryEntry) (heading : String) :
    ofHeading (classes.map DictionaryEntry.binding) (.text heading) =
      .ok (.text heading,
        (sorted ((classes.filter (·.category = heading)).map (·.name))).map .text) := by
  have names : (((classes.map DictionaryEntry.binding).filter fun b =>
      b.heading.same (.text heading)).map (·.name)) =
        ((classes.filter (·.category = heading)).map (·.name)).map .text := by
    simp only [List.filter_map, List.map_map, Function.comp_def, heading_binding, Value.same_text]
    rfl
  rw [ofHeading, names, Value.sorted_texts]
  rfl

theorem exists_ofBindings (entries : List DictionaryEntry) : ∃ headings : List String,
    headings.Nodup ∧ (∀ s, s ∈ headings ↔ s ∈ (catalogue entries).categories) ∧
      ofBindings (entries.map DictionaryEntry.binding) =
        .ok ⟨headings.map fun heading =>
            (.text heading, ((catalogue entries).classesIn heading).map .text),
          (catalogue entries).globals.map .text⟩ := by
  let classes := entries.filter (·.isClass)
  obtain ⟨headings, distinct, apart, mem⟩ :=
    Value.exists_distinct_texts (classes.map (·.category))
  refine ⟨headings, apart, fun s => (mem s).trans mem_sortedOnce.symm, ?_⟩
  have areClasses : (entries.map DictionaryEntry.binding).filter (·.isClass.isTruthy) =
      classes.map DictionaryEntry.binding := List.filter_map
  have others : ((entries.map DictionaryEntry.binding).filter fun b => !b.isClass.isTruthy).map
      (·.name) = (namesOf entries (!·.isClass)).map .text := by
    simp only [List.filter_map, List.map_map, namesOf]
    rfl
  have keys : (classes.map DictionaryEntry.binding).mapM (·.heading.asKey) =
      .ok ((classes.map (·.category)).map .text) := by
    rw [List.mapM_map, List.map_map]
    simp only [Function.comp_def, heading_binding, Value.asKey_text]
    exact List.mapM_pure
  have listed : (headings.map Value.text).mapM (ofHeading (classes.map DictionaryEntry.binding)) =
      .ok (headings.map fun heading =>
        (.text heading, ((catalogue entries).classesIn heading).map .text)) := by
    have sameNames (heading : String) : (classes.filter (·.category = heading)).map (·.name) =
        namesOf entries (isClassIn heading) := by
      simp only [classes, namesOf, List.filter_filter, Bool.and_comm]
      rfl
    rw [List.mapM_map]
    simp only [Function.comp_def, ofHeading_records, sameNames]
    exact List.mapM_pure
  rw [ofBindings, areClasses, others, keys, Value.sorted_texts]
  show ((Value.distinct ((classes.map (·.category)).map .text)).mapM
    (ofHeading (classes.map DictionaryEntry.binding)) >>= _) = _
  rw [distinct, listed]
  rfl

theorem exists_answers (entries : List DictionaryEntry) : ∃ c,
    ofBindings (entries.map DictionaryEntry.binding) = .ok c ∧ c.Answers (catalogue entries) := by
  obtain ⟨headings, apart, mem, made⟩ := exists_ofBindings entries
  refine ⟨_, made, ?_, fun category => ?_, ?_, rfl⟩
  · have sorted : Text.sorted headings = (catalogue entries).categories :=
      (ascends_sorted apart).unique ⟨pairwise_sortedOnce _, fun s => (mem s).symm⟩
    rw [categoryNames, List.map_map, ← sorted]
    exact Value.sorted_texts headings
  · let bucket (heading : String) : Value × List Value :=
      (.text heading, ((catalogue entries).classesIn heading).map .text)
    have looked : (headings.map bucket).find? (fun p => p.1.same (.text category)) =
        (headings.find? (· = category)).map bucket := by
      rw [List.find?_map]
      simp only [Function.comp_def, bucket, Value.same_text]
    show Except.ok ((((headings.map bucket).find? fun p => p.1.same (.text category)).map
      (·.2)).getD []) = _
    rw [looked]
    congr 1
    cases found : headings.find? (· = category) with
    | some heading =>
      obtain rfl : heading = category := by simpa using List.find?_some found
      rfl
    | none =>
      have absent : category ∉ headings := fun there => by
        simpa using List.find?_eq_none.mp found _ there
      have none : (catalogue entries).classesIn category = [] := by
        refine List.eq_nil_iff_forall_not_mem.mpr fun s listed => absent ((mem category).mpr ?_)
        obtain ⟨e, among, isClass, same, -⟩ := mem_classesIn_catalogue.mp listed
        exact mem_categories_catalogue.mpr ⟨e, among, isClass, same⟩
      simp [none]
  · have once : sortedOnce (headings.flatMap (catalogue entries).classesIn) =
        (catalogue entries).allClasses := by
      refine ((ascends_sortedOnce _).congr fun s => ?_).unique (sorts_catalogue entries).allClasses
      simp [mem]
    rw [allClassNames, List.flatMap_map, ← once, ← Value.sortedOnce_texts, List.map_flatMap]

end ClassCategories

/-- In whatever order the records of a dictionary come, the same is answered of them: the categories
of its classes in ascending order, the classes of each category and the other globals sorted and as
often as there are records, and all classes in ascending order. -/
theorem records_sorted_into_categories {entries entries' : List DictionaryEntry}
    (perm : entries.Perm entries') : ∃ (k : Catalogue) (c c' : ClassCategories),
      ClassCategories.ofBindings (entries.map DictionaryEntry.binding) = .ok c ∧
      ClassCategories.ofBindings (entries'.map DictionaryEntry.binding) = .ok c' ∧
      c.Answers k ∧ c'.Answers k ∧ k.Sorts entries := by
  obtain ⟨c, made, answers⟩ := ClassCategories.exists_answers entries
  obtain ⟨c', made', answers'⟩ := ClassCategories.exists_answers entries'
  rw [← DictionaryEntry.catalogue_congr perm] at answers'
  exact ⟨_, c, c', made, made', answers, answers', DictionaryEntry.sorts_catalogue entries⟩

def repeatedEntries : List DictionaryEntry :=
  [⟨true, "Kernel", "Order"⟩, ⟨false, "", "Total"⟩, ⟨true, "", "Order"⟩, ⟨true, "Kernel", "Order"⟩,
    ⟨true, "Kernel", "Item"⟩]

theorem records_sorted_backwards :
    repeatedEntries.Perm repeatedEntries.reverse ∧
    ∃ (k : Catalogue) (c c' : ClassCategories),
      ClassCategories.ofBindings (repeatedEntries.map DictionaryEntry.binding) = .ok c ∧
      ClassCategories.ofBindings (repeatedEntries.reverse.map DictionaryEntry.binding) = .ok c' ∧
      c.Answers k ∧ c'.Answers k ∧ k.Sorts repeatedEntries :=
  have perm := (List.reverse_perm repeatedEntries).symm
  ⟨perm, records_sorted_into_categories perm⟩

end ImageBrowser
