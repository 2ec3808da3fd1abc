import ImageBrowser.Proofs.Records.Rows
import ImageBrowser.Proofs.Text.Fronts
import ImageBrowser.Proofs.Text.Sorting

/-!
What is read of a report that was cut off because it is too long. A cut between two lines only loses
records. A cut through a line leaves what stands before it, and where that still has all the fields
that a record needs, it is read as a record, with a front part of the last field for the whole of it.
Only the rows of a hierarchy end with a field of which no front part is read.
-/

namespace ImageBrowser

open Text

/-! How a record comes out of a line that is cut through -/

def DictionaryEntry.Shortens (a b : DictionaryEntry) : Prop :=
  a = { b with name := a.name } ∧ IsFront a.name b.name

def ClassNameEntry.Shortens (a b : ClassNameEntry) : Prop :=
  a = { b with className := a.className } ∧ IsFront a.className b.className

def FoundMethod.Shortens (a b : FoundMethod) : Prop :=
  a = { b with category := a.category } ∧ IsFront a.category b.category

/-- All but one of some names are among other names, and that one is a front part of one of them. -/
def ShortensOne (names others : List String) : Prop :=
  ∃ cut, ∀ s ∈ names, s ∈ others ∨ (s = cut ∧ ∃ t ∈ others, IsFront s t)

/-- Either a front part of the category is left, or the category and some of the selectors. -/
def EnvironmentCategory.Shortens (a b : EnvironmentCategory) : Prop :=
  a.isMeta = b.isMeta ∧ a.environment = b.environment ∧
    ((a.selectors = [] ∧ IsFront a.category b.category) ∨
      (a.category = b.category ∧ ShortensOne a.selectors b.selectors))

namespace CutShort

variable {s : String} {part whole : List String}

theorem behind {α : Type} {Shortens : α → α → Prop} {s : α} {part whole : List α} (before : List α)
    (short : CutShort Shortens (before ++ s :: part) whole) :
    ∃ rest, whole = before ++ rest ∧ CutShort Shortens (s :: part) rest := by
  induction before generalizing whole with
  | nil => exact ⟨whole, rfl, short⟩
  | cons a before ih =>
    obtain ⟨b, later, same⟩ := List.exists_cons_of_ne_nil (l := before ++ s :: part) (by simp)
    rw [List.cons_append, same] at short
    cases short with
    | cons _ more =>
      obtain ⟨rest, rfl, short⟩ := ih (same ▸ more)
      exact ⟨rest, rfl, short⟩

theorem head (short : CutShort IsFront (s :: part) whole) :
    ∃ t rest, whole = t :: rest ∧ IsFront s t := by
  cases short with
  | last front rest => exact ⟨_, rest, rfl, front⟩
  | cons _ more => exact ⟨s, _, rfl, "", by simp⟩

theorem shortensOne (short : CutShort IsFront part whole) : ShortensOne part whole := by
  induction short with
  | nil whole => exact ⟨"", nofun⟩
  | @last s t front rest =>
    refine ⟨s, fun u mem => .inr ?_⟩
    obtain rfl := List.mem_singleton.mp mem
    exact ⟨rfl, t, List.mem_cons_self, front⟩
  | cons s more ih =>
    obtain ⟨cut, shortens⟩ := ih
    refine ⟨cut, fun u mem => ?_⟩
    rcases List.mem_cons.mp mem with rfl | later
    · exact .inl List.mem_cons_self
    · rcases shortens u later with among | ⟨same, t, among, front⟩
      · exact .inl (List.mem_cons_of_mem _ among)
      · exact .inr ⟨same, t, List.mem_cons_of_mem _ among, front⟩

end CutShort

section Lines

variable {line whole : String}

/-- A field of a line that is cut off, and those before it, show what the whole line has there. -/
theorem fields_of_isFront (before : List String) {more : List String} {s : String}
    (front : IsFront line whole) (same : fields line = before ++ s :: more) :
    ∃ s' more', fields whole = before ++ s' :: more' ∧ IsFront s s' := by
  have short : CutShort IsFront (fields line) (fields whole) := cutShort_split '\t' front
  rw [same] at short
  obtain ⟨rest, isWhole, ending⟩ := short.behind before
  obtain ⟨s', more', rfl, front⟩ := ending.head
  exact ⟨s', more', isWhole, front⟩

theorem Text.IsField.of_isFront {a b : String} (isField : IsField b) (front : IsFront a b) :
    IsField a := by
  obtain ⟨rest, rfl⟩ := front
  exact ⟨fun mem => isField.noTab (by simp [mem]), fun mem => isField.noLineFeed (by simp [mem])⟩

theorem DictionaryEntry.ofLine?_of_isFront {a : DictionaryEntry} (front : IsFront line whole)
    (found : ofLine? line = some a) : ∃ b, ofLine? whole = some b ∧ a.Shortens b := by
  unfold ofLine? at found ⊢
  split at found
  · next flag category name more same =>
    obtain ⟨name', more', isWhole, front⟩ := fields_of_isFront [flag, category] front same
    by_cases empty : name = ""
    · simp [empty] at found
    · have some : name' ≠ "" := by
        rintro rfl
        exact empty (eq_empty_of_isFront front)
      simp only [empty, if_false, Option.some_inj] at found
      subst found
      exact ⟨⟨flag = "1", category, name'⟩, by simp [isWhole, some], rfl, front⟩
  · contradiction

theorem ClassNameEntry.ofLine?_of_isFront {a : ClassNameEntry} (front : IsFront line whole)
    (found : ofLine? line = some a) : ∃ b, ofLine? whole = some b ∧ a.Shortens b := by
  unfold ofLine? at found ⊢
  split at found
  · next index dictionary name more same =>
    obtain ⟨name', more', isWhole, front⟩ := fields_of_isFront [index, dictionary] front same
    obtain ⟨i, read, rfl⟩ := Option.map_eq_some_iff.mp found
    exact ⟨⟨i, dictionary, name'⟩, by simp [isWhole, read], rfl, front⟩
  · contradiction

theorem FoundMethod.ofLine?_of_isFront {a : FoundMethod} (front : IsFront line whole)
    (found : ofLine? line = some a) : ∃ b, ofLine? whole = some b ∧ a.Shortens b := by
  unfold ofLine? at found ⊢
  split at found
  · next dictionary name side selector category more same =>
    obtain ⟨category', more', isWhole, front⟩ :=
      fields_of_isFront [dictionary, name, side, selector] front same
    by_cases marked : dictionary = Smalltalk.truncationMarker
    · simp [marked] at found
    · simp only [marked, if_false, Option.some_inj] at found
      subst found
      exact ⟨⟨dictionary, name, side = "1", selector, category'⟩, by simp [isWhole, marked], rfl,
        front⟩
  · contradiction

theorem EnvironmentCategory.ofLine?_of_isFront {a : EnvironmentCategory}
    (front : IsFront line whole) (found : ofLine? line = some a) :
    ∃ b, ofLine? whole = some b ∧ a.Shortens b := by
  have short := cutShort_nonempty (cutShort_split '\t' front)
  unfold ofLine? fields at found ⊢
  split at found
  · next receiver environment category selectors same =>
    rw [same] at short
    obtain ⟨rest, isWhole, ending⟩ := short.behind [receiver, environment]
    obtain ⟨e, read, rfl⟩ := Option.map_eq_some_iff.mp found
    rw [isWhole]
    -- the cut is in the category, or behind it
    cases ending with
    | @last _ category' front more =>
      refine ⟨⟨_, e, category', sortedOnce more⟩, by simp [read], rfl, rfl, .inl ⟨?_, front⟩⟩
      simp [sortedOnce, sorted, dropRepeats]
    | @cons _ _ selectors' more =>
      obtain ⟨cut, shortens⟩ := more.shortensOne
      refine ⟨⟨_, e, category, sortedOnce selectors'⟩, by simp [read], rfl, rfl,
        .inr ⟨rfl, cut, ?_⟩⟩
      simpa only [mem_sortedOnce] using shortens
  · contradiction

end Lines

theorem filterMap_eq_nil_of_isFront {α : Type} {read : String → Option α} {cut report : String}
    (kept : ∀ {line whole : String} {a : α}, IsFront line whole → read line = some a →
      ∃ b, read whole = some b)
    (front : IsFront cut report) (silent : (lines report).filterMap read = []) :
    (lines cut).filterMap read = [] := by
  have short : CutShort (fun _ _ => True) ((lines cut).filterMap read)
      ((lines report).filterMap read) := by
    apply (cutShort_lines front).filterMap
    intro whole _ line a front found
    obtain ⟨b, found⟩ := kept front found
    exact ⟨b, found, trivial⟩
  rw [silent] at short
  generalize (lines cut).filterMap read = part at short
  cases short with
  | nil => rfl

/-! Hierarchies -/

theorem Kinship.eq_of_isFront {a b : Kinship} (front : IsFront a.text b.text) : a = b := by
  have inFront : a.text.toList <+: b.text.toList := by
    obtain ⟨rest, same⟩ := front
    exact ⟨rest.toList, by simp [same]⟩
  revert inFront
  cases a <;> cases b <;> decide

theorem HierarchyEntry.ofLine?_of_isFront {line : String} {e a : HierarchyEntry}
    (isRow : IsRow e.row) (front : IsFront line ("\t".intercalate e.row))
    (found : ofLine? line = some a) : a = e := by
  unfold ofLine? at found
  split at found
  · next dictionary name kinship more same =>
    obtain ⟨kinship', more', isWhole, front⟩ := fields_of_isFront [dictionary, name] front same
    rw [fields_line isRow] at isWhole
    obtain ⟨rfl, rfl, rfl, -⟩ : e.dictionaryName = dictionary ∧ e.className = name ∧
        e.kinship.text = kinship' ∧ [] = more' := by simpa using isWhole
    obtain ⟨k, read, rfl⟩ := Option.map_eq_some_iff.mp found
    rw [← Kinship.ofText?_eq_some_iff.mp read] at front
    rw [Kinship.eq_of_isFront front]
  · contradiction

theorem classHierarchyIn_isPrefix {entries : List HierarchyEntry} {cut : String}
    (areRows : ∀ e ∈ entries, IsRow e.row)
    (front : IsFront cut (reportOf (entries.map HierarchyEntry.row))) :
    classHierarchyIn cut <+: classHierarchyIn (reportOf (entries.map HierarchyEntry.row)) := by
  have areLines : ∀ row ∈ entries.map HierarchyEntry.row, '\n' ∉ ("\t".intercalate row).toList := by
    intro row mem
    obtain ⟨e, among, rfl⟩ := List.mem_map.mp mem
    exact noLineFeed_intercalate (areRows e among)
  suffices short : CutShort (· = ·) (classHierarchyIn cut)
      (classHierarchyIn (reportOf (entries.map HierarchyEntry.row))) from
    short.isPrefix fun _ _ same => same
  apply (cutShort_lines front).filterMap
  intro line mem line' a front found
  rw [lines_reportOf areLines, nonempty, List.mem_filter, List.mem_map] at mem
  obtain ⟨⟨row, mem, rfl⟩, -⟩ := mem
  obtain ⟨e, among, rfl⟩ := List.mem_map.mp mem
  obtain rfl := HierarchyEntry.ofLine?_of_isFront (areRows e among) front found
  exact ⟨a, HierarchyEntry.ofLine?_line (areRows a among), rfl⟩

/-! All reports -/

/-- What all the readers find in one text are the first records that they find in another. -/
structure ReadsPrefix (cut report : String) : Prop where
  lines : lines cut <+: lines report
  dictionaryEntries : dictionaryEntriesIn cut <+: dictionaryEntriesIn report
  classEnvironments : classEnvironmentsIn cut <+: classEnvironmentsIn report
  allClassNames : allClassNamesIn cut <+: allClassNamesIn report
  foundMethods : (foundMethodsIn cut).methods <+: (foundMethodsIn report).methods
  classHierarchy : classHierarchyIn cut <+: classHierarchyIn report

/-- What all the readers find in one text are the first records that they find in another, and perhaps
one more that is a short form of the record that follows them there. -/
structure ReadsCutShort (cut report : String) : Prop where
  lines : CutShort IsFront (lines cut) (lines report)
  dictionaryEntries :
    CutShort DictionaryEntry.Shortens (dictionaryEntriesIn cut) (dictionaryEntriesIn report)
  classEnvironments :
    CutShort EnvironmentCategory.Shortens (classEnvironmentsIn cut) (classEnvironmentsIn report)
  allClassNames : CutShort ClassNameEntry.Shortens (allClassNamesIn cut) (allClassNamesIn report)
  foundMethods :
    CutShort FoundMethod.Shortens (foundMethodsIn cut).methods (foundMethodsIn report).methods

theorem readsPrefix_iff (a b : String) : ReadsPrefix a (a ++ b) ↔ BetweenLines a b := by
  rw [← lines_isPrefix_iff]
  constructor
  · exact fun reads => reads.lines
  · intro inFront
    exact ⟨inFront, inFront.filterMap _, inFront.filterMap _, inFront.filterMap _,
      inFront.filterMap _, inFront.filterMap _⟩

theorem readsCutShort_of_isFront {cut report : String} (front : IsFront cut report) :
    ReadsCutShort cut report := by
  have short := cutShort_lines front
  exact ⟨short,
    short.filterMap fun _ _ _ _ => DictionaryEntry.ofLine?_of_isFront,
    short.filterMap fun _ _ _ _ => EnvironmentCategory.ofLine?_of_isFront,
    short.filterMap fun _ _ _ _ => ClassNameEntry.ofLine?_of_isFront,
    short.filterMap fun _ _ _ _ => FoundMethod.ofLine?_of_isFront⟩

/-- However a report is cut off, no reader finds other records in it, apart from the last one, which
may be a short form of the record that the cut goes through. Only a cut between two lines is sure to
leave it out. Of a class hierarchy every cut leaves it out. -/
theorem cut_reports_degrade (report : String) (limit : Int) :
    ReadsCutShort (upTo limit report) report ∧
      (∃ rest, report = upTo limit report ++ rest ∧
        (ReadsPrefix (upTo limit report) report ↔ BetweenLines (upTo limit report) rest)) ∧
      ∀ entries : List HierarchyEntry, (∀ e ∈ entries, IsRow e.row) →
        report = reportOf (entries.map HierarchyEntry.row) →
        classHierarchyIn (upTo limit report) <+: classHierarchyIn report := by
  have front := isFront_upTo limit report
  refine ⟨readsCutShort_of_isFront front, ?_, ?_⟩
  · obtain ⟨rest, same⟩ := front
    have reads := readsPrefix_iff (upTo limit report) rest
    rw [← same] at reads
    exact ⟨rest, same, reads⟩
  · rintro entries areRows rfl
    exact classHierarchyIn_isPrefix areRows front

theorem cut_reports_degrade_in_hierarchy :
    classHierarchyIn (upTo 46 (reportOf ([⟨"Globals", "Object", .superclass⟩,
      ⟨"UserGlobals", "Order", .self⟩].map HierarchyEntry.row))) <+:
    classHierarchyIn (reportOf ([⟨"Globals", "Object", .superclass⟩,
      ⟨"UserGlobals", "Order", .self⟩].map HierarchyEntry.row)) :=
  (cut_reports_degrade _ 46).2.2 _ (by decide) rfl

/-- A cut in the name of a class leaves a class of another name. -/
theorem cut_report_differs :
    ∃ entries : List DictionaryEntry, (∀ e ∈ entries, IsRow e.row) ∧
      ∃ limit : Int, ¬ReadsPrefix (upTo limit (reportOf (entries.map DictionaryEntry.row)))
        (reportOf (entries.map DictionaryEntry.row)) := by
  refine ⟨[⟨true, "Kernel", "Object"⟩], by decide, 12, ?_⟩
  intro reads
  exact absurd reads.dictionaryEntries (by decide)

end ImageBrowser
