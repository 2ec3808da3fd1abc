import ImageBrowser.Proofs.Records.Reading
import Mathlib.Data.List.Basic

/-!
Reports are read line by line. What is read of a line does not depend on the lines before and behind
it, so lines that are put in, taken out or garbled cost no records but their own. Only the number of
methods that a search found is told by one line for all of them, the last one that has a number.
-/

namespace ImageBrowser

open Text

namespace Text

def joined (ls : List String) : String := "\n".intercalate ls

theorem joined_cons_cons (a b : String) (ls : List String) :
    joined (a :: b :: ls) = a ++ "\n" ++ joined (b :: ls) := by
  unfold joined
  rw [String.intercalate_cons_cons]

theorem joined_split (s : String) : joined (split '\n' s) = s := by
  rw [joined, ← String.toList_inj, String.toList_intercalate, split, List.map_map]
  simpa [Function.comp_def] using intercalate_pieces '\n' s.toList

end Text

/-! Records -/

/-- What is read of a text is what is read of each of its lines, whatever the other lines are. -/
structure ReadsByLine {α : Type} (read : String → List α) : Prop where
  append : ∀ a b, read (a ++ "\n" ++ b) = read a ++ read b
  joined : ∀ ls, read (joined ls) = ls.flatMap read
  exchanged : ∀ before new after,
    read (Text.joined (before ++ new ++ after)) =
      read (Text.joined before) ++ read (Text.joined new) ++ read (Text.joined after)

namespace ReadsByLine

variable {α : Type} {read : String → List α}

theorem of_append (none : read "" = []) (append : ∀ a b, read (a ++ "\n" ++ b) = read a ++ read b) :
    ReadsByLine read := by
  have joined (ls : List String) : read (Text.joined ls) = ls.flatMap read := by
    induction ls with
    | nil => exact none
    | cons a ls ih =>
      cases ls with
      | nil => simp [Text.joined]
      | cons b ls => rw [List.flatMap_cons, joined_cons_cons, append, ih]
  refine ⟨append, joined, fun before new after => ?_⟩
  simp only [joined, List.flatMap_append]

theorem of_lines (ofLine? : String → Option α) :
    ReadsByLine fun report => (lines report).filterMap ofLine? := by
  apply of_append rfl
  intro a b
  rw [lines_append_lineFeed, List.filterMap_append]

end ReadsByLine

/-! The number of methods -/

/-- A line with the marker gives a number in the field behind it. -/
def GivesCount (line count : String) : Prop :=
  ∃ more, fields line = Smalltalk.truncationMarker :: count :: more

theorem reportedCount?_eq_some_iff {line : String} {n : Option Int} :
    reportedCount? line = some n ↔ ∃ count, GivesCount line count ∧ parseInt? count = n := by
  unfold reportedCount? GivesCount
  constructor
  · intro found
    split at found
    · next marker count more same =>
      split at found
      · next marked => exact ⟨count, ⟨more, by rw [same, marked]⟩, Option.some.inj found⟩
      · contradiction
    · contradiction
  · rintro ⟨count, ⟨more, same⟩, rfl⟩
    simp [same]

theorem reportedCount?_eq_none_iff {line : String} :
    reportedCount? line = none ↔ ∀ count, ¬GivesCount line count := by
  rw [Option.eq_none_iff_forall_ne_some]
  constructor
  · exact fun silent count gives =>
      silent _ (reportedCount?_eq_some_iff.mpr ⟨count, gives, rfl⟩)
  · intro silent n found
    obtain ⟨count, gives, -⟩ := reportedCount?_eq_some_iff.mp found
    exact silent count gives

/-- The number of methods found is what the last line says that gives one; if no line does, or it is
no number, it is how many methods there are. -/
def CountedByLast (report : String) : Prop :=
  ((∀ line ∈ split '\n' report, ∀ count, ¬GivesCount line count) ∧
      (foundMethodsIn report).totalCount = (foundMethodsIn report).methods.length) ∨
    ∃ before line after count, split '\n' report = before ++ line :: after ∧ GivesCount line count ∧
      (∀ later ∈ after, ∀ count, ¬GivesCount later count) ∧
      (foundMethodsIn report).totalCount =
        (parseInt? count).getD (foundMethodsIn report).methods.length

theorem filterMap_reportedCount?_lines (report : String) :
    (lines report).filterMap reportedCount? = (split '\n' report).filterMap reportedCount? := by
  rw [lines, nonempty, List.filterMap_filter]
  refine List.filterMap_congr fun line _ => ?_
  by_cases empty : line = ""
  · subst empty
    rfl
  · simp [empty]

theorem counted_by_last (report : String) : CountedByLast report := by
  have reported : (foundMethodsIn report).reported =
      (((split '\n' report).filterMap reportedCount?).getLast?).join := by
    rw [← filterMap_reportedCount?_lines]
    rfl
  unfold CountedByLast SearchResults.totalCount
  rw [reported]
  rcases List.eq_nil_or_concat ((split '\n' report).filterMap reportedCount?) with
    none | ⟨counts, n, last⟩
  · left
    refine ⟨fun line mem => ?_, by rw [none]; rfl⟩
    exact reportedCount?_eq_none_iff.mp (List.filterMap_eq_nil_iff.mp none line mem)
  · right
    rw [List.concat_eq_append] at last
    obtain ⟨before, rest, same, -, ending⟩ := List.filterMap_eq_append_iff.mp last
    obtain ⟨silent, line, after, rfl, -, found, none⟩ := List.filterMap_eq_cons_iff.mp ending
    obtain ⟨count, gives, rfl⟩ := reportedCount?_eq_some_iff.mp found
    refine ⟨before ++ silent, line, after, count, by simp [same], gives, fun later mem => ?_, ?_⟩
    · exact reportedCount?_eq_none_iff.mp (List.filterMap_eq_nil_iff.mp none later mem)
    · rw [last, List.getLast?_concat]
      rfl

/-- Every text is read line by line: the records of a line are the same whatever lines stand before
and behind it, and no line costs the records of another one. -/
theorem lines_read_apart :
    ReadsByLine dictionaryEntriesIn ∧ ReadsByLine classEnvironmentsIn ∧ ReadsByLine allClassNamesIn ∧
      ReadsByLine classHierarchyIn ∧ ReadsByLine (fun report => (foundMethodsIn report).methods) ∧
      (∀ report, CountedByLast report) ∧ ∀ report, joined (split '\n' report) = report :=
  ⟨.of_lines _, .of_lines _, .of_lines _, .of_lines _, .of_lines _, counted_by_last, joined_split⟩

end ImageBrowser
