import ImageBrowser.Proofs.Text.Numerals
import ImageBrowser.Records.Reports

/-!
A report falls apart again into the rows that it was written from, and a row into its fields, as long
as no field holds a tab or a line feed.
-/

namespace ImageBrowser

namespace Text

structure IsField (s : String) : Prop where
  noTab : '\t' ∉ s.toList
  noLineFeed : '\n' ∉ s.toList

def IsRow (row : List String) : Prop := ∀ s ∈ row, IsField s

instance (s : String) : Decidable (IsField s) :=
  decidable_of_iff ('\t' ∉ s.toList ∧ '\n' ∉ s.toList)
    ⟨fun both => ⟨both.1, both.2⟩, fun isField => ⟨isField.noTab, isField.noLineFeed⟩⟩

instance (row : List String) : Decidable (IsRow row) :=
  inferInstanceAs (Decidable (∀ s ∈ row, IsField s))

theorem isField_empty : IsField "" := ⟨by simp, by simp⟩

theorem digitChar_ne_separator {d : Nat} (small : d < 10) :
    digitChar d ≠ '\t' ∧ digitChar d ≠ '\n' := by
  revert d
  decide

theorem isField_ofInt (n : Int) : IsField (ofInt n) := by
  have apart {c : Char} (mem : c ∈ intDigits n) : c ≠ '\t' ∧ c ≠ '\n' := by
    have digit (mem : c ∈ natDigits n.natAbs) : c ≠ '\t' ∧ c ≠ '\n' := by
      obtain ⟨d, small, rfl⟩ := mem_natDigits mem
      exact digitChar_ne_separator small
    unfold intDigits at mem
    split at mem
    · rcases List.mem_cons.mp mem with rfl | mem
      · decide
      · exact digit mem
    · exact digit mem
  constructor
  · intro mem
    exact (apart (by simpa [ofInt] using mem)).1 rfl
  · intro mem
    exact (apart (by simpa [ofInt] using mem)).2 rfl

theorem isRow_cons {s : String} {row : List String} :
    IsRow (s :: row) ↔ IsField s ∧ IsRow row := List.forall_mem_cons

theorem isRow_nil : IsRow [] := nofun

theorem split_of_absent {sep : Char} {s : String} (absent : sep ∉ s.toList) : split sep s = [s] := by
  simp [split, pieces_of_absent absent]

theorem split_append_separator (sep : Char) (a b : String) :
    split sep (a ++ String.singleton sep ++ b) = split sep a ++ split sep b := by
  simp [split, pieces_append_separator]

theorem fields_intercalate {row : List String} (some : row ≠ []) (isRow : IsRow row) :
    fields ("\t".intercalate row) = row := by
  induction row with
  | nil => contradiction
  | cons s row ih =>
    obtain ⟨isField, more⟩ := isRow_cons.mp isRow
    cases row with
    | nil => rw [String.intercalate_singleton, fields, split_of_absent isField.noTab]
    | cons t row =>
      have rest := ih (by simp) more
      have apart : fields (s ++ "\t" ++ "\t".intercalate (t :: row)) =
          fields s ++ fields ("\t".intercalate (t :: row)) := split_append_separator '\t' _ _
      rw [String.intercalate_cons_cons, apart, rest, fields, split_of_absent isField.noTab,
        List.singleton_append]

theorem noLineFeed_intercalate {row : List String} (isRow : IsRow row) :
    '\n' ∉ ("\t".intercalate row).toList := by
  induction row with
  | nil => simp
  | cons s row ih =>
    obtain ⟨isField, more⟩ := isRow_cons.mp isRow
    cases row with
    | nil => simpa using isField.noLineFeed
    | cons t row =>
      have separator : '\n' ∉ "\t".toList := by decide
      rw [String.intercalate_cons_cons]
      simp only [String.toList_append, List.mem_append, not_or]
      exact ⟨⟨isField.noLineFeed, separator⟩, ih more⟩

theorem lines_append_lineFeed (a b : String) : lines (a ++ "\n" ++ b) = lines a ++ lines b := by
  have apart : split '\n' (a ++ "\n" ++ b) = split '\n' a ++ split '\n' b :=
    split_append_separator '\n' a b
  rw [lines, apart]
  exact List.filter_append _ _

theorem lines_append_ending (line : String) : lines (line ++ "\n") = lines line := by
  simpa [lines, split, nonempty] using lines_append_lineFeed line ""

theorem lines_of_noLineFeed {line : String} (oneLine : '\n' ∉ line.toList) :
    lines line = nonempty [line] := by
  rw [lines, split_of_absent oneLine]

end Text

open Text

theorem reportOf_cons (row : List String) (rows : List (List String)) :
    reportOf (row :: rows) = "\t".intercalate row ++ "\n" ++ reportOf rows := by
  rw [reportOf, List.map_cons, String.join_cons, lineOf, reportOf]

theorem reportOf_append (rows rows' : List (List String)) :
    reportOf (rows ++ rows') = reportOf rows ++ reportOf rows' := by
  simp [reportOf]

theorem length_reportOf_between {least most : Nat} {rows : List (List String)}
    (between : ∀ row ∈ rows, least ≤ (lineOf row).length ∧ (lineOf row).length ≤ most) :
    rows.length * least ≤ (reportOf rows).length ∧
      (reportOf rows).length ≤ rows.length * most := by
  induction rows with
  | nil => simp [reportOf]
  | cons row rows ih =>
    obtain ⟨first, more⟩ := List.forall_mem_cons.mp between
    have rest := ih more
    have length : (reportOf (row :: rows)).length =
        (lineOf row).length + (reportOf rows).length := by
      rw [reportOf_cons, ← lineOf, String.length_append]
    rw [length, List.length_cons, Nat.succ_mul, Nat.succ_mul]
    omega

theorem lines_reportOf_append (rows : List (List String)) (rest : String) :
    lines (reportOf rows ++ rest) = lines (reportOf rows) ++ lines rest := by
  induction rows with
  | nil => simp [reportOf, lines, split, nonempty]
  | cons row rows ih =>
    rw [reportOf_cons, String.append_assoc, lines_append_lineFeed, lines_append_lineFeed, ih,
      List.append_assoc]

theorem lines_reportOf {rows : List (List String)}
    (areLines : ∀ row ∈ rows, '\n' ∉ ("\t".intercalate row).toList) :
    lines (reportOf rows) = nonempty (rows.map ("\t".intercalate ·)) := by
  induction rows with
  | nil => rfl
  | cons row rows ih =>
    obtain ⟨isLine, more⟩ := List.forall_mem_cons.mp areLines
    rw [reportOf_cons, lines_append_lineFeed, lines_of_noLineFeed isLine, ih more]
    exact (List.filter_append _ _).symm

theorem filterMap_reportOf {α : Type} {read : String → Option α} (blank : read "" = none)
    {rows : List (List String)} (areRows : ∀ row ∈ rows, IsRow row) :
    (lines (reportOf rows)).filterMap read = rows.filterMap fun row => read ("\t".intercalate row) := by
  have kept (line : String) : (if line ≠ "" then read line else none) = read line := by
    by_cases empty : line = ""
    · rw [if_neg (not_not_intro empty), empty, blank]
    · rw [if_pos empty]
  rw [lines_reportOf fun row mem => noLineFeed_intercalate (areRows row mem), nonempty,
    List.filterMap_filter]
  simp only [decide_eq_true_eq, kept, List.filterMap_map]
  rfl

theorem filterMap_rows {α : Type} {row : α → List String} {read : String → Option α} {items : List α}
    (readBack : ∀ a ∈ items, read ("\t".intercalate (row a)) = some a) :
    (items.map row).filterMap (fun r => read ("\t".intercalate r)) = items := by
  induction items with
  | nil => rfl
  | cons a items ih =>
    obtain ⟨first, more⟩ := List.forall_mem_cons.mp readBack
    rw [List.map_cons, List.filterMap_cons_some (f := fun r => read ("\t".intercalate r)) first,
      ih more]

theorem filterMap_reportOf_records {α : Type} {row : α → List String} {read : String → Option α}
    (blank : read "" = none) {items : List α} (areRows : ∀ a ∈ items, IsRow (row a))
    (readBack : ∀ a ∈ items, read ("\t".intercalate (row a)) = some a) :
    (lines (reportOf (items.map row))).filterMap read = items := by
  have written : ∀ r ∈ items.map row, IsRow r := by
    intro r mem
    obtain ⟨a, among, rfl⟩ := List.mem_map.mp mem
    exact areRows a among
  rw [filterMap_reportOf blank written, filterMap_rows readBack]

theorem flagText_eq_one_iff (b : Bool) : flagText b = "1" ↔ b = true := by
  cases b <;> decide

end ImageBrowser
