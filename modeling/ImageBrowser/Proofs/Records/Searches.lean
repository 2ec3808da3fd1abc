import ImageBrowser.Proofs.Records.Reading

/-!
What is read of the methods that a search wrote out: the methods that were written, and how many were
found when not all of them are written.
-/

namespace ImageBrowser

open Text

namespace FoundMethod

variable {m : FoundMethod}

theorem fields_line (isRow : IsRow m.row) :
    fields ("\t".intercalate m.row) =
      [m.dictionaryName, m.className, flagText m.isMeta, m.selector, m.category] :=
  fields_intercalate (by simp [row]) isRow

theorem ofLine?_line (isRow : IsRow m.row) (unmarked : m.dictionaryName ≠ Smalltalk.truncationMarker) :
    ofLine? ("\t".intercalate m.row) = some m := by
  rw [ofLine?, fields_line isRow]
  simp [unmarked, flagText_eq_one_iff]

theorem reportedCount?_line (isRow : IsRow m.row)
    (unmarked : m.dictionaryName ≠ Smalltalk.truncationMarker) :
    reportedCount? ("\t".intercalate m.row) = none := by
  rw [reportedCount?, fields_line isRow]
  simp [unmarked]

theorem reportedCount?_rows {found : List FoundMethod} (areRows : ∀ m ∈ found, IsRow m.row)
    (unmarked : ∀ m ∈ found, m.dictionaryName ≠ Smalltalk.truncationMarker) :
    (found.map row).filterMap (fun row => reportedCount? ("\t".intercalate row)) = [] := by
  rw [List.filterMap_eq_nil_iff]
  intro row mem
  obtain ⟨m, among, rfl⟩ := List.mem_map.mp mem
  exact reportedCount?_line (areRows m among) (unmarked m among)

end FoundMethod

/-! The row that tells how many methods there are -/

theorem isRow_marked {count : String} (isField : IsField count) :
    IsRow [Smalltalk.truncationMarker, count] :=
  isRow_cons.mpr ⟨by decide, isRow_cons.mpr ⟨isField, isRow_nil⟩⟩

theorem fields_marked {count : String} (isField : IsField count) :
    fields ("\t".intercalate [Smalltalk.truncationMarker, count]) =
      [Smalltalk.truncationMarker, count] :=
  fields_intercalate (by simp) (isRow_marked isField)

theorem ofLine?_truncationRow (n : Nat) :
    FoundMethod.ofLine? ("\t".intercalate (truncationRow n)) = none := by
  rw [FoundMethod.ofLine?, truncationRow, fields_marked (isField_ofInt n)]

theorem reportedCount?_marked {count : String} (isField : IsField count) :
    reportedCount? ("\t".intercalate [Smalltalk.truncationMarker, count]) =
      some (parseInt? count) := by
  rw [reportedCount?, fields_marked isField]
  simp

theorem reportedCount?_truncationRow {n : Nat} (short : n < 10 ^ maxDigits) :
    reportedCount? ("\t".intercalate (truncationRow n)) = some (some (n : Int)) := by
  rw [truncationRow, reportedCount?_marked (isField_ofInt n), parseInt?_ofInt,
    if_pos (by simpa using short)]

/-! Whole reports -/

section Reports

variable {found : List FoundMethod}

theorem filterMap_foundMethodsReport {α : Type} {read : String → Option α} (blank : read "" = none)
    (areRows : ∀ m ∈ found, IsRow m.row) :
    (lines (foundMethodsReport found)).filterMap read =
      ((found.take Smalltalk.methodLimit).map FoundMethod.row).filterMap
          (fun row => read ("\t".intercalate row)) ++
        if Smalltalk.methodLimit < found.length then
          (read ("\t".intercalate (truncationRow found.length))).toList
        else [] := by
  have written : ∀ row ∈ (found.take Smalltalk.methodLimit).map FoundMethod.row ++
      (if Smalltalk.methodLimit < found.length then [truncationRow found.length] else []),
      IsRow row := by
    intro row mem
    rcases List.mem_append.mp mem with among | last
    · obtain ⟨m, taken, rfl⟩ := List.mem_map.mp among
      exact areRows m (List.mem_of_mem_take taken)
    · split at last
      · obtain rfl := List.mem_singleton.mp last
        exact isRow_marked (isField_ofInt _)
      · contradiction
  rw [foundMethodsReport, filterMap_reportOf blank written, List.filterMap_append]
  split
  · cases last : read ("\t".intercalate (truncationRow found.length)) with
    | none => simp [last]
    | some a => simp [last]
  · rfl

theorem methods_foundMethodsReport (areRows : ∀ m ∈ found, IsRow m.row)
    (unmarked : ∀ m ∈ found, m.dictionaryName ≠ Smalltalk.truncationMarker) :
    (foundMethodsIn (foundMethodsReport found)).methods = found.take Smalltalk.methodLimit := by
  have readBack : ∀ m ∈ found.take Smalltalk.methodLimit,
      FoundMethod.ofLine? ("\t".intercalate m.row) = some m := by
    intro m taken
    have mem := List.mem_of_mem_take taken
    exact FoundMethod.ofLine?_line (areRows m mem) (unmarked m mem)
  rw [foundMethodsIn, filterMap_foundMethodsReport (by decide) areRows, filterMap_rows readBack,
    ofLine?_truncationRow]
  simp

theorem reported_foundMethodsReport (areRows : ∀ m ∈ found, IsRow m.row)
    (unmarked : ∀ m ∈ found, m.dictionaryName ≠ Smalltalk.truncationMarker)
    (short : found.length < 10 ^ maxDigits) :
    (foundMethodsIn (foundMethodsReport found)).reported =
      if Smalltalk.methodLimit < found.length then some (found.length : Int) else none := by
  have silent : ((found.take Smalltalk.methodLimit).map FoundMethod.row).filterMap
      (fun row => reportedCount? ("\t".intercalate row)) = [] :=
    FoundMethod.reportedCount?_rows (fun m taken => areRows m (List.mem_of_mem_take taken))
      fun m taken => unmarked m (List.mem_of_mem_take taken)
  have reports : (lines (foundMethodsReport found)).filterMap reportedCount? =
      if Smalltalk.methodLimit < found.length then [some (found.length : Int)] else [] := by
    rw [filterMap_foundMethodsReport (by decide) areRows, silent,
      reportedCount?_truncationRow short]
    rfl
  unfold foundMethodsIn
  simp only [reports]
  split <;> rfl

/-- Of the methods that a search wrote out, the same methods are read again in their order, up to the
limit, with the number of all that were found, and it is known whether some were left out. -/
theorem found_methods_read_back (areRows : ∀ m ∈ found, IsRow m.row)
    (unmarked : ∀ m ∈ found, m.dictionaryName ≠ Smalltalk.truncationMarker)
    (short : found.length < 10 ^ maxDigits) :
    (foundMethodsIn (foundMethodsReport found)).methods = found.take Smalltalk.methodLimit ∧
      (foundMethodsIn (foundMethodsReport found)).totalCount = found.length ∧
      ((foundMethodsIn (foundMethodsReport found)).truncated = true ↔
        Smalltalk.methodLimit < found.length) := by
  have methods := methods_foundMethodsReport areRows unmarked
  have reported := reported_foundMethodsReport areRows unmarked short
  have total : (foundMethodsIn (foundMethodsReport found)).totalCount = found.length := by
    rw [SearchResults.totalCount, reported, methods, List.length_take]
    split
    · rfl
    · rw [Option.getD_none]
      omega
  refine ⟨methods, total, ?_⟩
  rw [SearchResults.truncated, total, methods, List.length_take, decide_eq_true_iff]
  omega

theorem found_methods_read_back_past_limit :
    let found := List.replicate 501 (⟨"", "Order", true, "total", ""⟩ : FoundMethod)
    (foundMethodsIn (foundMethodsReport found)).methods = found.take 500 ∧
      (foundMethodsIn (foundMethodsReport found)).totalCount = 501 ∧
      (foundMethodsIn (foundMethodsReport found)).truncated = true := by
  intro found
  have same : ∀ m ∈ found, m = ⟨"", "Order", true, "total", ""⟩ := fun m => List.eq_of_mem_replicate
  have length : found.length = 501 := List.length_replicate
  have short : (501 : Nat) < 10 ^ maxDigits :=
    Nat.lt_of_lt_of_le (by decide : 501 < 10 ^ 3) (Nat.pow_le_pow_right (by decide) (by decide))
  have areRows : ∀ m ∈ found, IsRow m.row := fun m mem => same m mem ▸ by decide
  have unmarked : ∀ m ∈ found, m.dictionaryName ≠ Smalltalk.truncationMarker :=
    fun m mem => same m mem ▸ by decide
  obtain ⟨methods, total, truncated⟩ := found_methods_read_back areRows unmarked (length ▸ short)
  rw [length] at total truncated
  exact ⟨methods, total, truncated.mpr (by decide)⟩

end Reports

end ImageBrowser
