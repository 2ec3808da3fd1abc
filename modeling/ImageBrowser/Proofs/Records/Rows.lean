import ImageBrowser.Proofs.Records.Reading

/-!
The globals of a dictionary, the names of all classes and the relatives of a class are read as the
records that the rows were written for: fields that are empty keep their place, at the beginning of
a row as well as in the middle.
-/

namespace ImageBrowser

open Text

/-! The globals of a dictionary -/

/-- A global has a name, and no category unless it is a class. -/
structure DictionaryEntry.Writable (e : DictionaryEntry) : Prop where
  isRow : IsRow e.row
  named : e.name ≠ ""
  uncategorized : e.isClass = false → e.category = ""

theorem DictionaryEntry.ofLine?_line {e : DictionaryEntry} (writable : e.Writable) :
    ofLine? ("\t".intercalate e.row) = some e := by
  have category : (if e.isClass then e.category else "") = e.category := by
    split
    · rfl
    · next other => exact (writable.uncategorized (Bool.eq_false_iff.mpr other)).symm
  have fields : fields ("\t".intercalate e.row) = [flagText e.isClass, e.category, e.name] := by
    rw [fields_intercalate (by simp [row]) writable.isRow, row, category]
  rw [ofLine?, fields]
  simp [writable.named, flagText_eq_one_iff]

/-! The names of all classes -/

/-- The place of a dictionary is not too long a number. -/
structure ClassNameEntry.Writable (e : ClassNameEntry) : Prop where
  dictionaryName : IsField e.dictionaryName
  className : IsField e.className
  short : e.dictionaryIndex.natAbs < 10 ^ maxDigits

theorem ClassNameEntry.Writable.isRow {e : ClassNameEntry} (writable : e.Writable) : IsRow e.row :=
  isRow_cons.mpr ⟨isField_ofInt _, isRow_cons.mpr ⟨writable.dictionaryName,
    isRow_cons.mpr ⟨writable.className, isRow_nil⟩⟩⟩

theorem ClassNameEntry.ofLine?_line {e : ClassNameEntry} (writable : e.Writable) :
    ofLine? ("\t".intercalate e.row) = some e := by
  have read : parseInt? (ofInt e.dictionaryIndex) = some e.dictionaryIndex := by
    rw [parseInt?_ofInt, if_pos writable.short]
  rw [ofLine?, fields_intercalate (by simp [row]) writable.isRow, row]
  simp [read]

/-! The relatives of a class -/

theorem Kinship.ofText?_eq_some_iff {s : String} {k : Kinship} : ofText? s = some k ↔ k.text = s := by
  constructor
  · intro found
    simpa using List.find?_some found
  · rintro rfl
    cases k <;> rfl

theorem HierarchyEntry.fields_line {e : HierarchyEntry} (isRow : IsRow e.row) :
    fields ("\t".intercalate e.row) = [e.dictionaryName, e.className, e.kinship.text] :=
  fields_intercalate (by simp [row]) isRow

theorem HierarchyEntry.ofLine?_line {e : HierarchyEntry} (isRow : IsRow e.row) :
    ofLine? ("\t".intercalate e.row) = some e := by
  rw [ofLine?, fields_line isRow]
  simp [Kinship.ofText?_eq_some_iff.mpr rfl]

/-! All three -/

section Reports

variable {entries : List DictionaryEntry} {names : List ClassNameEntry}
  {relatives : List HierarchyEntry}

/-- Exactly the records are read that the rows were written for, in their order. -/
theorem rows_read_back (areEntries : ∀ e ∈ entries, e.Writable) (areNames : ∀ e ∈ names, e.Writable)
    (areRelatives : ∀ e ∈ relatives, IsRow e.row) :
    dictionaryEntriesIn (reportOf (entries.map DictionaryEntry.row)) = entries ∧
      allClassNamesIn (reportOf (names.map ClassNameEntry.row)) = names ∧
      classHierarchyIn (reportOf (relatives.map HierarchyEntry.row)) = relatives := by
  refine ⟨?_, ?_, ?_⟩
  · exact filterMap_reportOf_records (by decide) (fun e mem => (areEntries e mem).isRow)
      fun e mem => DictionaryEntry.ofLine?_line (areEntries e mem)
  · exact filterMap_reportOf_records (by decide) (fun e mem => (areNames e mem).isRow)
      fun e mem => ClassNameEntry.ofLine?_line (areNames e mem)
  · exact filterMap_reportOf_records (by decide) areRelatives
      fun e mem => HierarchyEntry.ofLine?_line (areRelatives e mem)

theorem rows_read_back_with_empty_fields :
    let entries : List DictionaryEntry :=
      [⟨true, "", "Order"⟩, ⟨false, "", "Smalltalk"⟩, ⟨true, "Kernel", "Object"⟩]
    let names : List ClassNameEntry := [⟨1, "", "Order"⟩, ⟨12, "Globals", ""⟩]
    let relatives : List HierarchyEntry :=
      [⟨"Globals", "Object", .superclass⟩, ⟨"", "Order", .self⟩, ⟨"", "", .subclass⟩]
    dictionaryEntriesIn (reportOf (entries.map DictionaryEntry.row)) = entries ∧
      allClassNamesIn (reportOf (names.map ClassNameEntry.row)) = names ∧
      classHierarchyIn (reportOf (relatives.map HierarchyEntry.row)) = relatives := by
  intro entries names relatives
  have areEntries : ∀ e ∈ entries, e.Writable := by
    have rows : ∀ e ∈ entries, IsRow e.row ∧ e.name ≠ "" ∧ (e.isClass = false → e.category = "") := by
      decide
    exact fun e mem => ⟨(rows e mem).1, (rows e mem).2.1, (rows e mem).2.2⟩
  have areNames : ∀ e ∈ names, e.Writable := by
    have rows : ∀ e ∈ names, IsField e.dictionaryName ∧ IsField e.className ∧
        e.dictionaryIndex.natAbs < 10 ^ 2 := by decide
    have long : 10 ^ 2 ≤ 10 ^ maxDigits := Nat.pow_le_pow_right (by decide) (by decide)
    exact fun e mem =>
      ⟨(rows e mem).1, (rows e mem).2.1, Nat.lt_of_lt_of_le (rows e mem).2.2 long⟩
  exact rows_read_back areEntries areNames (by decide)

end Reports

end ImageBrowser
