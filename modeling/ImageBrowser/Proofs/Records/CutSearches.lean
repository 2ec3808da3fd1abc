import ImageBrowser.Proofs.Records.Cuts
import ImageBrowser.Proofs.Records.Lines
import ImageBrowser.Proofs.Records.Searches

/-!
What a report of found methods tells of those that are left out when it is cut off. The number of
methods stands on a row behind them, so a cut takes that row first, or some of the digits on it.
-/

namespace ImageBrowser

open Text

theorem reportedCount?_of_isFront {line whole : String} {n : Option Int}
    (front : IsFront line whole) (found : reportedCount? line = some n) :
    ∃ n', reportedCount? whole = some n' := by
  obtain ⟨count, ⟨more, same⟩, -⟩ := reportedCount?_eq_some_iff.mp found
  obtain ⟨count', more', isWhole, -⟩ := fields_of_isFront [Smalltalk.truncationMarker] front same
  exact ⟨_, reportedCount?_eq_some_iff.mpr ⟨count', ⟨more', isWhole⟩, rfl⟩⟩

/-! The row that tells how many methods there are, cut off -/

/-- What stands in front of the number. -/
def countLead : String := Smalltalk.truncationMarker ++ "\t"

theorem intercalate_marked (count : String) :
    "\t".intercalate [Smalltalk.truncationMarker, count] = countLead ++ count := by
  rw [String.intercalate_cons_cons, String.intercalate_singleton, countLead]

theorem reportOf_truncationRow (n : Nat) :
    reportOf [truncationRow n] = countLead ++ (ofInt n ++ "\n") := by
  have line : lineOf (truncationRow n) = countLead ++ ofInt n ++ "\n" := by
    rw [lineOf, truncationRow, intercalate_marked]
  simp [reportOf, line, String.append_assoc]

theorem lines_upTo_truncationRow {limit : Nat} (behind : countLead.length ≤ limit) (n : Nat) :
    lines (upTo limit (reportOf [truncationRow n])) =
      ["\t".intercalate
        [Smalltalk.truncationMarker, upTo (limit - countLead.length : Nat) (ofInt n)]] := by
  let digits := limit - countLead.length
  have isField : IsField (upTo digits (ofInt n)) :=
    (isField_ofInt n).of_isFront (isFront_upTo _ _)
  have line : lines (countLead ++ upTo digits (ofInt n)) =
      ["\t".intercalate [Smalltalk.truncationMarker, upTo digits (ofInt n)]] := by
    have some : countLead ++ upTo digits (ofInt n) ≠ "" := by
      simp [countLead, Smalltalk.truncationMarker]
    have oneLine := noLineFeed_intercalate (isRow_marked isField)
    rw [intercalate_marked] at oneLine ⊢
    rw [lines_of_noLineFeed oneLine, nonempty, List.filter_singleton, decide_eq_true some]
    rfl
  rw [reportOf_truncationRow, upTo_append_of_length_le behind]
  by_cases within : digits ≤ (ofInt n).length
  · rw [upTo_append_of_le within]
    exact line
  · have ending : ("\n" : String).length ≤ digits - (ofInt n).length := by
      show 1 ≤ _
      omega
    rw [upTo_append_of_length_le (by omega), upTo_of_length_le ending, ← String.append_assoc,
      lines_append_ending]
    rw [upTo_of_length_le (by omega)] at line ⊢
    exact line

theorem reportedCount?_upTo_truncationRow (limit n : Nat) :
    (((lines (upTo limit (reportOf [truncationRow n]))).filterMap reportedCount?).getLast?).join =
      parseInt? (upTo (limit - countLead.length : Nat) (ofInt n)) := by
  by_cases behind : countLead.length ≤ limit
  · have isField : IsField (upTo (limit - countLead.length : Nat) (ofInt n)) :=
      (isField_ofInt n).of_isFront (isFront_upTo _ _)
    rw [lines_upTo_truncationRow behind,
      List.filterMap_cons_some (reportedCount?_marked isField), List.filterMap_nil,
      List.getLast?_singleton, Option.join_some]
  · have lead : countLead.length = Smalltalk.truncationMarker.length + 1 := rfl
    have inMarker : limit ≤ Smalltalk.truncationMarker.length := by omega
    have front : IsFront (upTo limit Smalltalk.truncationMarker) Smalltalk.truncationMarker :=
      isFront_upTo _ _
    have none := filterMap_eq_nil_of_isFront reportedCount?_of_isFront front (by decide)
    have noDigits : limit - countLead.length = 0 := by omega
    rw [reportOf_truncationRow, noDigits, countLead, String.append_assoc,
      upTo_append_of_le inMarker, none]
    rfl

theorem ofLine?_upTo_truncationRow (limit n : Nat) :
    (lines (upTo limit (reportOf [truncationRow n]))).filterMap FoundMethod.ofLine? = [] := by
  refine filterMap_eq_nil_of_isFront (fun front found => ?_) (isFront_upTo _ _) ?_
  · obtain ⟨b, whole, -⟩ := FoundMethod.ofLine?_of_isFront front found
    exact ⟨b, whole⟩
  · have isRow : IsRow (truncationRow n) := isRow_marked (isField_ofInt _)
    rw [filterMap_reportOf (by decide) (by simpa using isRow)]
    exact List.filterMap_eq_nil_iff.mpr (by simp [ofLine?_truncationRow])

theorem parseInt?_upTo_ofInt (n lost : Nat) :
    parseInt? (upTo ((natDigits n).length - lost : Nat) (ofInt n)) =
      if lost < (natDigits n).length ∧ n / 10 ^ lost < 10 ^ maxDigits then
        some ((n / 10 ^ lost : Nat) : Int)
      else none := by
  have cut (k : Nat) : upTo k (ofInt n) = .ofList ((natDigits n).take k) := by
    simp [upTo, ofInt, intDigits_natCast]
  by_cases some : lost < (natDigits n).length
  · have front :
        upTo ((natDigits n).length - lost : Nat) (ofInt n) = ofInt (n / 10 ^ lost : Nat) := by
      rw [cut, ← natDigits_div_pow some, ofInt, intDigits_natCast]
    rw [front, parseInt?_ofInt, Int.natAbs_natCast]
    simp only [some, true_and]
  · rw [Nat.sub_eq_zero_of_le (by omega), cut, if_neg fun both => some both.1]
    rfl

/-! Whole reports, cut off -/

/-- No dictionary is named as the marker. -/
structure FoundMethod.Writable (m : FoundMethod) : Prop where
  isRow : IsRow m.row
  unmarked : m.dictionaryName ≠ Smalltalk.truncationMarker

theorem SearchResults.truncated_of_unreported {r : SearchResults} (none : r.reported = none) :
    r.truncated = false := by
  simp [truncated, totalCount, none]

/-- The rows of the methods that a report has room for. -/
def writtenMethods (found : List FoundMethod) : String :=
  reportOf ((found.take Smalltalk.methodLimit).map FoundMethod.row)

/-- How many characters a cut takes of a report. The line feed at the end is not missed. -/
def lostFrom (limit : Nat) (found : List FoundMethod) : Nat :=
  (foundMethodsReport found).length - (limit + 1)

/-- How many methods a report tells of when it is cut off: the number of those found, without the
digits that the cut takes. -/
def toldIn (limit : Nat) (found : List FoundMethod) : Nat :=
  found.length / 10 ^ lostFrom limit found

/-- What a search tells of the methods that were found, if so many characters are read. -/
structure SearchResults.Tells (r : SearchResults) (limit : Nat) (found : List FoundMethod) :
    Prop where
  methods : CutShort FoundMethod.Shortens r.methods (found.take Smalltalk.methodLimit)
  truncated : r.truncated = true ↔
    Smalltalk.methodLimit < toldIn limit found ∧ toldIn limit found < 10 ^ maxDigits
  fewer : r.truncated = true → r.methods.length < found.length
  silent : limit ≤ (writtenMethods found).length → r.truncated = false
  whole : (foundMethodsReport found).length ≤ limit → found.length < 10 ^ maxDigits →
    (r.truncated = true ↔ r.methods.length < found.length)

section Reports

variable {found : List FoundMethod} {limit : Nat}

theorem foundMethodsReport_of_le (few : found.length ≤ Smalltalk.methodLimit) :
    foundMethodsReport found = writtenMethods found := by
  rw [foundMethodsReport, if_neg (Nat.not_lt.mpr few), List.append_nil, writtenMethods]

theorem foundMethodsReport_of_lt (many : Smalltalk.methodLimit < found.length) :
    foundMethodsReport found = writtenMethods found ++ reportOf [truncationRow found.length] := by
  rw [foundMethodsReport, if_pos many, reportOf_append, writtenMethods]

theorem length_foundMethodsReport (many : Smalltalk.methodLimit < found.length) :
    (foundMethodsReport found).length =
      (writtenMethods found).length + countLead.length + (natDigits found.length).length + 1 := by
  rw [foundMethodsReport_of_lt many, reportOf_truncationRow]
  simp only [String.length_append, length_ofInt, Nat.add_assoc]
  rfl

theorem toldIn_le : toldIn limit found ≤ found.length := Nat.div_le_self _ _

theorem toldIn_of_length_le (fits : (foundMethodsReport found).length ≤ limit) :
    toldIn limit found = found.length := by
  have whole : lostFrom limit found = 0 := by
    unfold lostFrom
    omega
  rw [toldIn, whole, Nat.pow_zero, Nat.div_one]

theorem toldIn_eq_zero (none : (natDigits found.length).length ≤ lostFrom limit found) :
    toldIn limit found = 0 :=
  Nat.div_eq_of_lt ((lt_pow_length_natDigits _).trans_le (Nat.pow_le_pow_right (by decide) none))

theorem upTo_ofInt_length (many : Smalltalk.methodLimit < found.length) :
    upTo (limit - ((writtenMethods found).length + countLead.length) : Nat) (ofInt found.length) =
      upTo ((natDigits found.length).length - lostFrom limit found : Nat)
        (ofInt found.length) := by
  have length := length_foundMethodsReport many
  have digits := length_ofInt found.length
  unfold lostFrom
  by_cases all : (natDigits found.length).length ≤
      limit - ((writtenMethods found).length + countLead.length)
  · rw [upTo_of_length_le (by omega), upTo_of_length_le (by omega)]
  · congr 2
    omega

theorem isFront_writtenMethods
    (inside : found.length ≤ Smalltalk.methodLimit ∨ limit ≤ (writtenMethods found).length) :
    IsFront (upTo limit (foundMethodsReport found)) (writtenMethods found) := by
  by_cases few : found.length ≤ Smalltalk.methodLimit
  · rw [foundMethodsReport_of_le few]
    exact isFront_upTo _ _
  · rw [foundMethodsReport_of_lt (not_le.mp few), upTo_append_of_le (inside.resolve_left few)]
    exact isFront_upTo _ _

section Reading

variable (writable : ∀ m ∈ found, m.Writable)

include writable

theorem writable_take : ∀ m ∈ found.take Smalltalk.methodLimit, m.Writable :=
  fun m taken => writable m (List.mem_of_mem_take taken)

theorem methods_writtenMethods :
    (lines (writtenMethods found)).filterMap FoundMethod.ofLine? =
      found.take Smalltalk.methodLimit := by
  have writable := writable_take writable
  exact filterMap_reportOf_records (by decide) (fun m taken => (writable m taken).isRow)
    fun m taken => FoundMethod.ofLine?_line (writable m taken).isRow (writable m taken).unmarked

theorem reportedCount?_writtenMethods :
    (lines (writtenMethods found)).filterMap reportedCount? = [] := by
  have writable := writable_take writable
  have written : ∀ row ∈ (found.take Smalltalk.methodLimit).map FoundMethod.row, IsRow row := by
    intro row mem
    obtain ⟨m, taken, rfl⟩ := List.mem_map.mp mem
    exact (writable m taken).isRow
  rw [writtenMethods, filterMap_reportOf (by decide) written]
  exact FoundMethod.reportedCount?_rows (fun m taken => (writable m taken).isRow)
    fun m taken => (writable m taken).unmarked

theorem truncated_of_isFront {cut : String} (front : IsFront cut (writtenMethods found)) :
    (foundMethodsIn cut).truncated = false := by
  have silent := filterMap_eq_nil_of_isFront reportedCount?_of_isFront front
    (reportedCount?_writtenMethods writable)
  apply SearchResults.truncated_of_unreported
  rw [foundMethodsIn, silent]
  rfl

theorem foundMethodsIn_upTo_of_lt (many : Smalltalk.methodLimit < found.length)
    (behind : (writtenMethods found).length ≤ limit) :
    foundMethodsIn (upTo limit (foundMethodsReport found)) =
      ⟨found.take Smalltalk.methodLimit,
        if lostFrom limit found < (natDigits found.length).length ∧
            toldIn limit found < 10 ^ maxDigits then
          some (toldIn limit found : Int)
        else none⟩ := by
  let tail := upTo (limit - (writtenMethods found).length : Nat)
    (reportOf [truncationRow found.length])
  have apart : lines (writtenMethods found ++ tail) = lines (writtenMethods found) ++ lines tail :=
    lines_reportOf_append _ _
  have noMethod : (lines tail).filterMap FoundMethod.ofLine? = [] := ofLine?_upTo_truncationRow _ _
  have count := reportedCount?_upTo_truncationRow (limit - (writtenMethods found).length)
    found.length
  rw [Nat.sub_sub, upTo_ofInt_length many, parseInt?_upTo_ofInt] at count
  rw [foundMethodsReport_of_lt many, upTo_append_of_length_le behind, foundMethodsIn, apart,
    List.filterMap_append, List.filterMap_append, methods_writtenMethods writable,
    reportedCount?_writtenMethods writable, noMethod, List.append_nil, List.nil_append, count]
  rfl

theorem truncated_upTo_of_lt (many : Smalltalk.methodLimit < found.length)
    (behind : (writtenMethods found).length ≤ limit) :
    (foundMethodsIn (upTo limit (foundMethodsReport found))).truncated = true ↔
      Smalltalk.methodLimit < toldIn limit found ∧ toldIn limit found < 10 ^ maxDigits := by
  have length : (found.take Smalltalk.methodLimit).length = Smalltalk.methodLimit :=
    List.length_take_of_le many.le
  rw [foundMethodsIn_upTo_of_lt writable many behind]
  by_cases readable : lostFrom limit found < (natDigits found.length).length ∧
      toldIn limit found < 10 ^ maxDigits
  · rw [if_pos readable]
    simp [SearchResults.truncated, SearchResults.totalCount, length, readable.2]
  · rw [if_neg readable, SearchResults.truncated_of_unreported rfl]
    refine iff_of_false Bool.false_ne_true fun told => readable ⟨?_, told.2⟩
    by_contra none
    rw [toldIn_eq_zero (not_lt.mp none)] at told
    exact absurd told.1 (Nat.not_lt_zero _)

theorem truncated_upTo_iff :
    (foundMethodsIn (upTo limit (foundMethodsReport found))).truncated = true ↔
      Smalltalk.methodLimit < toldIn limit found ∧ toldIn limit found < 10 ^ maxDigits := by
  by_cases many : Smalltalk.methodLimit < found.length
  · by_cases behind : (writtenMethods found).length ≤ limit
    · exact truncated_upTo_of_lt writable many behind
    · have none : toldIn limit found = 0 := by
        have length := length_foundMethodsReport many
        refine toldIn_eq_zero ?_
        unfold lostFrom
        omega
      have front := isFront_writtenMethods (.inr (not_le.mp behind).le)
      rw [truncated_of_isFront writable front, none]
      simp
  · have few : toldIn limit found ≤ Smalltalk.methodLimit := toldIn_le.trans (not_lt.mp many)
    rw [truncated_of_isFront writable (isFront_writtenMethods (.inl (not_lt.mp many)))]
    simp [Nat.not_lt.mpr few]

/-- What is read of a report that is cut off tells only what is true, and all if nothing is cut. -/
theorem tells_upTo :
    (foundMethodsIn (upTo limit (foundMethodsReport found))).Tells limit found := by
  have isRow : ∀ m ∈ found, IsRow m.row := fun m mem => (writable m mem).isRow
  have unmarked : ∀ m ∈ found, m.dictionaryName ≠ Smalltalk.truncationMarker :=
    fun m mem => (writable m mem).unmarked
  have whole := methods_foundMethodsReport isRow unmarked
  have short := readsCutShort_of_isFront (isFront_upTo limit (foundMethodsReport found))
  have methods := short.foundMethods
  rw [whole] at methods
  have room : (found.take Smalltalk.methodLimit).length ≤ Smalltalk.methodLimit :=
    List.length_take_le _ _
  refine ⟨methods, truncated_upTo_iff writable, fun known => ?_, fun inside => ?_,
    fun fits small => ?_⟩
  · have many := ((truncated_upTo_iff writable).mp known).1
    exact (methods.length_le.trans room).trans_lt (many.trans_le toldIn_le)
  · exact truncated_of_isFront writable (isFront_writtenMethods (.inr inside))
  · rw [truncated_upTo_iff writable, toldIn_of_length_le fits, upTo_of_length_le fits, whole,
      List.length_take]
    omega

end Reading

end Reports

end ImageBrowser
