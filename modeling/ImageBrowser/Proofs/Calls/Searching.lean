import ImageBrowser.Proofs.Calls.Working
import ImageBrowser.Proofs.Records.CutSearches

/-!
What a search tells of the methods that it leaves out. The stone writes only so many methods, and
behind them how many it found, and only so much of what it writes is read.
-/

namespace ImageBrowser

open Program (Meets)
open Smalltalk (Snippet SnippetKind)
open Text

/-! Searches -/

inductive MethodSearch
  | source (term ignoreCase : Value)
  | senders (selector environment : Value)
  | implementors (selector environment : Value)

namespace MethodSearch

def snippet : MethodSearch → Except Fault Snippet
  | source term ignoreCase => SnippetKind.searchMethodSource.snippet [term, ignoreCase]
  | senders selector environment => SnippetKind.sendersOf.snippet [selector, environment]
  | implementors selector environment => SnippetKind.implementorsOf.snippet [selector, environment]

def run (h : Handle) : MethodSearch → Program SearchResults
  | source term ignoreCase => h.searchMethodSource term ignoreCase
  | senders selector environment => h.sendersOf selector environment
  | implementors selector environment => h.implementorsOf selector environment

end MethodSearch

namespace WorkingStone

variable {s : WorkingStone} {h : Handle} {w : World} {search : MethodSearch} {snippet : Snippet}

theorem yields_search (made : search.snippet = .ok snippet) :
    s.Yields h w 0 (search.run h)
      fun r => r = foundMethodsIn (upTo Handle.maxResultSize (s.textOf snippet)) := by
  cases search with
  | source | senders | implementors =>
    exact Meets.bind (yields_run made) fun _ same => .done (congrArg foundMethodsIn same)

end WorkingStone

/-- A search tells that methods are left out only if there are some, and always if the report of the
stone is short enough. If it is not, the cut takes digits of the number of methods, or all of it,
and what is left of it decides. -/
theorem left_out_methods_told {s : WorkingStone} {h : Handle} {w : World} {search : MethodSearch}
    {snippet : Snippet} {found : List FoundMethod} (made : search.snippet = .ok snippet)
    (writes : s.textOf snippet = foundMethodsReport found) (writable : ∀ m ∈ found, m.Writable)
    (idle : w.depth h.number = 0) :
    (search.run h).Ends s.outlook w fun outcome _ =>
      ∃ r, outcome = .ok r ∧ r.Tells Handle.maxResultSize found := by
  apply ((WorkingStone.yields_search made).ends idle).mono
  rintro _ v ⟨_, rfl, rfl, -⟩
  rw [writes]
  exact ⟨_, rfl, tells_upTo writable⟩

/-! Searches that find too much -/

def writing (text : String) : WorkingStone := ⟨fun _ => ⟨0, .null, ""⟩, fun _ => text⟩

theorem textOf_writing (text : String) (snippet : Snippet) :
    (writing text).textOf snippet = text := rfl

def totals (n : Nat) (category : String) : List FoundMethod :=
  (List.range n).map fun (i : Nat) => ⟨"Globals", "Order", false, "total" ++ ofInt i, category⟩

def someHandle : Handle := ⟨0, .text "session-1", ⟨.text "session-1"⟩⟩

section Totals

variable {n : Nat} {category : String}

theorem length_totals : (totals n category).length = n := by simp [totals]

theorem writable_totals (isField : IsField category) : ∀ m ∈ totals n category, m.Writable := by
  intro m mem
  obtain ⟨i, -, rfl⟩ := List.mem_map.mp mem
  have digits := isField_ofInt i
  have selector : IsField ("total" ++ ofInt i) := by
    constructor
    · simpa using digits.noTab
    · simpa using digits.noLineFeed
  refine ⟨?_, show "Globals" ≠ _ by decide⟩
  simp only [FoundMethod.row, isRow_cons]
  exact ⟨by decide, by decide, by decide, selector, isField, isRow_nil⟩

theorem length_lineOf_row (m : FoundMethod) : (lineOf m.row).length =
    m.dictionaryName.length + m.className.length + m.selector.length + m.category.length + 6 := by
  have tab : "\t".length = 1 := rfl
  have lineFeed : "\n".length = 1 := rfl
  have flag : (flagText m.isMeta).length = 1 := by cases m.isMeta <;> rfl
  simp [lineOf, FoundMethod.row, tab, lineFeed, flag]
  omega

theorem length_line_totals (few : n ≤ 1000) : ∀ m ∈ totals n category,
    category.length + 24 ≤ (lineOf m.row).length ∧
      (lineOf m.row).length ≤ category.length + 26 := by
  intro m mem
  obtain ⟨i, inside, rfl⟩ := List.mem_map.mp mem
  have most : (natDigits i).length ≤ 3 :=
    length_natDigits_le (by decide) ((List.mem_range.mp inside).trans_le few)
  have least := List.length_pos_iff.mpr (natDigits_ne_nil i)
  have dictionary : "Globals".length = 7 := rfl
  have className : "Order".length = 5 := rfl
  have selector : "total".length = 5 := rfl
  rw [length_lineOf_row]
  simp only [String.length_append, length_ofInt]
  omega

theorem length_writtenMethods_totals (many : 500 < n) (few : n ≤ 1000) :
    500 * (category.length + 24) ≤ (writtenMethods (totals n category)).length ∧
      (writtenMethods (totals n category)).length ≤ 500 * (category.length + 26) := by
  have count : ((totals n category).take Smalltalk.methodLimit).length = 500 :=
    List.length_take_of_le (many.le.trans_eq length_totals.symm)
  have between : ∀ row ∈ ((totals n category).take Smalltalk.methodLimit).map FoundMethod.row,
      category.length + 24 ≤ (lineOf row).length ∧ (lineOf row).length ≤ category.length + 26 := by
    intro row mem
    obtain ⟨m, taken, rfl⟩ := List.mem_map.mp mem
    exact length_line_totals few m (List.mem_of_mem_take taken)
  have whole := length_reportOf_between between
  rw [List.length_map, count] at whole
  exact whole

theorem length_foundMethodsReport_totals (many : 500 < n) (few : n < 1000) :
    (foundMethodsReport (totals n category)).length ≤ 500 * (category.length + 26) + 15 := by
  have written : _ ≤ 500 * (category.length + 26) := (length_writtenMethods_totals many few.le).2
  have digits : (natDigits n).length ≤ 3 := length_natDigits_le (by decide) few
  have lead : countLead.length = 11 := rfl
  rw [length_foundMethodsReport (many.trans_eq length_totals.symm), length_totals]
  omega

end Totals

theorem left_out_method_told :
    ((MethodSearch.senders (.text "total") (.whole 0)).run someHandle).Ends
      (writing (foundMethodsReport (totals 501 "accessing"))).outlook {} fun outcome _ =>
        ∃ r, outcome = .ok r ∧ r.methods.length < 501 ∧ r.truncated = true := by
  have fits : (foundMethodsReport (totals 501 "accessing")).length ≤ Handle.maxResultSize :=
    (length_foundMethodsReport_totals (by decide) (by decide)).trans (by decide)
  have writable : ∀ m ∈ totals 501 "accessing", m.Writable := writable_totals (by decide)
  have made : (MethodSearch.senders (.text "total") (.whole 0)).snippet =
      .ok (.sendersOf "total" 0) := rfl
  have idle : ({} : World).depth someHandle.number = 0 := rfl
  apply (left_out_methods_told made (textOf_writing _ _) writable idle).mono
  rintro _ v ⟨r, rfl, tells⟩
  have small : 501 < 10 ^ maxDigits :=
    Nat.lt_of_lt_of_le (by decide : 501 < 10 ^ 3) (Nat.pow_le_pow_right (by decide) (by decide))
  have told : toldIn Handle.maxResultSize (totals 501 "accessing") = 501 :=
    (toldIn_of_length_le fits).trans length_totals
  have truncated : r.truncated = true := by
    rw [tells.truncated, told]
    exact ⟨by decide, small⟩
  exact ⟨r, rfl, (tells.fewer truncated).trans_eq length_totals, truncated⟩

def longName (n : Nat) : String := String.ofList (List.replicate n 'a')

theorem length_longName (n : Nat) : (longName n).length = n := by simp [longName]

theorem isField_longName (n : Nat) : IsField (longName n) := by
  constructor <;> simp [longName, List.mem_replicate]

/-- Here a cut takes the row that tells how many methods there are, with the last of the methods. -/
theorem left_out_method_untold :
    (∀ m ∈ totals 501 (longName 600), m.Writable) ∧
    ((MethodSearch.senders (.text "total") (.whole 0)).run someHandle).Ends
      (writing (foundMethodsReport (totals 501 (longName 600)))).outlook {} fun outcome _ =>
        ∃ r, outcome = .ok r ∧ r.methods.length < 501 ∧ r.truncated = false := by
  have writable : ∀ m ∈ totals 501 (longName 600), m.Writable :=
    writable_totals (isField_longName 600)
  refine ⟨writable, ?_⟩
  have made : (MethodSearch.senders (.text "total") (.whole 0)).snippet =
      .ok (.sendersOf "total" 0) := rfl
  have idle : ({} : World).depth someHandle.number = 0 := rfl
  apply ((WorkingStone.yields_search made).ends idle).mono
  rintro _ v ⟨r, rfl, rfl, -⟩
  rw [textOf_writing]
  have tooLong : Handle.maxResultSize ≤ (writtenMethods (totals 501 (longName 600))).length := by
    have written : 500 * ((longName 600).length + 24) ≤ _ :=
      (length_writtenMethods_totals (n := 501) (by decide) (by decide)).1
    rw [length_longName] at written
    exact le_trans (by decide) written
  have tells : SearchResults.Tells _ Handle.maxResultSize _ := tells_upTo writable
  have few := tells.methods.length_le.trans (List.length_take_le _ _)
  exact ⟨_, rfl, few.trans_lt (by decide), tells.silent tooLong⟩

end ImageBrowser
