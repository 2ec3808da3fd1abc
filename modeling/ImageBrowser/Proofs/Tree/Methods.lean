import ImageBrowser.Proofs.Tree.Limits

/-!
The methods of a side of a class can be reached in two ways: under the row of all methods and under
the row of their category. A report may list a category more than once, and a selector in several
categories; the entry that is made of it lists each selector once with each category that it is in.
So both ways lead to the same nodes.
-/

namespace ImageBrowser

open EnvironmentCategory (ofSide selectorsOf categorized current)

theorem EnvironmentCategory.ascends_of_mem {report : String} {e : EnvironmentCategory}
    (mem : e ∈ classEnvironmentsIn report) :
    e.selectors.Pairwise (· < ·) := by
  obtain ⟨line, -, read⟩ := List.mem_filterMap.mp mem
  unfold ofLine? at read
  split at read
  · obtain ⟨_, -, rfl⟩ := Option.map_eq_some_iff.mp read
    exact Text.pairwise_sortedOnce _
  · contradiction

structure Indexed (names : List String) (selectorsIn : String → List String)
    (pairs : List (String × String)) : Prop where
  ascends : pairs.Pairwise fun p q => toLex p < toLex q
  mem_iff (selector category : String) :
    (selector, category) ∈ pairs ↔ category ∈ names ∧ selector ∈ selectorsIn category

namespace Environments

/-- What an entry answers of a side of a class in one environment. -/
structure Answers (e : Environments) (isMeta : Bool) (environment : Int) (names : List String)
    (selectorsIn : String → List String) (pairs : List (String × String)) : Prop where
  categoryNames :
    e.categoryNames (.flag isMeta) (.whole environment) = .ok (names.map .text)
  selectorsIn (category : String) :
    e.selectorsIn (.flag isMeta) (.whole environment) (.text category) =
      .ok (Value.texts (selectorsIn category))
  categorizedSelectors :
    e.categorizedSelectors (.flag isMeta) (.whole environment) = .ok (pairs.map Value.textPair)

theorem Answers.unique {e : Environments} {isMeta : Bool} {environment : Int}
    {names names' : List String} {selectors selectors' : String → List String}
    {pairs pairs' : List (String × String)}
    (answers : e.Answers isMeta environment names selectors pairs)
    (answers' : e.Answers isMeta environment names' selectors' pairs') :
    names = names' ∧ selectors = selectors' ∧ pairs = pairs' := by
  have texts : Function.Injective (List.map Value.text) :=
    List.map_injective_iff.mpr fun _ _ => Value.text.inj
  have textPairs : Function.Injective (List.map Value.textPair) := by
    refine List.map_injective_iff.mpr fun p q same => ?_
    obtain ⟨first, second⟩ := Prod.mk.inj same
    exact Prod.ext (Value.text.inj first) (Value.text.inj second)
  refine ⟨?_, funext fun category => ?_, ?_⟩
  · exact texts (Except.ok.inj (answers.categoryNames.symm.trans answers'.categoryNames))
  · have same := (answers.selectorsIn category).symm.trans (answers'.selectorsIn category)
    exact texts (Value.list.inj (Except.ok.inj same))
  · exact textPairs
      (Except.ok.inj (answers.categorizedSelectors.symm.trans answers'.categorizedSelectors))

theorem answers_current {records : List EnvironmentCategory}
    (once : ∀ r ∈ records, r.selectors.Nodup) (isMeta : Bool) (environment : Int) :
    let here := ofSide (current records) isMeta environment
    ∃ pairs, (ofRecords (current records)).Answers isMeta environment
        (Text.sorted (here.map (·.category))) (selectorsOf here) pairs ∧
      Indexed (Text.sorted (here.map (·.category))) (selectorsOf here) pairs := by
  intro here
  have apart := apart_current records
  obtain ⟨pairs, answer, all, inOrder⟩ := categorizedSelectors_ofSide apart isMeta environment
  refine ⟨pairs, ⟨categoryNames_ofSide isMeta environment,
    selectorsIn_ofSide apart isMeta environment, answer⟩, ?_, fun selector category => ?_⟩
  · have single : pairs.Nodup := by
      refine all.nodup_iff.mpr (EnvironmentCategory.nodup_categorized
        (distinct_ofSide apart isMeta environment) fun r mem => once r ?_)
      exact EnvironmentCategory.mem_of_mem_current (List.mem_filter.mp mem).1
    exact (inOrder.and single).imp fun both =>
      lt_of_le_of_ne both.1 fun same => both.2 (toLex.injective same)
  · rw [all.mem_iff, EnvironmentCategory.mem_categorized, iff_and_self, Text.mem_sorted]
    intro listed
    obtain ⟨r, mem, rfl, -⟩ := EnvironmentCategory.mem_selectorsOf.mp listed
    exact List.mem_map_of_mem mem

theorem exists_answers (report : String) : ∃ e,
    ofListings ((classEnvironmentsIn report).map EnvironmentCategory.listing) = .ok e ∧
    ∀ isMeta environment, ∃ names selectorsIn pairs,
      e.Answers isMeta environment names selectorsIn pairs ∧ Indexed names selectorsIn pairs := by
  refine ⟨_, ofListings_current _, fun isMeta environment => ?_⟩
  have once : ∀ r ∈ classEnvironmentsIn report, r.selectors.Nodup := fun r mem =>
    (EnvironmentCategory.ascends_of_mem mem).imp ne_of_lt
  exact ⟨_, _, answers_current once isMeta environment⟩

end Environments

namespace SidePath

def methods (side : SidePath) (pairs : List (String × String)) : List Node :=
  pairs.map fun p => .method side (.text p.2) (.text p.1)

def methodsIn (side : SidePath) (category : String) (selectors : List String) : List Node :=
  selectors.map fun selector => .method side (.text category) (.text selector)

end SidePath

namespace Indexed

variable {names : List String} {selectorsIn : String → List String} {pairs : List (String × String)}

theorem nodup_methods (indexed : Indexed names selectorsIn pairs) (side : SidePath) :
    (side.methods pairs).Nodup := by
  have apart : pairs.Nodup := indexed.ascends.imp fun less same => less.ne (congrArg toLex same)
  apply apart.map
  rintro ⟨a, b⟩ ⟨c, d⟩ same
  obtain ⟨-, category, selector⟩ := Node.method.inj same
  exact Prod.ext (Value.text.inj selector) (Value.text.inj category)

theorem mem_methods (indexed : Indexed names selectorsIn pairs) (side : SidePath) (node : Node) :
    node ∈ side.methods pairs ↔
      ∃ category ∈ names, node ∈ side.methodsIn category (selectorsIn category) := by
  constructor
  · intro mem
    obtain ⟨⟨selector, category⟩, listed, rfl⟩ := List.mem_map.mp mem
    obtain ⟨named, among⟩ := (indexed.mem_iff selector category).mp listed
    exact ⟨category, named, List.mem_map_of_mem among⟩
  · rintro ⟨category, named, mem⟩
    obtain ⟨selector, among, rfl⟩ := List.mem_map.mp mem
    exact List.mem_map.mpr ⟨_, (indexed.mem_iff selector category).mpr ⟨named, among⟩, rfl⟩

end Indexed

/-- Whatever a report says of a class, all selectors of a side are answered in order, each once with
each category that it is in. So unless a category has the name of the row of all methods, this row
shows each method once, in its own category, and shows the methods that the other rows show. -/
theorem methods_under_either_row :
    (∀ report : String, ∃ e, Environments.ofListings
        ((classEnvironmentsIn report).map EnvironmentCategory.listing) = .ok e ∧
      ∀ isMeta environment, ∃ names selectorsIn pairs,
        e.Answers isMeta environment names selectorsIn pairs ∧ Indexed names selectorsIn pairs) ∧
    ∀ {s : WorkingStone} {h : Handle} {w v : World} {path : ClassPath} {i : Int} {name : String}
      {uses : List Use}, w.selection.selectedHandle = some h → w.depth h.number = 0 →
      w.cache.stored = .empty → w.cache.inFlight = .empty → path.dictionary.sessionId.IsText →
      path.dictionary.index = .whole i → path.className = .text name →
      Used s.outlook w uses v → ∃ e, Environments.ofListings
          ((s.rowsAt i name (w.settings.after uses).limit.1).map EnvironmentCategory.listing) =
            .ok e ∧
      ∀ (n : Tree.Notifier) (isMeta : Bool) (environment : Int),
        let side : SidePath := ⟨path, .flag isMeta, .whole environment⟩
        let shows (node : Node) (rows : List Node) : Prop :=
          (Tree.children n (some node)).Ends s.outlook v fun outcome _ => outcome = .ok rows
        ∃ names selectorsIn pairs,
          e.Answers isMeta environment names selectorsIn pairs ∧
          shows (.side side) ((allRow :: names).map fun row => .category side (.text row)) ∧
          shows (.category side (.text allRow)) (side.methods pairs) ∧
          (∀ row, row ≠ allRow →
            shows (.category side (.text row)) (side.methodsIn row (selectorsIn row))) ∧
          (allRow ∉ names → (side.methods pairs).Nodup ∧ ∀ node, node ∈ side.methods pairs ↔
            ∃ row ∈ names, node ∈ side.methodsIn row (selectorsIn row)) := by
  refine ⟨Environments.exists_answers, ?_⟩
  intro s h w v path i name uses selected idle nothing nobody session index named used
  have faithful := used.faithful (WorkingStone.faithful_start selected idle nothing nobody)
  obtain ⟨e, built, fetched⟩ :=
    @WorkingStone.exists_environments s h (w.settings.after uses) i name path session index named
  obtain ⟨e', made, answers⟩ := Environments.exists_answers
    (Text.upTo Handle.maxResultSize
      (s.textOf (.classEnvironments i name (w.settings.after uses).limit.1)))
  obtain rfl := Except.ok.inj (made.symm.trans built)
  refine ⟨e', made, fun n isMeta environment => ?_⟩
  obtain ⟨names, selectorsIn, pairs, answers, indexed⟩ := answers isMeta environment
  refine ⟨names, selectorsIn, pairs, answers, faithful.ends_side n fetched answers.categoryNames,
    faithful.ends_allRow n fetched answers.categorizedSelectors, fun row other => ?_, fun _ => ?_⟩
  · exact faithful.ends_category n fetched other (answers.selectorsIn row)
  · exact ⟨indexed.nodup_methods _, indexed.mem_methods _⟩

/-! A class with a category that is listed twice -/

def repeatedCategory : WorkingStone where
  result source := ⟨1, source, ""⟩
  text _ := reportOf [["Order", "0", "private", "reset"], ["Order", "0", "accessing", "total"],
    ["Order", "0", "private", "total"]]

def orderListings : List EnvironmentCategory :=
  [⟨false, 0, "private", ["reset"]⟩, ⟨false, 0, "accessing", ["total"]⟩,
    ⟨false, 0, "private", ["total"]⟩]

theorem rowsAt_repeatedCategory (limit : Int) :
    repeatedCategory.rowsAt 1 "Order" limit = orderListings := by
  show classEnvironmentsIn (Text.upTo _ (reportOf _)) = _
  decide +kernel

theorem methods_of_repeated_category :
    let shows (row : String) (rows : List Node) : Prop :=
      (Tree.children .log (some (.category (orderSide 0) (.text row)))).Ends
        repeatedCategory.outlook browsingWorld fun outcome _ => outcome = .ok rows
    let total (category : String) : Node :=
      .method (orderSide 0) (.text category) (.text "total")
    shows "accessing" [total "accessing"] ∧ shows "private" [total "private"] ∧
    ∃ all, shows allRow all ∧ all.Nodup ∧
      ∀ node, node ∈ all ↔ node = total "accessing" ∨ node = total "private" := by
  have index : orderPath.dictionary.index = .whole 1 := rfl
  obtain ⟨e, built, shows⟩ := methods_under_either_row.2 (s := repeatedCategory)
    selected_browsingWorld rfl rfl rfl ⟨_, rfl⟩ index rfl .start
  rw [rowsAt_repeatedCategory, Environments.ofListings_current] at built
  obtain rfl := Except.ok.inj built
  obtain ⟨names, selectorsIn, pairs, answers, -, all, others, agree⟩ := shows .log false 0
  have once : ∀ r ∈ orderListings, r.selectors.Nodup := by decide +kernel
  obtain ⟨_, listed, -⟩ := Environments.answers_current once false 0
  obtain ⟨rfl, rfl, rfl⟩ := answers.unique listed
  have kept : ofSide (current orderListings) false 0 =
      [⟨false, 0, "private", ["total"]⟩, ⟨false, 0, "accessing", ["total"]⟩] := by decide +kernel
  have names : Text.sorted ["private", "accessing"] = ["accessing", "private"] :=
    (Text.sorted_congr (.swap _ _ [])).trans (Text.sorted_of_pairwise (by decide +kernel))
  simp only [kept, List.map_cons, List.map_nil, names] at agree others
  obtain ⟨single, same⟩ := agree (by decide)
  refine ⟨others "accessing" (by decide), others "private" (by decide), _, all, single,
    fun node => (same node).trans ?_⟩
  simp only [List.mem_cons, List.not_mem_nil, or_false, exists_eq_or_imp, exists_eq_left]
  exact or_congr List.mem_singleton List.mem_singleton

end ImageBrowser
