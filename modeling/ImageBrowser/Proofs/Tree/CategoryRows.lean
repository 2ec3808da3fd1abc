import ImageBrowser.Proofs.Cache.Categories
import ImageBrowser.Proofs.Tree.Visits

/-!
What is found under the rows of a dictionary. A row is a name and nothing else, and the names of the
categories come from the stone: a category that is named like one of the two special rows is taken
for that row. Every other category shows its classes.
-/

namespace ImageBrowser

open DictionaryEntry (catalogue)

namespace DictionaryPath

def row (path : DictionaryPath) (name : String) : Node := .classCategory path (.text name)

def classes (path : DictionaryPath) (names : List String) : List Node :=
  names.map fun name => .cls ⟨path, .text name⟩

def globals (path : DictionaryPath) (names : List String) : List Node :=
  names.map fun name => .global path (.text name)

theorem classes_injective (path : DictionaryPath) : Function.Injective path.classes :=
  List.map_injective_iff.mpr fun _ _ same =>
    Value.text.inj (ClassPath.mk.inj (Node.cls.inj same)).2

theorem eq_nil_of_globals_eq_classes {path : DictionaryPath} {names names' : List String}
    (same : path.globals names = path.classes names') : names' = [] := by
  cases names with
  | nil => exact List.map_eq_nil_iff.mp same.symm
  | cons name names =>
    cases names' with
    | nil => rfl
    | cons name' names' => exact Node.noConfusion (List.cons.inj same).1

end DictionaryPath

/-! Rows of a catalogue -/

namespace ClassCategories.Answers

variable {c : ClassCategories} {k : Catalogue} {path : DictionaryPath}

theorem categoryRows (answers : c.Answers k) : Tree.categoryRows c path =
    .ok ((allRow :: k.categories ++ if k.globals ≠ [] then [otherGlobalsRow] else []).map
      path.row) := by
  have others : (if c.globals.isEmpty then [] else [Value.text otherGlobalsRow]) =
      (if k.globals ≠ [] then [otherGlobalsRow] else []).map .text := by
    rw [answers.globals]
    cases k.globals <;> rfl
  rw [Tree.categoryRows, answers.categoryNames]
  show Except.ok ((.text allRow :: k.categories.map Value.text ++ if _ then _ else _).map _) = _
  rw [others, ← List.map_cons, ← List.map_append, List.map_map]
  rfl

theorem rowChildren_otherGlobalsRow (answers : c.Answers k) :
    Tree.rowChildren c path (.text otherGlobalsRow) = .ok (path.globals k.globals) := by
  rw [Tree.rowChildren, if_pos rfl, answers.globals]
  exact congrArg Except.ok List.map_map

theorem rowChildren_allRow (answers : c.Answers k) :
    Tree.rowChildren c path (.text allRow) = .ok (path.classes k.allClasses) := by
  rw [Tree.rowChildren, if_neg (by decide), if_pos rfl, answers.allClassNames]
  exact congrArg Except.ok List.map_map

theorem rowChildren_of_ne (answers : c.Answers k) {category : String}
    (notGlobals : category ≠ otherGlobalsRow) (notAll : category ≠ allRow) :
    Tree.rowChildren c path (.text category) = .ok (path.classes (k.classesIn category)) := by
  rw [Tree.rowChildren, if_neg fun same => notGlobals (Value.text.inj same),
    if_neg fun same => notAll (Value.text.inj same), answers.classNamesIn]
  exact congrArg Except.ok List.map_map

end ClassCategories.Answers

namespace Catalogue.Sorts

variable {k : Catalogue} {entries : List DictionaryEntry}

theorem mem_globals (sorts : k.Sorts entries) {s : String} :
    s ∈ k.globals ↔ ∃ e ∈ entries, e.isClass = false ∧ e.name = s := by
  rw [sorts.globals.mem_iff, List.countP_pos_iff]
  simp

theorem mem_classesIn (sorts : k.Sorts entries) {category s : String} :
    s ∈ k.classesIn category ↔
      ∃ e ∈ entries, e.isClass ∧ e.category = category ∧ e.name = s := by
  rw [(sorts.classesIn category).mem_iff, List.countP_pos_iff]
  simp

theorem globals_ne_nil_iff (sorts : k.Sorts entries) :
    k.globals ≠ [] ↔ ∃ e ∈ entries, e.isClass = false := by
  constructor
  · intro some
    obtain ⟨s, mem⟩ := List.exists_mem_of_ne_nil _ some
    obtain ⟨e, among, other, -⟩ := sorts.mem_globals.mp mem
    exact ⟨e, among, other⟩
  · rintro ⟨e, mem, other⟩
    exact List.ne_nil_of_mem (sorts.mem_globals.mpr ⟨e, mem, other, rfl⟩)

theorem classesIn_ne_nil (sorts : k.Sorts entries) {category : String}
    (mem : category ∈ k.categories) : k.classesIn category ≠ [] := by
  obtain ⟨e, among, isClass, same⟩ := (sorts.categories.2 category).mp mem
  exact List.ne_nil_of_mem (sorts.mem_classesIn.mpr ⟨e, among, isClass, same, rfl⟩)

end Catalogue.Sorts

/-! Rows that are expanded -/

namespace WorkingStone

def entriesAt (s : WorkingStone) (i : Int) : List DictionaryEntry :=
  dictionaryEntriesIn (Text.upTo Handle.maxResultSize (s.textOf (.dictionaryEntries i)))

/-- What is found under the rows of a dictionary, once it is expanded. -/
structure ShowsRows (s : WorkingStone) (v : World) (n : Tree.Notifier) (path : DictionaryPath)
    (k : Catalogue) : Prop where
  dictionary : (Tree.children n (some (.dictionary path))).Ends s.outlook v fun outcome _ =>
    outcome = .ok ((allRow :: k.categories ++
      if k.globals ≠ [] then [otherGlobalsRow] else []).map path.row)
  all : (Tree.children n (some (path.row allRow))).Ends s.outlook v fun outcome _ =>
    outcome = .ok (path.classes k.allClasses)
  globals : (Tree.children n (some (path.row otherGlobalsRow))).Ends s.outlook v fun outcome _ =>
    outcome = .ok (path.globals k.globals)
  category (name : String) (notAll : name ≠ allRow) (notGlobals : name ≠ otherGlobalsRow) :
    (Tree.children n (some (path.row name))).Ends s.outlook v fun outcome _ =>
      outcome = .ok (path.classes (k.classesIn name))

variable {s : WorkingStone} {h : Handle} {w v : World} {path : DictionaryPath} {i : Int}
  {visits : List Visit}

theorem showsRows (selected : w.selection.selectedHandle = some h) (idle : w.depth h.number = 0)
    (nothing : w.cache.stored = .empty) (nobody : w.cache.inFlight = .empty)
    (session : path.sessionId.IsText) (index : path.index = .whole i)
    (visited : Visited s.outlook w (.expand (some (.dictionary path)) :: visits) v)
    (n : Tree.Notifier) : s.ShowsRows v n path (catalogue (s.entriesAt i)) := by
  have lists : Lists (some (.dictionary path)) path.sessionId i := by
    obtain ⟨name, inSession⟩ := session
    exact ⟨path, rfl, by rw [inSession, index]; rfl⟩
  have settled := visited.settled (settled_start selected idle nothing nobody)
  obtain ⟨c, built, answers⟩ := ClassCategories.exists_answers (s.entriesAt i)
  have shows {name : String} {rows : List Node}
      (shown : Tree.rowChildren c path (.text name) = .ok rows) :
      (Tree.children n (some (path.row name))).Ends s.outlook v fun outcome _ =>
        outcome = .ok rows :=
    (ends_classCategory settled n lists built shown).mono fun _ _ ended => ended.1 (.inr lists)
  exact {
    dictionary := ends_dictionary settled n lists built answers.categoryRows
    all := shows answers.rowChildren_allRow
    globals := shows answers.rowChildren_otherGlobalsRow
    category := fun name notAll notGlobals =>
      shows (answers.rowChildren_of_ne notGlobals notAll) }

theorem ShowsRows.categories_shown_iff {n : Tree.Notifier} {k : Catalogue}
    {entries : List DictionaryEntry} (shows : s.ShowsRows v n path k) (sorts : k.Sorts entries) :
    (∀ name ∈ k.categories, (Tree.children n (some (path.row name))).Ends s.outlook v
        fun outcome _ => outcome = .ok (path.classes (k.classesIn name))) ↔
      otherGlobalsRow ∉ k.categories ∧
        (allRow ∈ k.categories → k.classesIn allRow = k.allClasses) := by
  constructor
  · intro shown
    refine ⟨fun mem => ?_, fun mem => ?_⟩
    · have same := shows.globals.result_unique (shown _ mem)
      exact sorts.classesIn_ne_nil mem (DictionaryPath.eq_nil_of_globals_eq_classes same)
    · exact path.classes_injective ((shown _ mem).result_unique shows.all)
  · rintro ⟨notGlobals, all⟩ name mem
    by_cases isAll : name = allRow
    · subst isAll
      rw [all mem]
      exact shows.all
    · exact shows.category name isAll fun same => notGlobals (same ▸ mem)

end WorkingStone

variable {s : WorkingStone} {h : Handle} {w v : World} {path : DictionaryPath} {i : Int}
  {visits : List Visit}

/-- Once a dictionary is expanded, its rows are that of all classes, one for each category in order,
and that of the other globals if there are any; the first shows every class once, the last the
globals, and a category its classes unless it is named like one of the two. -/
theorem categories_shown_unless_special (selected : w.selection.selectedHandle = some h)
    (idle : w.depth h.number = 0) (nothing : w.cache.stored = .empty)
    (nobody : w.cache.inFlight = .empty) (session : path.sessionId.IsText)
    (index : path.index = .whole i)
    (visited : Visited s.outlook w (.expand (some (.dictionary path)) :: visits) v)
    (n : Tree.Notifier) :
    let k := catalogue (s.entriesAt i)
    let shows (node : Node) (rows : List Node) : Prop :=
      (Tree.children n (some node)).Ends s.outlook v fun outcome _ => outcome = .ok rows
    k.Sorts (s.entriesAt i) ∧
    shows (.dictionary path) ((allRow :: k.categories ++
      if ∃ e ∈ s.entriesAt i, e.isClass = false then [otherGlobalsRow] else []).map path.row) ∧
    shows (path.row allRow) (path.classes k.allClasses) ∧
    shows (path.row otherGlobalsRow) (path.globals k.globals) ∧
    (∀ name, name ≠ allRow → name ≠ otherGlobalsRow →
      shows (path.row name) (path.classes (k.classesIn name))) ∧
    ((∀ name ∈ k.categories, shows (path.row name) (path.classes (k.classesIn name))) ↔
      otherGlobalsRow ∉ k.categories ∧
        (allRow ∈ k.categories → k.classesIn allRow = k.allClasses)) := by
  have sorts := DictionaryEntry.sorts_catalogue (s.entriesAt i)
  have shows := WorkingStone.showsRows selected idle nothing nobody session index visited n
  refine ⟨sorts, ?_, shows.all, shows.globals, shows.category, shows.categories_shown_iff sorts⟩
  rw [← if_congr sorts.globals_ne_nil_iff (Eq.refl [otherGlobalsRow]) (Eq.refl [])]
  exact shows.dictionary

/-! Categories with ordinary and with special names -/

theorem exists_expanded (s : WorkingStone) : ∃ v,
    Visited s.outlook browsingWorld [.expand (some (.dictionary globalsPath))] v := by
  have start : s.Settled browsingHandle (Listed []) browsingWorld :=
    WorkingStone.settled_start selected_browsingWorld rfl rfl rfl
  obtain ⟨_, v, runs⟩ := (WorkingStone.ends_children start .log _).exists_runs
  exact ⟨v, Visited.start.expand runs⟩

theorem entriesAt_twoDictionaries (first second : SymbolDictionary) :
    (twoDictionaries first second).entriesAt 1 = dictionaryEntriesIn
      (Text.upTo Handle.maxResultSize (reportOf (first.entries.map DictionaryEntry.row))) :=
  congrArg (fun report => dictionaryEntriesIn (Text.upTo Handle.maxResultSize report))
    ((holds_twoDictionaries first second).entries 0 first rfl)

theorem categories_shown_of_ordinary_names :
    let s :=
      twoDictionaries ⟨"Globals", [⟨true, "Kernel", "Object"⟩, ⟨false, "", "Total"⟩]⟩ ⟨"", []⟩
    ∃ v, Visited s.outlook browsingWorld [.expand (some (.dictionary globalsPath))] v ∧
      let shows (node : Node) (rows : List Node) : Prop :=
        (Tree.children .log (some node)).Ends s.outlook v fun outcome _ => outcome = .ok rows
      shows (.dictionary globalsPath)
        [globalsPath.row allRow, globalsPath.row "Kernel", globalsPath.row otherGlobalsRow] ∧
      shows (globalsPath.row "Kernel") [.cls ⟨globalsPath, .text "Object"⟩] ∧
      shows (globalsPath.row otherGlobalsRow) [.global globalsPath (.text "Total")] := by
  intro s
  obtain ⟨v, visited⟩ := exists_expanded s
  have entries : s.entriesAt 1 = [⟨true, "Kernel", "Object"⟩, ⟨false, "", "Total"⟩] :=
    (entriesAt_twoDictionaries _ _).trans (by decide +kernel)
  have index : globalsPath.index = .whole 1 := rfl
  obtain ⟨-, dictionary, -, globals, category, -⟩ := categories_shown_unless_special
    selected_browsingWorld rfl rfl rfl ⟨_, rfl⟩ index visited .log
  rw [entries] at dictionary globals category
  refine ⟨v, visited, dictionary.mono fun _ _ same => same.trans ?_,
    (category "Kernel" (by decide) (by decide)).mono fun _ _ same => same.trans ?_,
    globals.mono fun _ _ same => same.trans ?_⟩
  all_goals decide +kernel

/-- A class in a category that is named like the row of the other globals is not found there. -/
theorem class_not_shown_under_special_name :
    let s := twoDictionaries ⟨"Globals", [⟨true, otherGlobalsRow, "Order"⟩]⟩ ⟨"", []⟩
    s.entriesAt 1 = [⟨true, otherGlobalsRow, "Order"⟩] ∧
    ∃ v, Visited s.outlook browsingWorld [.expand (some (.dictionary globalsPath))] v ∧
      let shows (node : Node) (rows : List Node) : Prop :=
        (Tree.children .log (some node)).Ends s.outlook v fun outcome _ => outcome = .ok rows
      shows (.dictionary globalsPath)
        [globalsPath.row allRow, globalsPath.row otherGlobalsRow] ∧
      shows (globalsPath.row otherGlobalsRow) [] ∧
      ¬ shows (globalsPath.row otherGlobalsRow) [.cls ⟨globalsPath, .text "Order"⟩] := by
  intro s
  obtain ⟨v, visited⟩ := exists_expanded s
  have entries : s.entriesAt 1 = [⟨true, otherGlobalsRow, "Order"⟩] :=
    (entriesAt_twoDictionaries _ _).trans (by decide +kernel)
  have index : globalsPath.index = .whole 1 := rfl
  have shows :=
    WorkingStone.showsRows selected_browsingWorld rfl rfl rfl ⟨_, rfl⟩ index visited .log
  rw [entries] at shows
  refine ⟨entries, v, visited, shows.dictionary.mono fun _ _ same => same.trans ?_,
    shows.globals.mono fun _ _ same => same.trans ?_, fun shown => ?_⟩
  · decide +kernel
  · decide +kernel
  · exact absurd (shows.globals.result_unique shown) (by decide +kernel)

end ImageBrowser
